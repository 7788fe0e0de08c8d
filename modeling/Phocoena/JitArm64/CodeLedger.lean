import Phocoena.Common.RangeSizeSet

/-! # Ledgers of a code region

The free ranges of a region and the ranges in use account for each of its addresses exactly
once. Near and far code each have two regions, told apart by where a range starts.
-/

namespace Phocoena.JitArm64.CodeSpace

/-- Every address of the region is in one free range or in one range in use, and no address
outside it is in any. -/
structure Balanced (region : Range) (free : RangeSizeSet) (used : List Range) : Prop where
  valid : free.Valid
  once : ∀ x, covers free.Map x + covers used x = if x ∈ region then 1 else 0

theorem mem_of_bySizeBegin {free : RangeSizeSet} (valid : free.Valid) {f : Range}
    (largest : free.bySizeBegin = some f) : f ∈ free.Map :=
  valid.indexed.mem_iff.mp (List.mem_of_mem_head? largest)

namespace Balanced
variable {region r f : Range} {free : RangeSizeSet} {used used' : List Range} {start stop : Nat}

theorem reset : Balanced ⟨start, stop⟩ (RangeSizeSet.empty.insert start stop) [] := by
  have inserted := RangeSizeSet.insert_holds RangeSizeSet.holds_empty.valid start stop
  refine ⟨inserted.valid, fun x => ?_⟩
  have within := inserted.within x
  rw [RangeSizeSet.holds_empty.within, false_or] at within
  rw [covers_nil, Nat.add_zero]
  split
  · next mem => exact inserted.valid.separated.covers_eq_one (within.mpr mem)
  · next out => exact covers_eq_zero (mt within.mp out)

theorem perm (h : Balanced region free used) (p : used.Perm used') : Balanced region free used' :=
  ⟨h.valid, fun x => by rw [← covers_perm p]; exact h.once x⟩

/-- A range in use becomes free. -/
theorem release (h : Balanced region free (r :: used)) :
    Balanced region (free.insert r.From r.To) used := by
  have inserted := RangeSizeSet.insert_holds h.valid r.From r.To
  refine ⟨inserted.valid, fun x => ?_⟩
  have once := h.once x
  have within := inserted.within x
  rw [covers_cons] at once
  by_cases mem : x ∈ r
  · rw [if_pos mem] at once
    rw [inserted.valid.separated.covers_eq_one (within.mpr (.inr mem))]
    by_cases inRegion : x ∈ region
    · rw [if_pos inRegion] at once ⊢
      omega
    · rw [if_neg inRegion] at once
      omega
  · rw [if_neg mem, Nat.add_zero] at once
    rw [← once]
    refine congrArg (· + covers used x) (inserted.valid.separated.covers_congr h.valid.separated ?_)
    rw [within]
    exact or_iff_left mem

/-- The start of a free range is put to use. -/
theorem take (h : Balanced region free used) (mem : f ∈ free.Map) (first : r.From = f.From)
    (last : r.To ≤ f.To) : Balanced region (free.erase r.From r.To) (r :: used) := by
  have erased := RangeSizeSet.erase_holds h.valid r.From r.To
  refine ⟨erased.valid, fun x => ?_⟩
  have once := h.once x
  have within := erased.within x
  rw [covers_cons]
  by_cases inR : x ∈ r
  · rw [if_pos inR, covers_eq_zero (fun held => (within.mp held).2 inR)]
    have held : Within x free.Map := by
      refine ⟨f, mem, ?_⟩
      rw [Range.mem_def] at inR ⊢
      omega
    rw [h.valid.separated.covers_eq_one held] at once
    omega
  · rw [if_neg inR, Nat.add_zero, ← once]
    refine congrArg (· + covers used x) (erased.valid.separated.covers_congr h.valid.separated ?_)
    rw [within]
    exact and_iff_left inR

/-- An empty range may be counted among the ranges in use. -/
theorem cons_empty (h : Balanced region free used) (empty : r.From = r.To) :
    Balanced region free (r :: used) := by
  refine ⟨h.valid, fun x => ?_⟩
  have out : x ∉ r := by
    rw [Range.mem_def]
    omega
  rw [covers_cons, if_neg out, Nat.add_zero]
  exact h.once x

theorem uncons_empty (h : Balanced region free (r :: used)) (empty : r.From = r.To) :
    Balanced region free used := by
  refine ⟨h.valid, fun x => ?_⟩
  have out : x ∉ r := by
    rw [Range.mem_def]
    omega
  have once := h.once x
  rwa [covers_cons, if_neg out, Nat.add_zero] at once

theorem inside (h : Balanced region free used) (mem : f ∈ free.Map) :
    region.From ≤ f.From ∧ f.From < region.To := by
  have nonempty := h.valid.separated.nonempty f mem
  have held : Within f.From free.Map := ⟨f, mem, Range.mem_def.mpr ⟨Nat.le_refl _, nonempty⟩⟩
  have once := h.once f.From
  rw [h.valid.separated.covers_eq_one held] at once
  split at once
  · next inRegion => exact inRegion
  · omega

end Balanced

/-- Both regions of one kind of code: the ranges in use belong to the low region when they
start before `split`. -/
structure Ledger (split : Nat) (low high : Range) (free0 free1 : RangeSizeSet)
    (used : List Range) : Prop where
  low_le : low.To ≤ split
  le_high : split ≤ high.From
  low : Balanced low free0 (used.filter (·.From < split))
  high : Balanced high free1 (used.filter (fun r => !decide (r.From < split)))

namespace Ledger
variable {split : Nat} {low high r f : Range} {free0 free1 : RangeSizeSet} {used used' : List Range}

theorem perm (h : Ledger split low high free0 free1 used) (p : used.Perm used') :
    Ledger split low high free0 free1 used' :=
  ⟨h.low_le, h.le_high, h.low.perm (p.filter _), h.high.perm (p.filter _)⟩

theorem reset {a b c d : Nat} (low_le : b ≤ split) (le_high : split ≤ c) :
    Ledger split ⟨a, b⟩ ⟨c, d⟩ (RangeSizeSet.empty.insert a b) (RangeSizeSet.empty.insert c d) [] :=
  ⟨low_le, le_high, Balanced.reset, Balanced.reset⟩

theorem release_low (h : Ledger split low high free0 free1 (r :: used)) (lt : r.From < split) :
    Ledger split low high (free0.insert r.From r.To) free1 used := by
  refine ⟨h.low_le, h.le_high, ?_, ?_⟩
  · have := h.low
    rw [List.filter_cons_of_pos (by simpa using lt)] at this
    exact this.release
  · have := h.high
    rwa [List.filter_cons_of_neg (by simpa using lt)] at this

theorem release_high (h : Ledger split low high free0 free1 (r :: used)) (le : ¬ r.From < split) :
    Ledger split low high free0 (free1.insert r.From r.To) used := by
  refine ⟨h.low_le, h.le_high, ?_, ?_⟩
  · have := h.low
    rwa [List.filter_cons_of_neg (by simpa using le)] at this
  · have := h.high
    rw [List.filter_cons_of_pos (by simpa using le)] at this
    exact this.release

/-- A block is put at the start of a free range of the low region. -/
theorem take_low (h : Ledger split low high free0 free1 used) (mem : f ∈ free0.Map)
    (first : r.From = f.From) (last : r.To ≤ f.To) :
    Ledger split low high (if r.From ≠ r.To then free0.erase r.From r.To else free0) free1
      (r :: used) := by
  have inside := h.low.inside mem
  have lt : r.From < split := by
    have := h.low_le
    omega
  refine ⟨h.low_le, h.le_high, ?_, ?_⟩
  · rw [List.filter_cons_of_pos (by simpa using lt)]
    split
    · exact h.low.take mem first last
    · next empty => exact h.low.cons_empty (by omega)
  · rw [List.filter_cons_of_neg (by simpa using lt)]
    exact h.high

theorem take_high (h : Ledger split low high free0 free1 used) (mem : f ∈ free1.Map)
    (first : r.From = f.From) (last : r.To ≤ f.To) :
    Ledger split low high free0 (if r.From ≠ r.To then free1.erase r.From r.To else free1)
      (r :: used) := by
  have inside := h.high.inside mem
  have le : ¬ r.From < split := by
    have := h.le_high
    omega
  refine ⟨h.low_le, h.le_high, ?_, ?_⟩
  · rw [List.filter_cons_of_neg (by simpa using le)]
    exact h.low
  · rw [List.filter_cons_of_pos (by simpa using le)]
    split
    · exact h.high.take mem first last
    · next empty => exact h.high.cons_empty (by omega)

theorem uncons_empty (h : Ledger split low high free0 free1 (r :: used)) (empty : r.From = r.To) :
    Ledger split low high free0 free1 used := by
  by_cases lt : r.From < split
  · have low := h.low
    have high := h.high
    rw [List.filter_cons_of_pos (by simpa using lt)] at low
    rw [List.filter_cons_of_neg (by simpa using lt)] at high
    exact ⟨h.low_le, h.le_high, low.uncons_empty empty, high⟩
  · have low := h.low
    have high := h.high
    rw [List.filter_cons_of_neg (by simpa using lt)] at low
    rw [List.filter_cons_of_pos (by simpa using lt)] at high
    exact ⟨h.low_le, h.le_high, low, high.uncons_empty empty⟩

/-- Both regions together account for each of their addresses exactly once. -/
theorem total (h : Ledger split low high free0 free1 used) (x : Nat) :
    covers (free0.Map ++ free1.Map ++ used) x =
      (if x ∈ low then 1 else 0) + if x ∈ high then 1 else 0 := by
  have l := h.low.once x
  have r := h.high.once x
  have halves := covers_filter_add used (fun r => decide (r.From < split)) x
  rw [covers_append, covers_append]
  omega

end Ledger

end Phocoena.JitArm64.CodeSpace
