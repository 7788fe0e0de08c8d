import Mathlib.Data.List.Sort

/-! # Half-open ranges of addresses

Lists of ranges and the addresses in them. `Separated` lists are in order and leave a gap
between every two ranges; `covers` counts the ranges of a list that hold an address, which is
the form in which "no address is in two ranges" and "no address is lost" are added up.
-/

namespace Phocoena

/-- The addresses `From`, `From + 1`, …, `To - 1`. -/
structure Range where
  From : Nat
  To : Nat
deriving DecidableEq, Repr

namespace Range

instance : Membership Nat Range := ⟨fun r x => r.From ≤ x ∧ x < r.To⟩

@[simp] theorem mem_mk {f t x : Nat} : x ∈ Range.mk f t ↔ f ≤ x ∧ x < t := Iff.rfl

theorem mem_def {r : Range} {x : Nat} : x ∈ r ↔ r.From ≤ x ∧ x < r.To := Iff.rfl

instance (x : Nat) (r : Range) : Decidable (x ∈ r) :=
  inferInstanceAs (Decidable (r.From ≤ x ∧ x < r.To))

/-- No address is in both ranges. -/
def Apart (r s : Range) : Prop := ∀ x, x ∈ r → x ∉ s

theorem Apart.symm {r s : Range} (h : r.Apart s) : s.Apart r := fun x inS inR => h x inR inS

end Range

/-- `x` is in a range of the list. -/
def Within (x : Nat) (l : List Range) : Prop := ∃ r ∈ l, x ∈ r

section Within
variable {x : Nat} {r : Range} {l m : List Range}

@[simp] theorem within_nil : ¬ Within x [] := by simp [Within]

@[simp] theorem within_cons : Within x (r :: l) ↔ x ∈ r ∨ Within x l := by simp [Within]

@[simp] theorem within_append : Within x (l ++ m) ↔ Within x l ∨ Within x m := by
  simp [Within, or_and_right, exists_or]

end Within

/-! ## Separated lists -/

/-- No range is empty, the ranges are in order, and no two of them overlap or touch. -/
structure Separated (l : List Range) : Prop where
  nonempty : ∀ r ∈ l, r.From < r.To
  gaps : l.Pairwise (fun r s => r.To < s.From)

section Separated
variable {x : Nat} {r : Range} {l m : List Range}

theorem separated_nil : Separated [] := ⟨by simp, .nil⟩

theorem separated_cons :
    Separated (r :: l) ↔ r.From < r.To ∧ (∀ s ∈ l, r.To < s.From) ∧ Separated l := by
  constructor
  · rintro ⟨nonempty, gaps⟩
    rw [List.pairwise_cons] at gaps
    exact ⟨nonempty r (by simp), gaps.1, fun s hs => nonempty s (by simp [hs]), gaps.2⟩
  · rintro ⟨first, before, rest⟩
    refine ⟨?_, List.pairwise_cons.mpr ⟨before, rest.gaps⟩⟩
    simpa using ⟨first, rest.nonempty⟩

theorem separated_append :
    Separated (l ++ m) ↔ Separated l ∧ Separated m ∧ ∀ r ∈ l, ∀ s ∈ m, r.To < s.From := by
  constructor
  · rintro ⟨nonempty, gaps⟩
    rw [List.pairwise_append] at gaps
    exact ⟨⟨fun r hr => nonempty r (by simp [hr]), gaps.1⟩,
      ⟨fun r hr => nonempty r (by simp [hr]), gaps.2.1⟩, gaps.2.2⟩
  · rintro ⟨left, right, between⟩
    refine ⟨fun r hr => ?_, List.pairwise_append.mpr ⟨left.gaps, right.gaps, between⟩⟩
    cases List.mem_append.mp hr with
    | inl hl => exact left.nonempty r hl
    | inr hm => exact right.nonempty r hm

theorem separated_singleton : Separated [r] ↔ r.From < r.To := by
  simp [separated_cons, separated_nil]

theorem Separated.sorted (h : Separated l) : l.Pairwise (fun r s => r.From < s.From) := by
  refine h.gaps.imp_of_mem ?_
  intro r s hr _ gap
  have := h.nonempty r hr
  omega

end Separated

/-! ## Counting -/

/-- The number of ranges of the list that hold `x`. -/
def covers (l : List Range) (x : Nat) : Nat := l.countP (x ∈ ·)

section covers
variable {x : Nat} {r : Range} {l m : List Range}

@[simp] theorem covers_nil : covers [] x = 0 := rfl

theorem covers_cons : covers (r :: l) x = covers l x + if x ∈ r then 1 else 0 := by
  simp [covers, List.countP_cons]

@[simp] theorem covers_append : covers (l ++ m) x = covers l x + covers m x := by
  simp [covers]

theorem covers_perm (h : l.Perm m) : covers l x = covers m x := h.countP_eq _

theorem within_iff_covers : Within x l ↔ 0 < covers l x := by
  simp [Within, covers, List.countP_pos_iff]

/-- An address in no range twice: the ranges have no address in common. -/
theorem pairwise_apart (once : ∀ x, covers l x ≤ 1) : l.Pairwise Range.Apart := by
  induction l with
  | nil => exact .nil
  | cons r l ih =>
      have rest : ∀ x, covers l x ≤ 1 := by
        intro x
        have := once x
        rw [covers_cons] at this
        omega
      refine List.pairwise_cons.mpr ⟨?_, ih rest⟩
      intro s hs x inR inS
      have held : 0 < covers l x := within_iff_covers.mp ⟨s, hs, inS⟩
      have := once x
      rw [covers_cons, if_pos inR] at this
      omega

theorem Separated.covers_le_one (h : Separated l) : covers l x ≤ 1 := by
  induction l with
  | nil => simp
  | cons r l ih =>
      obtain ⟨first, before, rest⟩ := separated_cons.mp h
      rw [covers_cons]
      split
      · next inR =>
        have none : covers l x = 0 := by
          by_contra held
          obtain ⟨s, hs, inS⟩ := within_iff_covers.mpr (Nat.pos_of_ne_zero held)
          have := before s hs
          rw [Range.mem_def] at inR inS
          omega
        omega
      · exact ih rest

theorem Separated.covers_eq_one (h : Separated l) (held : Within x l) : covers l x = 1 := by
  have := h.covers_le_one (x := x)
  have := within_iff_covers.mp held
  omega

theorem covers_eq_zero (free : ¬ Within x l) : covers l x = 0 := by
  rw [within_iff_covers] at free
  omega

theorem Separated.covers_congr (h : Separated l) (h' : Separated m)
    (same : Within x l ↔ Within x m) : covers l x = covers m x := by
  by_cases held : Within x l
  · rw [h.covers_eq_one held, h'.covers_eq_one (same.mp held)]
  · rw [covers_eq_zero held, covers_eq_zero (mt same.mpr held)]

/-- Counting in two halves of a list. -/
theorem covers_filter_add (l : List Range) (p : Range → Bool) (x : Nat) :
    covers (l.filter p) x + covers (l.filter (fun r => !p r)) x = covers l x := by
  induction l with
  | nil => rfl
  | cons r l ih =>
      cases h : p r <;> simp only [List.filter_cons, h, covers_cons, Bool.not_true, Bool.not_false,
        if_true, if_false, Bool.false_eq_true] <;> omega

end covers

/-! ## Tilings -/

/-- Ranges in order inside of `[a, b)` that leave out no address from `low` on. -/
structure Tiles (low a b : Nat) (l : List Range) : Prop where
  ordered : l.Pairwise (fun r s => r.To ≤ s.From)
  inside : ∀ r ∈ l, a ≤ r.From ∧ r.From ≤ r.To ∧ r.To ≤ b
  covers : ∀ x, a ≤ x → x < b → low ≤ x → Within x l

section Tiles
variable {low a b c : Nat} {l m : List Range}

theorem tiles_nil (short : b ≤ max a low) : Tiles low a b [] :=
  ⟨.nil, by simp, fun x _ _ _ => by omega⟩

theorem tiles_singleton (le : a ≤ b) : Tiles low a b [⟨a, b⟩] := by
  refine ⟨List.pairwise_singleton _ _, fun r member => ?_, fun x above below _ => ?_⟩
  · rw [List.mem_singleton.mp member]
    exact ⟨le_rfl, le, le_rfl⟩
  · exact ⟨_, List.mem_singleton_self _, above, below⟩

theorem Tiles.append (first : Tiles low a b l) (second : Tiles low b c m) (le : a ≤ b)
    (le' : b ≤ c) : Tiles low a c (l ++ m) := by
  refine ⟨?_, fun r member => ?_, fun x above below notLow => ?_⟩
  · refine List.pairwise_append.mpr ⟨first.ordered, second.ordered, fun r inL s inM => ?_⟩
    have left := first.inside r inL
    have right := second.inside s inM
    omega
  · rcases List.mem_append.mp member with inL | inM
    · have left := first.inside r inL
      omega
    · have right := second.inside r inM
      omega
  · rw [within_append]
    rcases Nat.lt_or_ge x b with before | after
    · exact .inl (first.covers x above before notLow)
    · exact .inr (second.covers x after below notLow)

end Tiles

end Phocoena
