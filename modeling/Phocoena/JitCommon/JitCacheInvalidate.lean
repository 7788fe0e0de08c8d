import Phocoena.JitCommon.JitCacheErase

/-! # Invalidated instructions

After the instructions at some addresses are invalidated, no block has one of them, and the blocks
that have none of them are still there.
-/

namespace Phocoena.JitCommon

open JitBaseBlockCache in
/-- Addresses that are mapped together are all valid or none of them is, and keep their distances. -/
structure Machine.Paged (m : Machine) : Prop where
  together : ∀ a a', a < 2 ^ 32 → a' < 2 ^ 32 →
    a' / mappedTogether (m.JitCache_TranslateAddress a) =
      a / mappedTogether (m.JitCache_TranslateAddress a) →
    (m.JitCache_TranslateAddress a').valid = (m.JitCache_TranslateAddress a).valid ∧
      ((m.JitCache_TranslateAddress a).valid = true →
        (m.JitCache_TranslateAddress a').address + a =
          (m.JitCache_TranslateAddress a).address + a')
  bounded : ∀ a, (m.JitCache_TranslateAddress a).address < 2 ^ 32

namespace JitBaseBlockCache

variable {c c' : JitBaseBlockCache} {m : Machine} {b b' x : JitBlock} {id i key : Nat}
  {address length : Nat}

/-- The tables agree with each other, and the lines that have instructions of blocks are marked. -/
structure Valid (c : JitBaseBlockCache) : Prop where
  sane : c.Sane
  ranged : c.Ranged
  lines : ∀ b ∈ c.block_map, ∀ y, Within y b.physical_addresses → c.valid_block (y / 32) = true

/-- The blocks of the first cache but for some. -/
structure Fewer (c c' : JitBaseBlockCache) (gone : JitBlock → Prop) : Prop where
  old : ∀ x' ∈ c'.block_map, ∃ x ∈ c.block_map, bare x' = bare x
  kept : ∀ x ∈ c.block_map, ¬ gone x → ∃ x' ∈ c'.block_map, bare x' = bare x
  large : c'.large_entry_points_map = c.large_entry_points_map

theorem Erased.fewer {gone : JitBlock → Prop} (erased : Erased c c' gone) : Fewer c c' gone :=
  ⟨erased.old, erased.kept, erased.large⟩

theorem Fewer.refl (c : JitBaseBlockCache) (gone : JitBlock → Prop) : Fewer c c gone :=
  (Erased.refl c gone).fewer

theorem Fewer.trans {c'' : JitBaseBlockCache} {gone gone' gone'' : JitBlock → Prop}
    (first : Fewer c c' gone) (second : Fewer c' c'' gone')
    (one : ∀ x, gone x → gone'' x) (other : ∀ x y, bare x = bare y → gone' x → gone'' y) :
    Fewer c c'' gone'' := by
  refine ⟨fun x'' there => ?_, fun x there stays => ?_, second.large.trans first.large⟩
  · obtain ⟨x', here', alike'⟩ := second.old x'' there
    obtain ⟨x, here, alike⟩ := first.old x' here'
    exact ⟨x, here, alike'.trans alike⟩
  · obtain ⟨x', here', alike⟩ := first.kept x there fun lost => stays (one x lost)
    obtain ⟨x'', here'', alike'⟩ := second.kept x' here' fun lost => stays (other x' x alike lost)
    exact ⟨x'', here'', alike'.trans alike⟩

theorem Valid.withJs (valid : c.Valid) (js : JitState) : Valid { c with js := js } :=
  ⟨⟨valid.sane.distinct, valid.sane.linked.congr rfl rfl, ⟨valid.sane.fast.index,
    valid.sane.fast.aligned, valid.sane.fast.entries, valid.sane.fast.differ,
    valid.sane.fast.fallback, valid.sane.fast.points⟩, valid.sane.separated⟩,
    ⟨valid.ranged.blocks, valid.ranged.keys, valid.ranged.nodup⟩, valid.lines⟩

theorem Sane.withLines (sane : c.Sane) (lines : Nat → Bool) : Sane { c with valid_block := lines } :=
  ⟨sane.distinct, sane.linked.congr rfl rfl, ⟨sane.fast.index, sane.fast.aligned,
    sane.fast.entries, sane.fast.differ, sane.fast.fallback, sane.fast.points⟩, sane.separated⟩

/-- Fewer blocks with the lines that they had, but for lines that the range covers. -/
theorem Valid.erase (valid : c.Valid) (fits : address + length < 2 ^ 32) {lines : Nat → Bool}
    (cleared : ∀ y, c.valid_block (y / 32) = true → ¬ (address ≤ y ∧ y < address + length) →
      lines (y / 32) = true) :
    ∃ c', ErasePhysicalRange { c with valid_block := lines } address length = some c' ∧ c'.Valid ∧
      Fewer c c' (Overlaps address length) ∧ ∀ b ∈ c'.block_map, ¬ Overlaps address length b := by
  obtain ⟨c', ran, sane, ranged, erased, none⟩ := ErasePhysicalRange_spec fits
    (valid.sane.withLines lines) ⟨valid.ranged.blocks, valid.ranged.keys, valid.ranged.nodup⟩
  refine ⟨c', ran, ⟨sane, ranged, fun b' member y inside => ?_⟩,
    ⟨erased.old, erased.kept, erased.large⟩, none⟩
  obtain ⟨b, there, alike⟩ := erased.old b' member
  have addresses : b'.physical_addresses = b.physical_addresses :=
    congrArg (·.physical_addresses) alike
  rw [erased.valid_block]
  exact cleared y (valid.lines b there y (addresses ▸ inside)) fun covered =>
    none b' member ⟨y, covered, inside⟩

/-- One piece of the addresses. That the line is not marked is reason enough to do nothing. -/
theorem InvalidateICacheInternal_spec {physical_address : Nat} (valid : c.Valid)
    (fits : physical_address + length < 2 ^ 32) (address : Nat) (forced : Bool) :
    ∃ c', c.InvalidateICacheInternal physical_address address length forced = some c' ∧ c'.Valid ∧
      Fewer c c' (Overlaps physical_address length) ∧
      ∀ b ∈ c'.block_map, ¬ Overlaps physical_address length b := by
  rw [InvalidateICacheInternal]
  by_cases skipped : (length = 32 ∧ physical_address % 32 = 0) ∧
      c.valid_block (physical_address / 32) = false
  · obtain ⟨⟨rfl, aligned⟩, unmarked⟩ := skipped
    refine ⟨c, by simp [aligned, unmarked], valid, .refl c _, ?_⟩
    rintro b member ⟨y, ⟨after, before⟩, inside⟩
    have marked := valid.lines b member y inside
    rw [show y / 32 = physical_address / 32 by omega, unmarked] at marked
    simp at marked
  · simp only [if_neg skipped]
    have finish : ∀ s : JitBaseBlockCache, (∃ c', s.ErasePhysicalRange physical_address length =
        some c' ∧ c'.Valid ∧ Fewer c c' (Overlaps physical_address length) ∧
        ∀ b ∈ c'.block_map, ¬ Overlaps physical_address length b) →
        ∃ c', ((s.ErasePhysicalRange physical_address length).map fun c =>
          if forced then c else { c with js := c.js.erase fun i =>
            !(address ≤ i && i < (address + length) % 2 ^ 32 && (i - address) % 4 = 0) }) =
          some c' ∧ c'.Valid ∧ Fewer c c' (Overlaps physical_address length) ∧
          ∀ b ∈ c'.block_map, ¬ Overlaps physical_address length b := by
      rintro s ⟨c', ran, valid', fewer, none⟩
      rw [ran, Option.map_some]
      cases forced with
      | true => exact ⟨c', rfl, valid', fewer, none⟩
      | false => exact ⟨_, rfl, valid'.withJs _, ⟨fewer.old, fewer.kept, fewer.large⟩, none⟩
    refine finish _ ?_
    by_cases some : (length = 32 ∧ physical_address % 32 = 0) ∨ length > 32
    · rw [if_pos some]
      refine valid.erase fits fun y marked outside => ?_
      simp only [clearLines, marked, Bool.true_and, Bool.not_eq_true', Bool.and_eq_false_iff,
        decide_eq_false_iff_not]
      by_contra covered
      push Not at covered
      refine outside ?_
      by_cases single : length = 32 ∧ physical_address % 32 = 0
      · simp only [if_pos single] at covered
        omega
      · simp only [if_neg single] at covered
        have large := some.resolve_left single
        rw [Nat.mod_eq_of_lt (by omega), Nat.mod_eq_of_lt fits] at covered
        omega
    · rw [if_neg some]
      exact valid.erase fits fun y marked _ => marked

/-- Some instruction of the block is at one of the addresses. -/
def Meets (m : Machine) (address length : Nat) (b : JitBlock) : Prop :=
  ∃ a, (address ≤ a ∧ a < address + length) ∧ (m.JitCache_TranslateAddress a).valid = true ∧
    Within (m.JitCache_TranslateAddress a).address b.physical_addresses

theorem Meets.respects (x y : JitBlock) (alike : bare x = bare y) (meets : Meets m address length x) :
    Meets m address length y := by
  have addresses : x.physical_addresses = y.physical_addresses :=
    congrArg (·.physical_addresses) alike
  rw [Meets, ← addresses]
  exact meets

/-- The last address of the physical memory is none of those that are invalidated. -/
def ReachesEnd (m : Machine) (address length : Nat) : Prop :=
  ∃ a, (address ≤ a ∧ a < address + length) ∧ (m.JitCache_TranslateAddress a).valid = true ∧
    (m.JitCache_TranslateAddress a).address = 2 ^ 32 - 1

section
variable (paged : m.Paged) (inside : address + length ≤ 2 ^ 32)
  (unit : (address + (length - 1)) / mappedTogether (m.JitCache_TranslateAddress address) =
    address / mappedTogether (m.JitCache_TranslateAddress address))
include paged inside unit

/-- The addresses of a piece that is mapped together. -/
theorem piece_translated (positive : 0 < length) {a : Nat} (after : address ≤ a)
    (before : a < address + length) :
    (m.JitCache_TranslateAddress a).valid = (m.JitCache_TranslateAddress address).valid ∧
      ((m.JitCache_TranslateAddress address).valid = true →
        (m.JitCache_TranslateAddress a).address + address =
          (m.JitCache_TranslateAddress address).address + a) := by
  refine paged.together address a (by omega) (by omega) ?_
  refine le_antisymm ?_ (Nat.div_le_div_right after)
  rw [← unit]
  exact Nat.div_le_div_right (by omega)

theorem piece_overlaps (positive : 0 < length)
    (valid : (m.JitCache_TranslateAddress address).valid = true) :
    Overlaps (m.JitCache_TranslateAddress address).address length b ↔ Meets m address length b := by
  constructor
  · rintro ⟨y, ⟨after, before⟩, here⟩
    have ⟨valid', distance⟩ := piece_translated paged inside unit positive
      (a := address + (y - (m.JitCache_TranslateAddress address).address)) (by omega) (by omega)
    refine ⟨_, ⟨by omega, by omega⟩, valid'.trans valid, ?_⟩
    have same : (m.JitCache_TranslateAddress (address +
        (y - (m.JitCache_TranslateAddress address).address))).address = y := by
      have := distance valid
      omega
    rwa [same]
  · rintro ⟨a, ⟨after, before⟩, _, here⟩
    have ⟨_, distance⟩ := piece_translated paged inside unit positive after before
    have := distance valid
    exact ⟨_, ⟨by omega, by omega⟩, here⟩

/-- One piece in `InvalidateICache`, whether it is mapped or not. -/
theorem piece_spec (valid : c.Valid) (positive : 0 < length) (short : ¬ ReachesEnd m address length)
    (forced : Bool) :
    ∃ c', (if (m.JitCache_TranslateAddress address).valid then c.InvalidateICacheInternal
        (m.JitCache_TranslateAddress address).address address length forced else some c) = some c' ∧
      c'.Valid ∧ Fewer c c' (Meets m address length) ∧
      ∀ b ∈ c'.block_map, ¬ Meets m address length b := by
  by_cases mapped : (m.JitCache_TranslateAddress address).valid = true
  · have fits : (m.JitCache_TranslateAddress address).address + length < 2 ^ 32 := by
      have ⟨valid', distance⟩ := piece_translated paged inside unit positive
        (a := address + (length - 1)) (by omega) (by omega)
      have := distance mapped
      have bounded := paged.bounded (address + (length - 1))
      have other : (m.JitCache_TranslateAddress (address + (length - 1))).address ≠ 2 ^ 32 - 1 :=
        fun last => short ⟨_, ⟨by omega, by omega⟩, valid'.trans mapped, last⟩
      omega
    obtain ⟨c', ran, valid', fewer, none⟩ :=
      InvalidateICacheInternal_spec valid fits address forced
    have same : ∀ b, Overlaps (m.JitCache_TranslateAddress address).address length b ↔
        Meets m address length b := fun b => piece_overlaps paged inside unit positive mapped
    refine ⟨c', by rw [if_pos mapped, ran], valid', ⟨fewer.old, fun x there stays =>
      fewer.kept x there fun lost => stays ((same x).mp lost), fewer.large⟩, fun b member meets =>
      none b member ((same b).mpr meets)⟩
  · refine ⟨c, by rw [if_neg mapped], valid, .refl c _, ?_⟩
    rintro b _ ⟨a, ⟨after, before⟩, valid', _⟩
    have := (piece_translated paged inside unit positive after before).1
    exact mapped (this.symm.trans valid')

end

/-- The two parts of a range of addresses. -/
theorem Meets.split {first : Nat} (short : first ≤ length) : Meets m address length b ↔
    Meets m address first b ∨ Meets m (address + first) (length - first) b := by
  constructor
  · rintro ⟨a, ⟨after, before⟩, here⟩
    by_cases early : a < address + first
    · exact .inl ⟨a, ⟨after, early⟩, here⟩
    · exact .inr ⟨a, ⟨by omega, by omega⟩, here⟩
  · rintro (⟨a, ⟨after, before⟩, here⟩ | ⟨a, ⟨after, before⟩, here⟩)
    · exact ⟨a, ⟨by omega, by omega⟩, here⟩
    · exact ⟨a, ⟨by omega, by omega⟩, here⟩

theorem invalidateLoop_spec (paged : m.Paged) (forced : Bool) (fuel : Nat) (enough : length ≤ fuel)
    (valid : c.Valid) (inside : address + length ≤ 2 ^ 32) (short : ¬ ReachesEnd m address length) :
    ∃ c', invalidateLoop m forced fuel c address length = some c' ∧ c'.Valid ∧
      Fewer c c' (Meets m address length) ∧ ∀ b ∈ c'.block_map, ¬ Meets m address length b := by
  have nothing : ∀ a (b : JitBlock), ¬ Meets m a 0 b := fun _ b ⟨a, _, _⟩ => by omega
  induction fuel generalizing c address length with
  | zero =>
      obtain rfl : length = 0 := by omega
      exact ⟨c, rfl, valid, .refl c _, fun b _ => nothing _ b⟩
  | succ fuel ih =>
      obtain rfl | positive := Nat.eq_zero_or_pos length
      · exact ⟨c, rfl, valid, .refl c _, fun b _ => nothing _ b⟩
      · rw [invalidateLoop]
        simp only [if_neg positive.ne']
        rw [Nat.mod_eq_of_lt (a := address + (length - 1)) (by omega)]
        have unitPositive : 0 < mappedTogether (m.JitCache_TranslateAddress address) :=
          Nat.pow_pos (by decide)
        by_cases last : address / mappedTogether (m.JitCache_TranslateAddress address) =
            (address + (length - 1)) / mappedTogether (m.JitCache_TranslateAddress address)
        · rw [if_pos last]
          exact piece_spec paged inside last.symm valid positive short forced
        · rw [if_neg last]
          generalize size : mappedTogether (m.JitCache_TranslateAddress address) = unit at *
          have start := Nat.div_mul_le_self address unit
          have behind : address < (address / unit + 1) * unit := by
            rw [Nat.succ_mul]
            have := Nat.lt_div_mul_add unitPositive (a := address)
            omega
          have further : (address / unit + 1) * unit ≤ address + (length - 1) := by
            have more := Nat.div_le_div_right (c := unit)
              (show address ≤ address + (length - 1) by omega)
            exact (Nat.mul_le_mul_right unit (show address / unit + 1 ≤
              (address + (length - 1)) / unit by omega)).trans (Nat.div_mul_le_self _ _)
          generalize cut : (address / unit + 1) * unit - address = first at *
          have whole : (address + (first - 1)) / unit = address / unit := by
            refine Nat.div_eq_of_lt_le (by omega) (by omega)
          obtain ⟨c₁, ran₁, valid₁, fewer₁, none₁⟩ := piece_spec (c := c) paged
            (show address + first ≤ 2 ^ 32 by omega) (by rw [size]; exact whole) valid (by omega)
            (fun ⟨a, bounds, reached⟩ => short ⟨a, ⟨by omega, by omega⟩, reached⟩) forced
          have shorter : ¬ ReachesEnd m (address + first) (length - first) :=
            fun ⟨a, bounds, reached⟩ => short ⟨a, ⟨by omega, by omega⟩, reached⟩
          obtain ⟨c', ran, valid', fewer', none'⟩ := ih (by omega) valid₁ (by omega) shorter
          rw [ran₁, Option.bind_some, Nat.mod_eq_of_lt (by omega), ran]
          have parts : ∀ b : JitBlock, Meets m address length b ↔
              Meets m address first b ∨ Meets m (address + first) (length - first) b :=
            fun _ => Meets.split (by omega)
          refine ⟨c', rfl, valid', fewer₁.trans fewer' (fun x lost => (parts x).mpr (.inl lost))
            (fun x y alike lost => (parts y).mpr (.inr (lost.respects _ _ alike))),
            fun b' member meets => ?_⟩
          obtain early | late := (parts b').mp meets
          · obtain ⟨b, there, alike⟩ := fewer'.old b' member
            exact none₁ b there (early.respects _ _ alike)
          · exact none' b' member late

theorem InvalidateICache_spec (paged : m.Paged) (valid : c.Valid) (forced : Bool)
    (inside : address + length ≤ 2 ^ 32) (short : ¬ ReachesEnd m address length) :
    ∃ c', c.InvalidateICache m address length forced = some c' ∧ c'.Valid ∧
      Fewer c c' (Meets m address length) ∧ ∀ b ∈ c'.block_map, ¬ Meets m address length b :=
  invalidateLoop_spec paged forced length le_rfl valid inside short

/-- A line is never mapped in parts. -/
theorem line_together (line : Nat) (t : TranslateResult) :
    (line / 32 * 32 + (32 - 1)) / mappedTogether t = line / 32 * 32 / mappedTogether t := by
  have multiple : ∃ k, mappedTogether t = 32 * k := by
    unfold mappedTogether
    split
    · exact ⟨2 ^ 12, rfl⟩
    · exact ⟨2 ^ 7, rfl⟩
  obtain ⟨k, unit⟩ := multiple
  rw [unit, ← Nat.div_div_eq_div_mul, ← Nat.div_div_eq_div_mul]
  congr 1
  omega

theorem InvalidateICacheLine_spec (paged : m.Paged) (valid : c.Valid) (inside : address < 2 ^ 32)
    (short : ¬ ReachesEnd m (address / 32 * 32) 32) :
    ∃ c', c.InvalidateICacheLine m address = some c' ∧ c'.Valid ∧
      Fewer c c' (Meets m (address / 32 * 32) 32) ∧
      ∀ b ∈ c'.block_map, ¬ Meets m (address / 32 * 32) 32 b :=
  piece_spec paged (by omega) (line_together address _) valid (by decide) short false

/-! ## Single blocks and all of them -/

theorem EraseSingleBlock_spec (valid : c.Valid) (id : Nat) :
    ∃ c', c.EraseSingleBlock id = some c' ∧ c'.Valid ∧ Fewer c c' (fun b => b.self = id) ∧
      ∀ b ∈ c'.block_map, b.self ≠ id := by
  rw [EraseSingleBlock]
  cases found : c.deref id with
  | none =>
      refine ⟨c, rfl, valid, .refl c _, ?_⟩
      rintro b member rfl
      rw [deref_of_mem valid.sane.distinct member] at found
      simp at found
  | some b =>
      obtain ⟨member, rfl⟩ := mem_of_deref found
      obtain ⟨c₁, ran, sane, erased, others, ranges⟩ := (valid.sane.withRanges
        (c.block_range_map.eraseAll b.self (macroBlocks b))).destroy member
      have erased' : Erased c (c₁.free b.self) (fun x => x.self = b.self) :=
        ⟨erased.old, erased.kept, erased.valid_block, erased.large⟩
      simp only [ran, Option.map_some]
      refine ⟨_, rfl, ⟨sane, valid.ranged.without erased' others (fun _ => id) valid.sane.distinct
        member ranges, fun x' here y inside => ?_⟩, erased'.fewer, others⟩
      obtain ⟨x, there, alike⟩ := erased'.old x' here
      have addresses : x'.physical_addresses = x.physical_addresses :=
        congrArg (·.physical_addresses) alike
      rw [erased'.valid_block]
      exact valid.lines x there y (addresses ▸ inside)

theorem Init_valid (large : Bool) : (Init large).Valid where
  sane := {
    distinct := List.nodup_nil
    linked := ⟨by simp [Init], by simp [Init]⟩
    fast := ⟨by simp [Init], by simp [Init], by simp [Init], by simp [Init], by simp [Init],
      by simp [Init]⟩
    separated := by simp [Init] }
  ranged := ⟨by simp [Init], by simp [Init], by simp [Init]⟩
  lines := by simp [Init]

/-- While all blocks are destroyed, the fast block map only has some that are left. -/
structure Clearing (c : JitBaseBlockCache) (l : List Nat) (s : JitBaseBlockCache) : Prop where
  sane : s.Sane
  selfs : s.block_map.map (·.self) = c.block_map.map (·.self)
  listed : ∀ id ∈ l, id ∈ c.block_map.map (·.self)
  large : s.large_entry_points_map = c.large_entry_points_map
  fallback : c.large_entry_points_map = false → ∀ i id, s.m_fast_block_map_fallback i = some id →
    id ∈ l

theorem Clearing.step {l : List Nat} {s : JitBaseBlockCache} (clearing : Clearing c (id :: l) s) :
    ∃ s', s.DestroyBlock id = some s' ∧ Clearing c l s' := by
  obtain ⟨sane, selfs, listed, large, fallback⟩ := clearing
  obtain ⟨b, member, rfl⟩ := List.mem_map.mp (selfs ▸ listed id (by simp))
  obtain ⟨s', ran, linked, _, _, same⟩ := DestroyBlock_spec sane.distinct sane.linked member
  obtain ⟨blocks, _, _, _, large'⟩ := dropFastEntry_rest s b
  have before : Distinct { s.dropFastEntry b with links_to := s'.links_to } := by
    show ((s.dropFastEntry b).block_map.map (·.self)).Nodup
    rw [blocks]
    exact sane.distinct
  have fast₀ := sane.fast.drop b
  have fast₁ : FastMapped { s.dropFastEntry b with links_to := s'.links_to } :=
    ⟨fast₀.index, fast₀.aligned, fast₀.entries, fast₀.differ, fast₀.fallback, fast₀.points⟩
  have selfs' : s'.block_map.map (·.self) = s.block_map.map (·.self) :=
    same.selfs.trans (congrArg _ blocks)
  refine ⟨s', ran, ⟨same.distinct before, linked, same.fast before fast₁, fun x' there => ?_⟩,
    selfs'.trans selfs, fun id later => listed id (by simp [later]),
    (same.large.trans large').trans large, fun small i id there => ?_⟩
  · obtain ⟨x, here, alike⟩ := same.mem' there
    have addresses : x.physical_addresses = x'.physical_addresses :=
      congrArg (·.physical_addresses) alike
    exact addresses ▸ sane.separated x (by simpa only [blocks] using here)
  · rw [same.fallback] at there
    have ⟨there', _⟩ := dropFastEntry_fallback s b i there
    have free := (sane.fast.drop_free sane.distinct member).fallback (large'.trans (large.trans small))
    refine (List.mem_cons.mp (fallback small i id there')).resolve_left fun own => ?_
    exact free i (own ▸ there)

/-- A cleared cache is an empty one. -/
theorem Clear_spec (valid : c.Valid) :
    ∃ c', c.Clear = some c' ∧ c'.Valid ∧ c'.block_map = [] ∧
      c'.large_entry_points_map = c.large_entry_points_map := by
  obtain ⟨s, ran, cleared⟩ := foldlM_succeeds (f := DestroyBlock) (I := Clearing c)
    (fun id l s clearing => clearing.step) (l := c.block_map.map (·.self)) (s := c)
    ⟨valid.sane, rfl, fun _ => id, rfl, fun small i id there => by
      obtain ⟨b, member, rfl, _⟩ := valid.sane.fast.fallback small i id there
      exact List.mem_map_of_mem member⟩
  refine ⟨{ Init s.large_entry_points_map with
    m_fast_block_map_fallback := s.m_fast_block_map_fallback }, by rw [Clear, ran]; rfl, ?_, rfl,
    cleared.large⟩
  have empty := Init_valid s.large_entry_points_map
  refine ⟨⟨empty.sane.distinct, empty.sane.linked.congr rfl rfl, ⟨empty.sane.fast.index,
    empty.sane.fast.aligned, empty.sane.fast.entries, empty.sane.fast.differ,
    fun small i id there => ?_, empty.sane.fast.points⟩, empty.sane.separated⟩,
    ⟨empty.ranged.blocks, empty.ranged.keys, empty.ranged.nodup⟩, empty.lines⟩
  have small' : c.large_entry_points_map = false := cleared.large ▸ small
  have := cleared.fallback small' i id there
  simp at this

end JitBaseBlockCache

end Phocoena.JitCommon
