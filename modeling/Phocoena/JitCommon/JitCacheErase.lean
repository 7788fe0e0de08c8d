import Phocoena.JitCommon.JitCacheLinks

/-! # Blocks that are erased

The tables that find blocks have exactly those that are there. Erasing the blocks of a range of
addresses keeps it so, and destroys those blocks and no others.
-/

namespace Phocoena.JitCommon

namespace JitBaseBlockCache

variable {c c' : JitBaseBlockCache} {m : Machine} {b b' x : JitBlock} {id i key : Nat}

/-! ## The map of the macro blocks -/

theorem mem_withKey {keys : List Nat} : i ∈ BlockRangeMap.withKey key keys ↔ i = key ∨ i ∈ keys := by
  unfold BlockRangeMap.withKey
  split
  next here =>
    constructor
    · exact .inr
    · rintro (rfl | there)
      · exact here
      · exact there
  · have parts : i ∈ keys ↔ i ∈ keys.takeWhile (· < key) ∨ i ∈ keys.dropWhile (· < key) := by
      rw [← List.mem_append, List.takeWhile_append_dropWhile]
    rw [List.mem_append, List.mem_cons, parts]
    tauto

section
variable {map : BlockRangeMap} {keys : List Nat} {y : Nat}

theorem mem_insertAll : y ∈ (map.insertAll id keys).blocks i ↔
    y ∈ map.blocks i ∨ y = id ∧ i ∈ keys := by
  induction keys generalizing map with
  | nil => simp [BlockRangeMap.insertAll]
  | cons key keys ih =>
      have step : map.insertAll id (key :: keys) = (map.insert id key).insertAll id keys := rfl
      rw [step, ih, BlockRangeMap.insert]
      by_cases here : i = key
      · subst here
        simp only [Function.update_self, mem_insertBlock, List.mem_cons]
        tauto
      · simp [here]

theorem mem_eraseAll : y ∈ (map.eraseAll id keys).blocks i ↔
    y ∈ map.blocks i ∧ ¬ (y = id ∧ i ∈ keys) := by
  induction keys generalizing map with
  | nil => simp [BlockRangeMap.eraseAll]
  | cons key keys ih =>
      have step : map.eraseAll id (key :: keys) = (map.erase id key).eraseAll id keys := rfl
      rw [step, ih, BlockRangeMap.erase]
      by_cases here : i = key
      · subst here
        simp only [Function.update_self, mem_eraseBlock, List.mem_cons]
        tauto
      · simp [here]

theorem keys_insertAll (listed : i ∈ map.keys ∨ i ∈ keys) : i ∈ (map.insertAll id keys).keys := by
  induction keys generalizing map with
  | nil => simpa [BlockRangeMap.insertAll] using listed
  | cons key keys ih =>
      show i ∈ ((map.insert id key).insertAll id keys).keys
      apply ih
      rw [BlockRangeMap.insert, mem_withKey]
      simp only [List.mem_cons] at listed
      tauto

theorem keys_eraseAll (listed : i ∈ map.keys) : i ∈ (map.eraseAll id keys).keys := by
  induction keys generalizing map with
  | nil => exact listed
  | cons key keys ih =>
      show i ∈ ((map.erase id key).eraseAll id keys).keys
      apply ih
      rw [BlockRangeMap.erase, mem_withKey]
      exact .inr listed

theorem insertBlock_nodup {blocks : List Nat} (nodup : blocks.Nodup) :
    (insertBlock id blocks).Nodup := by
  unfold insertBlock
  split
  · exact nodup
  · exact List.nodup_cons.mpr ⟨by assumption, nodup⟩

theorem nodup_insertAll (nodup : ∀ i, (map.blocks i).Nodup) (i : Nat) :
    ((map.insertAll id keys).blocks i).Nodup := by
  induction keys generalizing map with
  | nil => exact nodup i
  | cons key keys ih =>
      show (((map.insert id key).insertAll id keys).blocks i).Nodup
      apply ih
      intro j
      rw [BlockRangeMap.insert]
      by_cases here : j = key
      · subst here
        simpa using insertBlock_nodup (nodup j)
      · simpa [Function.update_of_ne here] using nodup j

theorem nodup_eraseAll (nodup : ∀ i, (map.blocks i).Nodup) (i : Nat) :
    ((map.eraseAll id keys).blocks i).Nodup := by
  induction keys generalizing map with
  | nil => exact nodup i
  | cons key keys ih =>
      show (((map.erase id key).eraseAll id keys).blocks i).Nodup
      apply ih
      intro j
      rw [BlockRangeMap.erase]
      by_cases here : j = key
      · subst here
        simpa [eraseBlock] using (nodup j).filter _
      · simpa [Function.update_of_ne here] using nodup j

end

theorem macroBlocks_eq (alike : bare b' = bare b) : macroBlocks b' = macroBlocks b := by
  have addresses : b'.physical_addresses = b.physical_addresses :=
    congrArg (·.physical_addresses) alike
  rw [macroBlocks, macroBlocks, addresses]

/-- The macro blocks have exactly the blocks that have instructions in them. -/
structure Ranged (c : JitBaseBlockCache) : Prop where
  blocks : ∀ i id, id ∈ c.block_range_map.blocks i ↔
    ∃ b ∈ c.block_map, b.self = id ∧ i ∈ macroBlocks b
  keys : ∀ i, ∀ id ∈ c.block_range_map.blocks i, i ∈ c.block_range_map.keys
  nodup : ∀ i, (c.block_range_map.blocks i).Nodup

/-! ## The fast block map -/

/-- The fast block map has blocks that are there, each at the index for its address. -/
structure FastMapped (c : JitBaseBlockCache) : Prop where
  index : ∀ b ∈ c.block_map, b.fast_block_map_index =
    c.FastLookupIndexForAddress b.effectiveAddress b.feature_flags
  aligned : ∀ b ∈ c.block_map, b.effectiveAddress % 4 = 0 ∧ b.effectiveAddress < 2 ^ 32
  entries : ∀ b ∈ c.block_map, b.normalEntry ≠ 0
  differ : ∀ b ∈ c.block_map, ∀ b' ∈ c.block_map, b.normalEntry = b'.normalEntry → b = b'
  fallback : c.large_entry_points_map = false → ∀ i id, c.m_fast_block_map_fallback i = some id →
    ∃ b ∈ c.block_map, b.self = id ∧ b.fast_block_map_index = i
  points : c.large_entry_points_map = true → ∀ i, c.m_entry_points_ptr i ≠ 0 →
    ∃ b ∈ c.block_map, b.normalEntry = c.m_entry_points_ptr i ∧ b.fast_block_map_index = i

/-- The fast block map does not have the block. -/
structure FastFree (c : JitBaseBlockCache) (b : JitBlock) : Prop where
  fallback : c.large_entry_points_map = false → ∀ i, c.m_fast_block_map_fallback i ≠ some b.self
  points : c.large_entry_points_map = true → ∀ i, c.m_entry_points_ptr i ≠ b.normalEntry

theorem dropFastEntry_rest (c : JitBaseBlockCache) (b : JitBlock) :
    (c.dropFastEntry b).block_map = c.block_map ∧ (c.dropFastEntry b).links_to = c.links_to ∧
      (c.dropFastEntry b).block_range_map = c.block_range_map ∧
      (c.dropFastEntry b).valid_block = c.valid_block ∧
      (c.dropFastEntry b).large_entry_points_map = c.large_entry_points_map := by
  unfold dropFastEntry
  split <;> split <;> exact ⟨rfl, rfl, rfl, rfl, rfl⟩

theorem dropFastEntry_fallback (c : JitBaseBlockCache) (b : JitBlock) (i : Nat)
    (there : (c.dropFastEntry b).m_fast_block_map_fallback i = some id) :
    c.m_fast_block_map_fallback i = some id ∧ (c.large_entry_points_map = false →
      i = b.fast_block_map_index → id ≠ b.self) := by
  unfold dropFastEntry at there
  split at there
  · split at there <;> exact ⟨there, fun small => by simp_all⟩
  · split at there
    · by_cases here : i = b.fast_block_map_index
      · simp [here] at there
      · exact ⟨by simpa [Function.update_of_ne here] using there, fun _ same => absurd same here⟩
    next other =>
      refine ⟨there, fun _ same own => other ?_⟩
      rw [← same, there, own]

theorem dropFastEntry_points (c : JitBaseBlockCache) (b : JitBlock) (i : Nat)
    (there : (c.dropFastEntry b).m_entry_points_ptr i ≠ 0) :
    (c.dropFastEntry b).m_entry_points_ptr i = c.m_entry_points_ptr i ∧
      (c.large_entry_points_map = true → i = b.fast_block_map_index →
        c.m_entry_points_ptr i ≠ b.normalEntry) := by
  unfold dropFastEntry at there ⊢
  split at there
  next large =>
    simp only [large, if_true]
    split at there
    next own =>
      rw [if_pos own]
      by_cases here : i = b.fast_block_map_index
      · simp [here] at there
      · exact ⟨by simp [Function.update_of_ne here], fun _ same => absurd same here⟩
    next other =>
      rw [if_neg other]
      exact ⟨rfl, fun _ same => same ▸ other⟩
  next small =>
    rw [if_neg small]
    refine ⟨?_, fun large => absurd large small⟩
    split <;> rfl

theorem FastMapped.drop (fast : c.FastMapped) (b : JitBlock) : (c.dropFastEntry b).FastMapped := by
  obtain ⟨blocks, _, _, _, large⟩ := dropFastEntry_rest c b
  refine ⟨?_, by rw [blocks]; exact fast.aligned, by rw [blocks]; exact fast.entries,
    by rw [blocks]; exact fast.differ, ?_, ?_⟩
  · simpa only [blocks, FastLookupIndexForAddress, large] using fast.index
  · intro small i id there
    rw [blocks]
    exact fast.fallback (large ▸ small) i id (dropFastEntry_fallback c b i there).1
  · intro wide i there
    have ⟨same, _⟩ := dropFastEntry_points c b i there
    rw [blocks, same]
    exact fast.points (large ▸ wide) i (same ▸ there)

/-- Without its entry at its index a block is not in the fast block map at all. -/
theorem FastMapped.drop_free (fast : c.FastMapped) (distinct : c.Distinct)
    (member : b ∈ c.block_map) : (c.dropFastEntry b).FastFree b := by
  obtain ⟨_, _, _, _, large⟩ := dropFastEntry_rest c b
  constructor
  · intro small i there
    have ⟨before, other⟩ := dropFastEntry_fallback c b i there
    obtain ⟨b', member', self, index⟩ := fast.fallback (large ▸ small) i b.self before
    obtain rfl := eq_of_self distinct member' member self
    exact other (large ▸ small) index.symm rfl
  · intro wide i there
    have present : (c.dropFastEntry b).m_entry_points_ptr i ≠ 0 := by
      rw [there]
      exact fast.entries b member
    have ⟨same, other⟩ := dropFastEntry_points c b i present
    obtain ⟨b', member', entry, index⟩ := fast.points (large ▸ wide) i (same ▸ present)
    have own : b'.normalEntry = b.normalEntry := by rw [entry, ← same, there]
    obtain rfl := fast.differ b' member' b member own
    exact other (large ▸ wide) index.symm entry.symm

section
variable (same : SameButExits c c')
include same

theorem SameButExits.mem' (member : b' ∈ c'.block_map) : ∃ b ∈ c.block_map, bare b = bare b' :=
  same.symm.mem member

theorem SameButExits.index (address flags : Nat) :
    c'.FastLookupIndexForAddress address flags = c.FastLookupIndexForAddress address flags := by
  rw [FastLookupIndexForAddress, FastLookupIndexForAddress, same.large]

theorem SameButExits.fast (distinct : c.Distinct) (fast : c.FastMapped) : c'.FastMapped := by
  constructor
  · intro b' member'
    obtain ⟨b, member, alike⟩ := same.mem' member'
    rw [same.index]
    have index := fast.index b member
    have := congrArg (fun b => (b.fast_block_map_index, b.effectiveAddress, b.feature_flags)) alike
    simp only [bare, Prod.mk.injEq] at this
    rw [← this.1, ← this.2.1, ← this.2.2, index]
  · intro b' member'
    obtain ⟨b, member, alike⟩ := same.mem' member'
    have address : b.effectiveAddress = b'.effectiveAddress := congrArg (·.effectiveAddress) alike
    exact address ▸ fast.aligned b member
  · intro b' member'
    obtain ⟨b, member, alike⟩ := same.mem' member'
    have entry : b.normalEntry = b'.normalEntry := congrArg (·.normalEntry) alike
    exact entry ▸ fast.entries b member
  · intro b₁' member₁' b₂' member₂' equal
    obtain ⟨b₁, member₁, alike₁⟩ := same.mem' member₁'
    obtain ⟨b₂, member₂, alike₂⟩ := same.mem' member₂'
    have entry₁ : b₁.normalEntry = b₁'.normalEntry := congrArg (·.normalEntry) alike₁
    have entry₂ : b₂.normalEntry = b₂'.normalEntry := congrArg (·.normalEntry) alike₂
    have one := fast.differ b₁ member₁ b₂ member₂ (entry₁.trans (equal.trans entry₂.symm))
    have self₁ : b₁.self = b₁'.self := congrArg (·.self) alike₁
    have self₂ : b₂.self = b₂'.self := congrArg (·.self) alike₂
    exact eq_of_self (same.distinct distinct) member₁' member₂' (by rw [← self₁, ← self₂, one])
  · intro small i id there
    rw [same.fallback] at there
    obtain ⟨b, member, self, index⟩ := fast.fallback (same.large ▸ small) i id there
    obtain ⟨b', member', alike⟩ := same.mem member
    have self' : b'.self = b.self := congrArg (·.self) alike
    have index' : b'.fast_block_map_index = b.fast_block_map_index :=
      congrArg (·.fast_block_map_index) alike
    exact ⟨b', member', self'.trans self, index'.trans index⟩
  · intro wide i there
    rw [same.m_entry_points_ptr] at there ⊢
    obtain ⟨b, member, entry, index⟩ := fast.points (same.large ▸ wide) i there
    obtain ⟨b', member', alike⟩ := same.mem member
    have entry' : b'.normalEntry = b.normalEntry := congrArg (·.normalEntry) alike
    have index' : b'.fast_block_map_index = b.fast_block_map_index :=
      congrArg (·.fast_block_map_index) alike
    exact ⟨b', member', entry'.trans entry, index'.trans index⟩

theorem SameButExits.fastFree (free : c.FastFree b) : c'.FastFree b := by
  constructor
  · rw [same.large, same.fallback]
    exact free.fallback
  · rw [same.large, same.m_entry_points_ptr]
    exact free.points

theorem SameButExits.ranged (ranged : c.Ranged) : c'.Ranged := by
  constructor
  · intro i id
    rw [same.block_range_map, ranged.blocks]
    constructor
    · rintro ⟨b, member, rfl, inside⟩
      obtain ⟨b', member', alike⟩ := same.mem member
      have inside' := macroBlocks_eq alike
      have self' : b'.self = b.self := congrArg (·.self) alike
      exact ⟨b', member', self', inside' ▸ inside⟩
    · rintro ⟨b', member', rfl, inside⟩
      obtain ⟨b, member, alike⟩ := same.mem' member'
      have inside' := macroBlocks_eq alike
      have self' : b.self = b'.self := congrArg (·.self) alike
      exact ⟨b, member, self', inside' ▸ inside⟩
  · rw [same.block_range_map]
    exact ranged.keys
  · rw [same.block_range_map]
    exact ranged.nodup

end

/-! ## Freeing blocks -/

theorem FastMapped.free (fast : c.FastMapped) (distinct : c.Distinct) (free : c.FastFree b)
    (member : b ∈ c.block_map) : (c.free b.self).FastMapped := by
  have still : ∀ x ∈ (c.free b.self).block_map, x ∈ c.block_map := fun x there =>
    ((mem_free distinct).mp there).1
  refine ⟨fun x there => fast.index x (still x there), fun x there => fast.aligned x (still x there),
    fun x there => fast.entries x (still x there), fun x there y there' =>
    fast.differ x (still x there) y (still y there'), fun small i id there => ?_,
    fun wide i there => ?_⟩
  · obtain ⟨x, here, rfl, index⟩ := fast.fallback small i id there
    refine ⟨x, (mem_free distinct).mpr ⟨here, fun own => ?_⟩, rfl, index⟩
    exact free.fallback small i (own ▸ there)
  · obtain ⟨x, here, entry, index⟩ := fast.points wide i there
    refine ⟨x, (mem_free distinct).mpr ⟨here, fun own => ?_⟩, entry, index⟩
    obtain rfl := eq_of_self distinct here member own
    exact free.points wide i entry.symm

/-- What does not need the macro blocks and the lines. -/
structure Sane (c : JitBaseBlockCache) : Prop where
  distinct : c.Distinct
  linked : c.Linked
  fast : c.FastMapped
  separated : ∀ b ∈ c.block_map, Separated b.physical_addresses

/-- Of the blocks of the first cache the second one may only lack some, and has the same lines. -/
structure Erased (c c' : JitBaseBlockCache) (gone : JitBlock → Prop) : Prop where
  old : ∀ x' ∈ c'.block_map, ∃ x ∈ c.block_map, bare x' = bare x
  kept : ∀ x ∈ c.block_map, ¬ gone x → ∃ x' ∈ c'.block_map, bare x' = bare x
  valid_block : c'.valid_block = c.valid_block
  large : c'.large_entry_points_map = c.large_entry_points_map

theorem Sane.withRanges (sane : c.Sane) (map : BlockRangeMap) : (c.withRanges map).Sane :=
  ⟨sane.distinct, sane.linked.congr rfl rfl, ⟨sane.fast.index, sane.fast.aligned, sane.fast.entries,
    sane.fast.differ, sane.fast.fallback, sane.fast.points⟩, sane.separated⟩

/-- Destroying a block and freeing it. -/
theorem Sane.destroy (sane : c.Sane) (member : b ∈ c.block_map) :
    ∃ c₁, c.DestroyBlock b.self = some c₁ ∧ (c₁.free b.self).Sane ∧
      Erased c (c₁.free b.self) (fun x => x.self = b.self) ∧
      (∀ x ∈ (c₁.free b.self).block_map, x.self ≠ b.self) ∧
      (c₁.free b.self).block_range_map = c.block_range_map := by
  obtain ⟨c₁, ran, linked, detached, _, same⟩ := DestroyBlock_spec sane.distinct sane.linked member
  obtain ⟨blocks, _, ranges, lines, large⟩ := dropFastEntry_rest c b
  have before : Distinct { c.dropFastEntry b with links_to := c₁.links_to } := by
    show ((c.dropFastEntry b).block_map.map (·.self)).Nodup
    rw [blocks]
    exact sane.distinct
  have distinct := same.distinct before
  have fast₀ := sane.fast.drop b
  have fast₁ : FastMapped { c.dropFastEntry b with links_to := c₁.links_to } :=
    ⟨fast₀.index, fast₀.aligned, fast₀.entries, fast₀.differ, fast₀.fallback, fast₀.points⟩
  have free₀ := sane.fast.drop_free sane.distinct member
  have free₁ : FastFree { c.dropFastEntry b with links_to := c₁.links_to } b :=
    ⟨free₀.fallback, free₀.points⟩
  obtain ⟨b₁, member₁, alike⟩ := same.mem (b := b) (by simpa only [blocks] using member)
  have self : b₁.self = b.self := congrArg (·.self) alike
  have entry : b₁.normalEntry = b.normalEntry := congrArg (·.normalEntry) alike
  have free₂ : c₁.FastFree b₁ := by
    have := same.fastFree free₁
    exact ⟨self ▸ this.fallback, entry ▸ this.points⟩
  have erased : Erased c (c₁.free b.self) (fun x => x.self = b.self) := by
    refine ⟨fun x' there => ?_, fun x there other => ?_, same.valid_block.trans lines,
      same.large.trans large⟩
    · obtain ⟨x, here, alike'⟩ := same.mem' ((mem_free distinct).mp there).1
      exact ⟨x, by simpa only [blocks] using here, alike'.symm⟩
    · obtain ⟨x', here, alike'⟩ := same.mem (b := x) (by simpa only [blocks] using there)
      have self' : x'.self = x.self := congrArg (·.self) alike'
      exact ⟨x', (mem_free distinct).mpr ⟨here, self' ▸ other⟩, alike'⟩
  refine ⟨c₁, ran, ⟨free_distinct distinct, linked.free distinct detached,
    self ▸ (same.fast before fast₁).free distinct free₂ member₁, fun x' there => ?_⟩, erased,
    fun x there => ((mem_free distinct).mp there).2, same.block_range_map.trans ranges⟩
  obtain ⟨x, here, alike'⟩ := erased.old x' there
  have addresses : x'.physical_addresses = x.physical_addresses :=
    congrArg (·.physical_addresses) alike'
  exact addresses ▸ sane.separated x here

theorem Erased.refl (c : JitBaseBlockCache) (gone : JitBlock → Prop) : Erased c c gone :=
  ⟨fun x there => ⟨x, there, rfl⟩, fun x there _ => ⟨x, there, rfl⟩, rfl, rfl⟩

theorem Erased.trans {c'' : JitBaseBlockCache} {gone : JitBlock → Prop} (first : Erased c c' gone)
    (second : Erased c' c'' gone) (respects : ∀ x y, bare x = bare y → gone x → gone y) :
    Erased c c'' gone := by
  refine ⟨fun x'' there => ?_, fun x there stays => ?_, second.valid_block.trans first.valid_block,
    second.large.trans first.large⟩
  · obtain ⟨x', here', alike'⟩ := second.old x'' there
    obtain ⟨x, here, alike⟩ := first.old x' here'
    exact ⟨x, here, alike'.trans alike⟩
  · obtain ⟨x', here', alike⟩ := first.kept x there stays
    obtain ⟨x'', here'', alike'⟩ := second.kept x' here' fun gone' =>
      stays (respects x' x alike gone')
    exact ⟨x'', here'', alike'.trans alike⟩

theorem Erased.weaken {gone gone' : JitBlock → Prop} (erased : Erased c c' gone)
    (more : ∀ x ∈ c.block_map, gone x → gone' x) : Erased c c' gone' :=
  ⟨erased.old, fun x there stays => erased.kept x there fun lost => stays (more x there lost),
    erased.valid_block, erased.large⟩

/-- The macro blocks without a block, when that is freed. -/
theorem Ranged.without (ranged : c.Ranged) (erased : Erased c c' fun x => x.self = b.self)
    (others : ∀ x ∈ c'.block_map, x.self ≠ b.self) {keys : List Nat}
    (all : ∀ i, i ∈ macroBlocks b → i ∈ keys) (distinct : c.Distinct) (member : b ∈ c.block_map)
    (ranges : c'.block_range_map = c.block_range_map.eraseAll b.self keys) : c'.Ranged := by
  constructor
  · intro i id
    rw [ranges, mem_eraseAll, ranged.blocks]
    constructor
    · rintro ⟨⟨x, here, rfl, inside⟩, other⟩
      have different : x.self ≠ b.self := fun own => by
        obtain rfl := eq_of_self distinct here member own
        exact other ⟨rfl, all i inside⟩
      obtain ⟨x', here', alike⟩ := erased.kept x here different
      have self' : x'.self = x.self := congrArg (·.self) alike
      exact ⟨x', here', self', macroBlocks_eq alike ▸ inside⟩
    · rintro ⟨x', here', rfl, inside⟩
      obtain ⟨x, here, alike⟩ := erased.old x' here'
      have self' : x'.self = x.self := congrArg (·.self) alike
      exact ⟨⟨x, here, self'.symm, macroBlocks_eq alike ▸ inside⟩,
        fun ⟨own, _⟩ => others x' here' own⟩
  · intro i id there
    rw [ranges] at there ⊢
    exact keys_eraseAll (ranged.keys i id (mem_eraseAll.mp there).1)
  · intro i
    rw [ranges]
    exact nodup_eraseAll ranged.nodup i

/-! ## Erasing a range of addresses -/

theorem mem_pieces {size y : Nat} {r : Range} (positive : 0 < size) (inside : y ∈ r) :
    y / size * size ∈ pieces size r := by
  have ⟨after, before⟩ := Range.mem_def.mp inside
  have ordered : r.From / size ≤ y / size := Nat.div_le_div_right after
  have first := Nat.div_mul_le_self r.From size
  have last := Nat.div_mul_le_self y size
  have split : y / size * size = r.From / size * size + size * (y / size - r.From / size) := by
    rw [Nat.mul_comm size, ← Nat.add_mul]
    congr 1
    omega
  refine List.mem_range'.mpr ⟨y / size - r.From / size, ?_, split⟩
  rw [← Nat.succ_le_iff, Nat.le_div_iff_mul_le positive, Nat.succ_mul]
  rw [Nat.mul_comm] at split
  have := Nat.mul_comm size (y / size - r.From / size)
  have := Nat.mul_comm size (y / size)
  omega

theorem mem_macroBlocks {y : Nat} (inside : Within y b.physical_addresses) :
    y / BLOCK_RANGE_SIZE * BLOCK_RANGE_SIZE ∈ macroBlocks b := by
  obtain ⟨r, listed, inside⟩ := inside
  exact List.mem_flatMap.mpr ⟨r, listed, mem_pieces (by decide) inside⟩

/-- Some instruction of the block is in the range. -/
def Overlaps (address length : Nat) (b : JitBlock) : Prop :=
  ∃ y, (address ≤ y ∧ y < address + length) ∧ Within y b.physical_addresses

theorem Overlaps.respects {address length : Nat} (x y : JitBlock) (alike : bare x = bare y)
    (overlaps : Overlaps address length x) : Overlaps address length y := by
  have addresses : x.physical_addresses = y.physical_addresses :=
    congrArg (·.physical_addresses) alike
  rw [Overlaps, ← addresses]
  exact overlaps

theorem OverlapsPhysicalRange_iff {address length : Nat} (separated : Separated b.physical_addresses)
    (fits : address + length < 2 ^ 32) :
    OverlapsPhysicalRange b address length = true ↔ Overlaps address length b := by
  rw [OverlapsPhysicalRange, Nat.mod_eq_of_lt fits,
    RangeSizeSet.overlaps_iff ⟨separated, List.Perm.refl _⟩]
  rfl

/-- While the blocks of a macro block are visited: those that are left are still in it, and of those
in it only they may overlap the range. -/
structure Visiting (address length start : Nat) (c : JitBaseBlockCache) (l : List Nat)
    (s : JitBaseBlockCache) : Prop where
  sane : s.Sane
  ranged : s.Ranged
  erased : Erased c s (Overlaps address length)
  nodup : l.Nodup
  listed : ∀ id ∈ l, id ∈ s.block_range_map.blocks start
  remaining : ∀ b ∈ s.block_map, start ∈ macroBlocks b → Overlaps address length b → b.self ∈ l

theorem Visiting.step {address length start : Nat} (fits : address + length < 2 ^ 32) {id : Nat}
    {l : List Nat} {s : JitBaseBlockCache} (visiting : Visiting address length start c (id :: l) s) :
    ∃ s', eraseIfOverlapping address length start s id = some s' ∧
      Visiting address length start c l s' := by
  obtain ⟨sane, ranged, erased, nodup, listed, remaining⟩ := visiting
  obtain ⟨b, member, rfl, inside⟩ := (ranged.blocks start id).mp (listed id (by simp))
  have ⟨first, nodup'⟩ := List.nodup_cons.mp nodup
  rw [eraseIfOverlapping, deref_of_mem sane.distinct member, Option.bind_some]
  by_cases overlaps : Overlaps address length b
  · rw [if_pos ((OverlapsPhysicalRange_iff (sane.separated b member) fits).mpr overlaps)]
    obtain ⟨c₁, ran, sane₁, erased₁, others, ranges⟩ :=
      (sane.withRanges (s.block_range_map.eraseAll b.self
        ((macroBlocks b).filter (· ≠ start)))).destroy member
    simp only [ran, Option.map_some]
    have erased₂ : Erased s ((c₁.free b.self).withRanges (c₁.block_range_map.erase b.self start))
        (fun x => x.self = b.self) :=
      ⟨erased₁.old, erased₁.kept, erased₁.valid_block, erased₁.large⟩
    have keys : c₁.block_range_map.erase b.self start = s.block_range_map.eraseAll b.self
        ((macroBlocks b).filter (· ≠ start) ++ [start]) := by
      have before : c₁.block_range_map = s.block_range_map.eraseAll b.self
        ((macroBlocks b).filter (· ≠ start)) := ranges
      rw [before]
      simp [BlockRangeMap.eraseAll]
    have all : ∀ i, i ∈ macroBlocks b → i ∈ (macroBlocks b).filter (· ≠ start) ++ [start] := by
      intro i inside
      by_cases here : i = start <;> simp [here, inside]
    refine ⟨_, rfl, sane₁.withRanges _, ranged.without erased₂ others all sane.distinct member keys,
      erased.trans (erased₂.weaken fun x there own => ?_) Overlaps.respects, nodup',
      fun id later => ?_, fun x' here inside' overlaps' => ?_⟩
    · exact eq_of_self sane.distinct there member own ▸ overlaps
    · show id ∈ (c₁.block_range_map.erase b.self start).blocks start
      rw [keys, mem_eraseAll]
      exact ⟨listed id (by simp [later]), fun ⟨own, _⟩ => first (own ▸ later)⟩
    · obtain ⟨x, there, alike⟩ := erased₂.old x' here
      have self' : x'.self = x.self := congrArg (·.self) alike
      have := remaining x there (macroBlocks_eq alike ▸ inside') (overlaps'.respects _ _ alike)
      rw [self']
      exact (List.mem_cons.mp this).resolve_left (self' ▸ others x' here)
  · rw [if_neg (mt (OverlapsPhysicalRange_iff (sane.separated b member) fits).mp overlaps)]
    refine ⟨s, rfl, sane, ranged, erased, nodup', fun id later => listed id (by simp [later]), ?_⟩
    intro x here inside' overlaps'
    obtain own | later := List.mem_cons.mp (remaining x here inside' overlaps')
    · obtain rfl := eq_of_self sane.distinct here member own
      exact absurd overlaps' overlaps
    · exact later

theorem Ranged.dropEmpty (ranged : c.Ranged) (key : Nat) :
    (c.withRanges (c.block_range_map.dropEmpty key)).Ranged := by
  have blocks : (c.block_range_map.dropEmpty key).blocks = c.block_range_map.blocks := by
    unfold BlockRangeMap.dropEmpty
    split <;> rfl
  constructor
  · intro i id
    show id ∈ (c.block_range_map.dropEmpty key).blocks i ↔ _
    rw [blocks]
    exact ranged.blocks i id
  · intro i id there
    change id ∈ (c.block_range_map.dropEmpty key).blocks i at there
    rw [blocks] at there
    have listed := ranged.keys i id there
    show i ∈ (c.block_range_map.dropEmpty key).keys
    unfold BlockRangeMap.dropEmpty
    split
    next empty =>
      refine List.mem_filter.mpr ⟨listed, ?_⟩
      have : i ≠ key := fun same => by simp [same, empty] at there
      simpa using this
    · exact listed
  · intro i
    show ((c.block_range_map.dropEmpty key).blocks i).Nodup
    rw [blocks]
    exact ranged.nodup i

/-- The blocks of one macro block that overlap the range are destroyed. -/
theorem eraseInMacroBlock_spec {address length : Nat} (fits : address + length < 2 ^ 32)
    (sane : c.Sane) (ranged : c.Ranged) (start : Nat) :
    ∃ c', eraseInMacroBlock address length c start = some c' ∧ c'.Sane ∧ c'.Ranged ∧
      Erased c c' (Overlaps address length) ∧
      ∀ b ∈ c'.block_map, start ∈ macroBlocks b → ¬ Overlaps address length b := by
  obtain ⟨s, ran, visited⟩ := foldlM_succeeds (f := eraseIfOverlapping address length start)
    (I := Visiting address length start c) (fun id l s visiting => visiting.step fits)
    (l := c.block_range_map.blocks start) (s := c)
    ⟨sane, ranged, .refl c _, ranged.nodup start, fun _ => id, fun b member inside _ =>
      (ranged.blocks start b.self).mpr ⟨b, member, rfl, inside⟩⟩
  refine ⟨_, by rw [eraseInMacroBlock, ran]; rfl, visited.sane.withRanges _,
    visited.ranged.dropEmpty start, ⟨visited.erased.old, visited.erased.kept,
      visited.erased.valid_block, visited.erased.large⟩, fun b member inside overlaps => ?_⟩
  have := visited.remaining b member inside overlaps
  simp at this

/-- While the macro blocks are visited, the blocks that overlap are in those that are left. -/
structure Erasing (address length : Nat) (c : JitBaseBlockCache) (l : List Nat)
    (s : JitBaseBlockCache) : Prop where
  sane : s.Sane
  ranged : s.Ranged
  erased : Erased c s (Overlaps address length)
  remaining : ∀ b ∈ s.block_map, Overlaps address length b → ∃ i ∈ l, i ∈ macroBlocks b

theorem ErasePhysicalRange_spec {address length : Nat} (fits : address + length < 2 ^ 32)
    (sane : c.Sane) (ranged : c.Ranged) :
    ∃ c', c.ErasePhysicalRange address length = some c' ∧ c'.Sane ∧ c'.Ranged ∧
      Erased c c' (Overlaps address length) ∧ ∀ b ∈ c'.block_map, ¬ Overlaps address length b := by
  have base : address / BLOCK_RANGE_SIZE * BLOCK_RANGE_SIZE ≤ address := Nat.div_mul_le_self _ _
  have ahead : (c.block_range_map.keys.any fun key => decide (address + length ≤ key ∧
      key < address / BLOCK_RANGE_SIZE * BLOCK_RANGE_SIZE)) = false := by
    simp only [List.any_eq_false, decide_eq_true_eq]
    intro key _
    omega
  obtain ⟨s, ran, done⟩ := foldlM_succeeds (f := eraseInMacroBlock address length)
    (I := Erasing address length c)
    (by
      rintro start l s ⟨sane, ranged, erased, remaining⟩
      obtain ⟨s', stepped, sane', ranged', erased', none⟩ :=
        eraseInMacroBlock_spec fits sane ranged start
      refine ⟨s', stepped, sane', ranged', erased.trans erased' Overlaps.respects, ?_⟩
      intro b' here overlaps
      obtain ⟨b, there, alike⟩ := erased'.old b' here
      obtain ⟨i, listed, inside⟩ := remaining b there (overlaps.respects _ _ alike)
      obtain rfl | later := List.mem_cons.mp listed
      · exact absurd overlaps (none b' here (macroBlocks_eq alike ▸ inside))
      · exact ⟨i, later, macroBlocks_eq alike ▸ inside⟩)
    (l := c.block_range_map.keys.filter fun key =>
      address / BLOCK_RANGE_SIZE * BLOCK_RANGE_SIZE ≤ key ∧ key < address + length) (s := c)
    ⟨sane, ranged, .refl c _, by
      rintro b member ⟨y, ⟨after, before⟩, inside⟩
      have macroBlock := mem_macroBlocks inside
      have listed := ranged.keys _ b.self ((ranged.blocks _ b.self).mpr ⟨b, member, rfl, macroBlock⟩)
      have ordered : address / BLOCK_RANGE_SIZE ≤ y / BLOCK_RANGE_SIZE := Nat.div_le_div_right after
      have := Nat.mul_le_mul_right BLOCK_RANGE_SIZE ordered
      have := Nat.div_mul_le_self y BLOCK_RANGE_SIZE
      exact ⟨_, List.mem_filter.mpr ⟨listed, by simp only [decide_eq_true_eq]; omega⟩, macroBlock⟩⟩
  refine ⟨s, ?_, done.sane, done.ranged, done.erased, fun b member overlaps => ?_⟩
  · rw [ErasePhysicalRange]
    simp only [Nat.mod_eq_of_lt fits, ahead, Bool.false_eq_true, if_false]
    exact ran
  · obtain ⟨i, listed, _⟩ := done.remaining b member overlaps
    simp at listed

end JitBaseBlockCache

end Phocoena.JitCommon
