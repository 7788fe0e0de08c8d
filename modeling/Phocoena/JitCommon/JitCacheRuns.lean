import Phocoena.JitCommon.JitCacheInvalidate
import Phocoena.Lib.Runs

/-! # Runs of the block cache

Blocks are made, found and destroyed in any order. The tables agree at every point of a run, a
block that was freed is never touched, what is dispatched is a block for the current address, and
instructions that were invalidated are not run again.
-/

namespace Phocoena.JitCommon

namespace JitBaseBlockCache

variable {c c' : JitBaseBlockCache} {m : Machine} {b b' x : JitBlock} {id i key : Nat}
  {address length : Nat}

/-! ## Dispatching -/

theorem modify_self {f : JitBlock → JitBlock} (distinct : c.Distinct) (member : b ∈ c.block_map)
    (same : f b = b) : c.modify b.self f = c := by
  have blocks : (c.block_map.map fun x => if x.self = b.self then f x else x) =
      c.block_map.map id := by
    refine List.map_congr_left fun x there => ?_
    by_cases own : x.self = b.self
    · obtain rfl := eq_of_self distinct there member own
      simp [same]
    · simp [own]
  rw [modify, blocks, List.map_id]

theorem putFastEntry_rest (c : JitBaseBlockCache) (b : JitBlock) (index : Nat) :
    { c.putFastEntry b index with
      m_entry_points_ptr := c.m_entry_points_ptr
      m_fast_block_map_fallback := c.m_fast_block_map_fallback } = c := by
  unfold putFastEntry
  split <;> rfl

/-- A block that is there gets an entry at its own index. -/
theorem putFastEntry_entries (fallback : c.large_entry_points_map = false → ∀ i id,
      c.m_fast_block_map_fallback i = some id →
        ∃ b ∈ c.block_map, b.self = id ∧ b.fast_block_map_index = i)
    (points : c.large_entry_points_map = true → ∀ i, c.m_entry_points_ptr i ≠ 0 →
      ∃ b ∈ c.block_map, b.normalEntry = c.m_entry_points_ptr i ∧ b.fast_block_map_index = i)
    (member : b ∈ c.block_map) {s : JitBaseBlockCache}
    (put : s = c.putFastEntry b b.fast_block_map_index) :
    (s.large_entry_points_map = false → ∀ i id, s.m_fast_block_map_fallback i = some id →
      ∃ b ∈ s.block_map, b.self = id ∧ b.fast_block_map_index = i) ∧
    (s.large_entry_points_map = true → ∀ i, s.m_entry_points_ptr i ≠ 0 →
      ∃ b ∈ s.block_map, b.normalEntry = s.m_entry_points_ptr i ∧ b.fast_block_map_index = i) := by
  by_cases large : c.large_entry_points_map = true
  · rw [putFastEntry, if_pos large] at put
    subst put
    refine ⟨fun small => by simp [large] at small, fun wide i there => ?_⟩
    by_cases here : i = b.fast_block_map_index
    · exact ⟨b, member, by simp [here], here.symm⟩
    · simp only [Function.update_of_ne here] at there ⊢
      exact points wide i there
  · rw [putFastEntry, if_neg large] at put
    subst put
    refine ⟨fun small i id there => ?_, fun wide => absurd wide large⟩
    by_cases here : i = b.fast_block_map_index
    · simp only [here, Function.update_self, Option.some.injEq] at there
      exact ⟨b, member, there, here.symm⟩
    · simp only [Function.update_of_ne here] at there
      exact fallback small i id there

/-- A change of the fast block map only. -/
theorem Valid.withFast (valid : c.Valid) (fast : c'.FastMapped)
    (rest : { c' with
      m_entry_points_ptr := c.m_entry_points_ptr
      m_fast_block_map_fallback := c.m_fast_block_map_fallback } = c) :
    c'.Valid ∧ c'.block_map = c.block_map := by
  have blocks : c'.block_map = c.block_map := congrArg (·.block_map) rest
  have links : c'.links_to = c.links_to := congrArg (·.links_to) rest
  have ranges : c'.block_range_map = c.block_range_map := congrArg (·.block_range_map) rest
  have lines : c'.valid_block = c.valid_block := congrArg (·.valid_block) rest
  refine ⟨⟨⟨?_, valid.sane.linked.congr blocks links, fast, ?_⟩, ⟨?_, ?_, ?_⟩, ?_⟩, blocks⟩
  · rw [Distinct, blocks]
    exact valid.sane.distinct
  · rw [blocks]
    exact valid.sane.separated
  · rw [ranges, blocks]
    exact valid.ranged.blocks
  · rw [ranges]
    exact valid.ranged.keys
  · rw [ranges]
    exact valid.ranged.nodup
  · rw [blocks, lines]
    exact valid.lines

theorem Valid.put (valid : c.Valid) (member : b ∈ c.block_map) :
    (c.putFastEntry b b.fast_block_map_index).Valid ∧
      (c.putFastEntry b b.fast_block_map_index).block_map = c.block_map := by
  have rest := putFastEntry_rest c b b.fast_block_map_index
  have fast := valid.sane.fast
  have blocks : (c.putFastEntry b b.fast_block_map_index).block_map = c.block_map :=
    congrArg (·.block_map) rest
  have large : (c.putFastEntry b b.fast_block_map_index).large_entry_points_map =
      c.large_entry_points_map := congrArg (·.large_entry_points_map) rest
  have ⟨fallback, points⟩ := putFastEntry_entries fast.fallback fast.points member rfl
  refine valid.withFast ⟨?_, ?_, ?_, ?_, fallback, points⟩ rest
  · simpa only [blocks, FastLookupIndexForAddress, large] using fast.index
  · rw [blocks]
    exact fast.aligned
  · rw [blocks]
    exact fast.entries
  · rw [blocks]
    exact fast.differ

theorem MoveBlockIntoFastCache_spec (valid : c.Valid) (addr flags : Nat) :
    (c.MoveBlockIntoFastCache m addr flags).1.Valid ∧
      (c.MoveBlockIntoFastCache m addr flags).1.block_map = c.block_map ∧
      (c.MoveBlockIntoFastCache m addr flags).2 = c.GetBlockFromStartAddress m addr flags := by
  unfold MoveBlockIntoFastCache
  cases found : c.GetBlockFromStartAddress m addr flags with
  | none => exact ⟨valid, rfl, rfl⟩
  | some b =>
      obtain ⟨member, rfl, rfl⟩ := GetBlockFromStartAddress_spec found
      have index := valid.sane.fast.index b member
      have dropped : { c.dropFastEntry b with
          m_entry_points_ptr := c.m_entry_points_ptr
          m_fast_block_map_fallback := c.m_fast_block_map_fallback } = c := by
        unfold dropFastEntry
        split <;> split <;> rfl
      obtain ⟨valid₁, blocks⟩ := valid.withFast (valid.sane.fast.drop b) dropped
      have ⟨valid₂, blocks'⟩ := valid₁.put (blocks ▸ member)
      have kept := modify_self (f := fun x => { x with fast_block_map_index :=
        b.fast_block_map_index }) valid₂.sane.distinct (blocks' ▸ blocks ▸ member) rfl
      simp only [← index, setFastEntry, kept]
      exact ⟨valid₂, blocks'.trans blocks, trivial⟩

/-- Two addresses with the same index in the large map are the same, with the same features. -/
theorem index_inj (large : c.large_entry_points_map = true) {a a' flags flags' : Nat}
    (same : c.FastLookupIndexForAddress a flags = c.FastLookupIndexForAddress a' flags')
    (aligned : a % 4 = 0 ∧ a < 2 ^ 32) (aligned' : a' % 4 = 0 ∧ a' < 2 ^ 32) :
    a = a' ∧ flags = flags' := by
  simp only [FastLookupIndexForAddress, large, if_true] at same
  omega

/-- What is dispatched is the entry of a block for the current address and features, and nothing is
dispatched only if there is none. -/
theorem Dispatch_spec (valid : c.Valid) (aligned : m.pc % 4 = 0 ∧ m.pc < 2 ^ 32) :
    ∃ c' entry, c.Dispatch m = some (c', entry) ∧ c'.Valid ∧ c'.block_map = c.block_map ∧
      (entry ≠ 0 → ∃ b ∈ c.block_map, b.normalEntry = entry ∧ b.effectiveAddress = m.pc ∧
        b.feature_flags = m.feature_flags) ∧
      (entry = 0 → c.GetBlockFromStartAddress m m.pc m.feature_flags = none) := by
  obtain ⟨valid', blocks, found⟩ := MoveBlockIntoFastCache_spec (m := m) valid m.pc m.feature_flags
  have slow : ∀ entry, entry = ((c.MoveBlockIntoFastCache m m.pc m.feature_flags).2.map
      (·.normalEntry)).getD 0 → (entry ≠ 0 → ∃ b ∈ c.block_map, b.normalEntry = entry ∧
        b.effectiveAddress = m.pc ∧ b.feature_flags = m.feature_flags) ∧
      (entry = 0 → c.GetBlockFromStartAddress m m.pc m.feature_flags = none) := by
    rintro entry rfl
    rw [found]
    cases here : c.GetBlockFromStartAddress m m.pc m.feature_flags with
    | none => simp
    | some b =>
        have ⟨member, spec⟩ := GetBlockFromStartAddress_spec here
        exact ⟨fun _ => ⟨b, member, rfl, spec⟩, fun zero =>
          absurd zero (valid.sane.fast.entries b member)⟩
  rw [Dispatch]
  by_cases large : c.large_entry_points_map = true
  · simp only [large, if_true]
    by_cases present : c.m_entry_points_ptr (c.FastLookupIndexForAddress m.pc m.feature_flags) = 0
    · rw [if_neg (not_not_intro present)]
      exact ⟨_, _, rfl, valid', blocks, slow _ rfl⟩
    · rw [if_pos present]
      obtain ⟨b, member, entry, index⟩ := valid.sane.fast.points large _ present
      rw [valid.sane.fast.index b member] at index
      have ⟨address, flags⟩ := index_inj large index (valid.sane.fast.aligned b member) aligned
      exact ⟨_, _, rfl, valid, rfl, fun _ => ⟨b, member, entry, address, flags⟩,
        fun zero => absurd zero present⟩
  · rw [if_neg large]
    cases entry : c.m_fast_block_map_fallback
        (c.FastLookupIndexForAddress m.pc m.feature_flags) with
    | none => exact ⟨_, _, rfl, valid', blocks, slow _ rfl⟩
    | some id =>
        obtain ⟨b, member, rfl, _⟩ := valid.sane.fast.fallback (by simpa using large) _ id entry
        simp only [deref_of_mem valid.sane.distinct member, Option.map_some]
        by_cases other : b.effectiveAddress ≠ m.pc ∨ b.feature_flags ≠ m.feature_flags
        · rw [if_pos other]
          exact ⟨_, _, rfl, valid', blocks, slow _ rfl⟩
        · rw [if_neg other]
          push Not at other
          exact ⟨_, _, rfl, valid, rfl, fun _ => ⟨b, member, rfl, other⟩,
            fun zero => absurd zero (valid.sane.fast.entries b member)⟩

/-! ## Making blocks -/

theorem emplace_perm (b : JitBlock) (l : List JitBlock) : (emplace b l).Perm (b :: l) := by
  have split := List.takeWhile_append_dropWhile (p := fun x : JitBlock =>
    decide (x.physicalAddress ≤ b.physicalAddress)) (l := l)
  exact List.perm_middle.trans (by rw [split])

theorem mem_emplace {l : List JitBlock} : x ∈ emplace b l ↔ x = b ∨ x ∈ l := by
  rw [(emplace_perm b l).mem_iff, List.mem_cons]

theorem modify_emplace {l : List JitBlock} {f : JitBlock → JitBlock}
    (blocks : c.block_map = emplace b l) (fresh : ∀ x ∈ l, x.self ≠ b.self)
    (key : (f b).physicalAddress = b.physicalAddress) :
    c.modify b.self f = c.withBlocks (emplace (f b) l) := by
  have others : ∀ l' : List JitBlock, (∀ x ∈ l', x ∈ l) →
      (l'.map fun x => if x.self = b.self then f x else x) = l' := by
    intro l' sub
    rw [List.map_congr_left (g := id) fun x there => by simp [fresh x (sub x there)], List.map_id]
  rw [modify, blocks, emplace, List.map_append, List.map_cons, if_pos rfl,
    others _ fun x there => List.takeWhile_subset _ there,
    others _ fun x there => List.dropWhile_subset _ there, withBlocks, emplace, key]

/-- Allocating a block, generating its code and finalizing it. -/
def Compile (c : JitBaseBlockCache) (m : Machine) (em_address self normalEntry : Nat)
    (linkData : List LinkData) (block_link : Bool) (m_physical_addresses : List Range) :
    Option JitBaseBlockCache :=
  ((c.AllocateBlock m em_address self).fillBlock self normalEntry linkData).FinalizeBlock m self
    block_link m_physical_addresses

/-- The new block stands where no other one does and so does its code; its exits jump to the
dispatcher; its instructions are in separate ranges, before the end of the addresses. -/
structure Compilable (c : JitBaseBlockCache) (em_address place normalEntry : Nat)
    (linkData : List LinkData) (m_physical_addresses : List Range) : Prop where
  fresh : ∀ b ∈ c.block_map, b.self ≠ place
  entry : normalEntry ≠ 0
  differs : ∀ b ∈ c.block_map, b.normalEntry ≠ normalEntry
  exits : ∀ e ∈ linkData, e.linkStatus = false ∧ e.target = none
  separated : Separated m_physical_addresses
  bounded : ∀ r ∈ m_physical_addresses, r.To + BLOCK_RANGE_SIZE ≤ 2 ^ 32
  aligned : em_address % 4 = 0 ∧ em_address < 2 ^ 32

def newBlock (c : JitBaseBlockCache) (m : Machine) (em_address self normalEntry : Nat)
    (linkData : List LinkData) (m_physical_addresses : List Range) : JitBlock where
  self := self
  normalEntry := normalEntry
  feature_flags := m.feature_flags
  effectiveAddress := em_address
  physicalAddress := (m.JitCache_TranslateAddress em_address).address
  fast_block_map_index := c.FastLookupIndexForAddress em_address m.feature_flags
  linkData := linkData
  physical_addresses := m_physical_addresses

/-- The cache with a new block in all tables, before its exits are linked. -/
def withBlock (c : JitBaseBlockCache) (b : JitBlock) : JitBaseBlockCache :=
  ((c.withBlocks (emplace b c.block_map)).putFastEntry b b.fast_block_map_index).noteInstructions
    b.self b.physical_addresses

theorem emplace_distinct (distinct : c.Distinct) (fresh : ∀ x ∈ c.block_map, x.self ≠ b.self) :
    (c.withBlocks (emplace b c.block_map)).Distinct := by
  have listed := (emplace_perm b c.block_map).map (·.self)
  refine listed.nodup_iff.mpr (List.nodup_cons.mpr ⟨fun there => ?_, distinct⟩)
  obtain ⟨x, member, own⟩ := List.mem_map.mp there
  exact fresh x member own

theorem putFastEntry_blocks (c : JitBaseBlockCache) (b : JitBlock) (index : Nat) :
    (c.putFastEntry b index).block_map = c.block_map :=
  congrArg (·.block_map) (putFastEntry_rest c b index)

/-- The fast block map does not depend on the list of the blocks. -/
theorem putFastEntry_withBlocks (c : JitBaseBlockCache) (b : JitBlock) (index : Nat)
    (l : List JitBlock) :
    (c.putFastEntry b index).withBlocks l = (c.withBlocks l).putFastEntry b index := by
  unfold putFastEntry
  split
  next large => rw [if_pos (show (c.withBlocks l).large_entry_points_map = true from large)]; rfl
  next small => rw [if_neg (show ¬ (c.withBlocks l).large_entry_points_map = true from small)]; rfl

section
variable {em_address self normalEntry : Nat} {linkData : List LinkData} {block_link : Bool}
  {m_physical_addresses : List Range}
  (compilable : c.Compilable em_address self normalEntry linkData m_physical_addresses)
include compilable

theorem Compile_eq (distinct : c.Distinct) :
    c.Compile m em_address self normalEntry linkData block_link m_physical_addresses =
      let s := c.withBlock
        (c.newBlock m em_address self normalEntry linkData m_physical_addresses)
      if block_link then (s.noteExits self linkData).LinkBlock m self else some s := by
  let b : JitBlock := c.newBlock m em_address self normalEntry linkData m_physical_addresses
  let b₀ : JitBlock := { b with
    normalEntry := 0, fast_block_map_index := 0, linkData := [], physical_addresses := [] }
  let b₁ : JitBlock := { b with fast_block_map_index := 0, physical_addresses := [] }
  let b₂ : JitBlock := { b with physical_addresses := [] }
  have filled : (c.AllocateBlock m em_address self).fillBlock self normalEntry linkData =
      c.withBlocks (emplace b₁ c.block_map) :=
    modify_emplace (b := b₀) (c := c.withBlocks (emplace b₀ c.block_map)) rfl compilable.fresh rfl
  have found : (c.withBlocks (emplace b₁ c.block_map)).deref self = some b₁ :=
    deref_of_mem (b := b₁) (emplace_distinct distinct compilable.fresh) (mem_emplace.mpr (.inl rfl))
  have indexed : (c.withBlocks (emplace b₁ c.block_map)).setFastEntry b₁ b.fast_block_map_index =
      (c.withBlocks (emplace b₂ c.block_map)).putFastEntry b₁ b.fast_block_map_index := by
    have := modify_emplace (b := b₁) (f := fun x => { x with
      fast_block_map_index := b.fast_block_map_index }) (putFastEntry_blocks
        (c.withBlocks (emplace b₁ c.block_map)) b₁ b.fast_block_map_index) compilable.fresh rfl
    rw [setFastEntry, this, putFastEntry_withBlocks]
    rfl
  have finished : ((c.withBlocks (emplace b₂ c.block_map)).putFastEntry b₁
      b.fast_block_map_index).modify self (fun x => { x with
        physical_addresses := m_physical_addresses }) =
      (c.withBlocks (emplace b c.block_map)).putFastEntry b b.fast_block_map_index := by
    have := modify_emplace (b := b₂) (f := fun x => { x with
      physical_addresses := m_physical_addresses }) (putFastEntry_blocks
        (c.withBlocks (emplace b₂ c.block_map)) b₁ b.fast_block_map_index) compilable.fresh rfl
    refine this.trans ?_
    rw [putFastEntry_withBlocks]
    rfl
  have final : (((c.withBlocks (emplace b₁ c.block_map)).setFastEntry b₁
      b.fast_block_map_index).modify self fun x => { x with
        physical_addresses := m_physical_addresses }).noteInstructions self
          m_physical_addresses = c.withBlock b := by
    rw [indexed, finished]
    rfl
  rw [Compile, filled, FinalizeBlock, found, Option.bind_some]
  cases block_link with
  | false => exact congrArg some final
  | true => exact congrArg (fun s : JitBaseBlockCache => (s.noteExits self linkData).LinkBlock m self) final

omit compilable in
theorem withBlock_rest (c : JitBaseBlockCache) (b : JitBlock) :
    (c.withBlock b).block_map = emplace b c.block_map ∧ (c.withBlock b).links_to = c.links_to ∧
      (c.withBlock b).block_range_map = c.block_range_map.insertAll b.self (macroBlocks b) ∧
      (c.withBlock b).valid_block = setLines c.valid_block b.physical_addresses ∧
      (c.withBlock b).large_entry_points_map = c.large_entry_points_map := by
  unfold withBlock noteInstructions putFastEntry
  split <;> exact ⟨rfl, rfl, rfl, rfl, rfl⟩

end

theorem mem_setLines {valid : Nat → Bool} {ranges : List Range} {j : Nat} :
    setLines valid ranges j = true ↔
      valid j = true ∨ ∃ i ∈ ranges.flatMap (pieces 32), i / 32 = j := by
  unfold setLines
  induction ranges.flatMap (pieces 32) generalizing valid with
  | nil => simp
  | cons i lines ih =>
      rw [List.foldl_cons, ih]
      by_cases here : j = i / 32
      · simp [here]
      · have other : i / 32 ≠ j := Ne.symm here
        simp [Function.update_of_ne here, other]

/-- A new block whose exits jump nowhere. -/
theorem Linked.add {s : JitBaseBlockCache} (linked : c.Linked)
    (blocks : s.block_map = emplace b c.block_map) (exits : ∀ e ∈ b.linkData, e.target = none)
    (more : ∀ a, ∀ id ∈ c.links_to a, id ∈ s.links_to a)
    (known : ∀ a, ∀ id ∈ s.links_to a, id ∈ c.links_to a ∨
      id = b.self ∧ (∃ e ∈ b.linkData, e.exitAddress = a) ∧ s.Registered b) : s.Linked := by
  constructor
  · intro a id there
    rw [blocks]
    obtain before | ⟨rfl, exit, registered⟩ := known a id there
    · obtain ⟨x, here, self, exit, registered⟩ := linked.known a id before
      exact ⟨x, mem_emplace.mpr (.inr here), self, exit, fun e member =>
        more _ _ (registered e member)⟩
    · exact ⟨b, mem_emplace.mpr (.inl rfl), rfl, exit, registered⟩
  · intro x here e exit t jumps
    rw [blocks] at here
    obtain rfl | here := mem_emplace.mp here
    · simp [exits e exit] at jumps
    · obtain ⟨there, d, found, spec⟩ := linked.sound x here e exit t jumps
      exact ⟨more _ _ there, d, blocks ▸ mem_emplace.mpr (.inr found), spec⟩

theorem forall_added {s : JitBaseBlockCache} {P : JitBlock → Prop}
    (blocks : s.block_map = emplace b c.block_map) (new : P b) (others : ∀ x ∈ c.block_map, P x) :
    ∀ x ∈ s.block_map, P x := by
  intro x there
  rw [blocks] at there
  obtain rfl | there := mem_emplace.mp there
  · exact new
  · exact others x there

/-- A new block, with an entry at the index for its address. -/
theorem FastMapped.add {s : JitBaseBlockCache} (fast : c.FastMapped)
    (blocks : s.block_map = emplace b c.block_map)
    (large : s.large_entry_points_map = c.large_entry_points_map)
    (points : s.m_entry_points_ptr = ((c.withBlocks (emplace b c.block_map)).putFastEntry b
      b.fast_block_map_index).m_entry_points_ptr)
    (fallback : s.m_fast_block_map_fallback = ((c.withBlocks (emplace b c.block_map)).putFastEntry b
      b.fast_block_map_index).m_fast_block_map_fallback)
    (index : b.fast_block_map_index =
      c.FastLookupIndexForAddress b.effectiveAddress b.feature_flags)
    (aligned : b.effectiveAddress % 4 = 0 ∧ b.effectiveAddress < 2 ^ 32)
    (entry : b.normalEntry ≠ 0) (differs : ∀ x ∈ c.block_map, x.normalEntry ≠ b.normalEntry) :
    s.FastMapped := by
  have entries := putFastEntry_entries (c := c.withBlocks (emplace b c.block_map)) (b := b)
    (fun small i id there => by
      obtain ⟨x, here, spec⟩ := fast.fallback small i id there
      exact ⟨x, mem_emplace.mpr (.inr here), spec⟩)
    (fun wide i there => by
      obtain ⟨x, here, spec⟩ := fast.points wide i there
      exact ⟨x, mem_emplace.mpr (.inr here), spec⟩) (mem_emplace.mpr (.inl rfl)) rfl
  have rest := putFastEntry_rest (c.withBlocks (emplace b c.block_map)) b b.fast_block_map_index
  have same := putFastEntry_blocks (c.withBlocks (emplace b c.block_map)) b b.fast_block_map_index
  have wide_put : ((c.withBlocks (emplace b c.block_map)).putFastEntry b
      b.fast_block_map_index).large_entry_points_map = s.large_entry_points_map :=
    (congrArg (·.large_entry_points_map) rest).trans large.symm
  constructor
  · refine forall_added blocks ?_ fun x there => ?_
    · simpa only [FastLookupIndexForAddress, large] using index
    · simpa only [FastLookupIndexForAddress, large] using fast.index x there
  · exact forall_added blocks aligned fast.aligned
  · exact forall_added blocks entry fast.entries
  · intro x there y there'
    rw [blocks] at there there'
    obtain rfl | old := mem_emplace.mp there <;> obtain rfl | old' := mem_emplace.mp there'
    · exact fun _ => rfl
    · exact fun equal => absurd equal.symm (differs y old')
    · exact fun equal => absurd equal (differs x old)
    · exact fast.differ x old y old'
  · intro small i id there
    rw [fallback] at there
    obtain ⟨x, here, spec⟩ := entries.1 (wide_put.trans small) i id there
    exact ⟨x, blocks ▸ (same ▸ here : x ∈ (c.withBlocks _).block_map), spec⟩
  · intro wide i there
    rw [points] at there ⊢
    obtain ⟨x, here, spec⟩ := entries.2 (wide_put.trans wide) i there
    exact ⟨x, blocks ▸ (same ▸ here : x ∈ (c.withBlocks _).block_map), spec⟩

/-- A new block, noted in every macro block it reaches into. -/
theorem Ranged.add {s : JitBaseBlockCache} (ranged : c.Ranged)
    (blocks : s.block_map = emplace b c.block_map)
    (ranges : s.block_range_map = c.block_range_map.insertAll b.self (macroBlocks b)) :
    s.Ranged := by
  constructor
  · intro i id
    rw [ranges, mem_insertAll, ranged.blocks, blocks]
    constructor
    · rintro (⟨x, here, spec⟩ | ⟨rfl, inside⟩)
      · exact ⟨x, mem_emplace.mpr (.inr here), spec⟩
      · exact ⟨b, mem_emplace.mpr (.inl rfl), rfl, inside⟩
    · rintro ⟨x, here, rfl, inside⟩
      obtain rfl | here := mem_emplace.mp here
      · exact .inr ⟨rfl, inside⟩
      · exact .inl ⟨x, here, rfl, inside⟩
  · intro i id there
    rw [ranges] at there ⊢
    obtain before | ⟨_, inside⟩ := mem_insertAll.mp there
    · exact keys_insertAll (.inl (ranged.keys i id before))
    · exact keys_insertAll (.inr inside)
  · intro i
    rw [ranges]
    exact nodup_insertAll ranged.nodup i

/-- A new block, with the lines of its instructions set. -/
theorem lines_add {s : JitBaseBlockCache} (blocks : s.block_map = emplace b c.block_map)
    (before : ∀ x ∈ c.block_map, ∀ y, Within y x.physical_addresses →
      c.valid_block (y / 32) = true)
    (lines : s.valid_block = setLines c.valid_block b.physical_addresses) :
    ∀ x ∈ s.block_map, ∀ y, Within y x.physical_addresses → s.valid_block (y / 32) = true := by
  intro x there y inside
  rw [lines, mem_setLines]
  rw [blocks] at there
  obtain rfl | there := mem_emplace.mp there
  · obtain ⟨r, listed, inside⟩ := inside
    exact .inr ⟨y / 32 * 32, List.mem_flatMap.mpr ⟨r, listed, mem_pieces (by decide) inside⟩,
      by omega⟩
  · exact .inl (before x there y inside)

section
variable {em_address self normalEntry : Nat} {linkData : List LinkData} {block_link : Bool}
  {m_physical_addresses : List Range}
  (compilable : c.Compilable em_address self normalEntry linkData m_physical_addresses)
include compilable

/-- The tables agree on a new block, whatever its exits are known for. -/
theorem Valid.withBlock (valid : c.Valid) {s : JitBaseBlockCache} (linked : s.Linked)
    (rest : { s with links_to := c.links_to } = c.withBlock
      (c.newBlock m em_address self normalEntry linkData m_physical_addresses)) : s.Valid := by
  let b : JitBlock := c.newBlock m em_address self normalEntry linkData m_physical_addresses
  obtain ⟨blocks, _, ranges, lines, large⟩ := withBlock_rest c b
  have blocks' : s.block_map = emplace b c.block_map := (congrArg (·.block_map) rest).trans blocks
  have ranges' : s.block_range_map = c.block_range_map.insertAll self (macroBlocks b) :=
    (congrArg (·.block_range_map) rest).trans ranges
  have lines' : s.valid_block = setLines c.valid_block m_physical_addresses :=
    (congrArg (·.valid_block) rest).trans lines
  have large' : s.large_entry_points_map = c.large_entry_points_map :=
    (congrArg (·.large_entry_points_map) rest).trans large
  have distinct : s.Distinct := by
    rw [Distinct, blocks']
    exact emplace_distinct (b := b) valid.sane.distinct compilable.fresh
  have fast : s.FastMapped := valid.sane.fast.add blocks' large'
    (congrArg (·.m_entry_points_ptr) rest) (congrArg (·.m_fast_block_map_fallback) rest) rfl
    compilable.aligned compilable.entry compilable.differs
  exact ⟨⟨distinct, linked, fast, forall_added blocks' compilable.separated valid.sane.separated⟩,
    valid.ranged.add blocks' ranges', lines_add blocks' valid.lines lines'⟩

omit compilable in
theorem SameButExits.valid (same : SameButExits c c') (valid : c.Valid) (linked : c'.Linked) :
    c'.Valid := by
  have addresses : ∀ b' ∈ c'.block_map, ∃ b ∈ c.block_map,
      b'.physical_addresses = b.physical_addresses := by
    intro b' there
    obtain ⟨b, here, alike⟩ := same.mem' there
    have equal : b.physical_addresses = b'.physical_addresses :=
      congrArg (·.physical_addresses) alike
    exact ⟨b, here, equal.symm⟩
  refine ⟨⟨same.distinct valid.sane.distinct, linked, same.fast valid.sane.distinct valid.sane.fast,
    fun b' there => ?_⟩, same.ranged valid.ranged, fun b' there y inside => ?_⟩
  · obtain ⟨b, here, equal⟩ := addresses b' there
    exact equal ▸ valid.sane.separated b here
  · obtain ⟨b, here, equal⟩ := addresses b' there
    rw [same.valid_block]
    exact valid.lines b here y (equal ▸ inside)

/-- Making a block never fails, and adds the block to those that are there. -/
theorem Compile_spec (valid : c.Valid) (m : Machine) (block_link : Bool) :
    ∃ c', c.Compile m em_address self normalEntry linkData block_link m_physical_addresses =
      some c' ∧ c'.Valid ∧ c'.block_map.map bare = (emplace
        (c.newBlock m em_address self normalEntry linkData m_physical_addresses)
          c.block_map).map bare := by
  let b : JitBlock := c.newBlock m em_address self normalEntry linkData m_physical_addresses
  obtain ⟨blocks, links, _⟩ := withBlock_rest c b
  have exits : ∀ e ∈ b.linkData, e.target = none := fun e member => (compilable.exits e member).2
  rw [Compile_eq compilable valid.sane.distinct]
  cases block_link with
  | false =>
      have linked : (c.withBlock b).Linked := valid.sane.linked.add blocks exits
        (fun a id there => links.symm ▸ there) fun a id there => .inl (links ▸ there)
      exact ⟨_, rfl, Valid.withBlock compilable valid linked (by rw [← links]), by rw [blocks]⟩
  | true =>
      let s := (c.withBlock b).noteExits self linkData
      have known : ∀ a id, id ∈ s.links_to a ↔
          id ∈ c.links_to a ∨ id = self ∧ ∃ e ∈ linkData, e.exitAddress = a := fun a id => by
        rw [← links]
        exact mem_addLinks
      have registered : s.Registered b := fun e member =>
        (known _ _).mpr (.inr ⟨rfl, e, member, rfl⟩)
      have linked : s.Linked := valid.sane.linked.add blocks exits
        (fun a id there => (known a id).mpr (.inl there)) fun a id there => by
          obtain before | ⟨rfl, exit⟩ := (known a id).mp there
          · exact .inl before
          · exact .inr ⟨rfl, exit, registered⟩
      have valid' : s.Valid := Valid.withBlock compilable valid linked (by rw [← links]; rfl)
      obtain ⟨c', ran, same, linked'⟩ := LinkBlock_spec (m := m) valid'.sane.distinct linked
        (b := b) (blocks ▸ mem_emplace.mpr (.inl rfl)) registered
      exact ⟨c', ran, same.valid valid' linked', same.blocks.trans (congrArg _ blocks)⟩

end

/-! ## Runs -/

inductive Operation where
  | compile (m : Machine) (em_address self normalEntry : Nat) (linkData : List LinkData)
      (block_link : Bool) (m_physical_addresses : List Range)
  | dispatch (m : Machine)
  | invalidate (m : Machine) (address length : Nat) (forced : Bool)
  | invalidateLine (m : Machine) (address : Nat)
  | invalidateLines (m : Machine) (address count : Nat)
  | erasePhysicalRange (address length : Nat)
  | eraseSingleBlock (id : Nat)
  | clear

def perform : Operation → JitBaseBlockCache → Option JitBaseBlockCache
  | .compile m em_address self normalEntry linkData block_link m_physical_addresses, c =>
      c.Compile m em_address self normalEntry linkData block_link m_physical_addresses
  | .dispatch m, c => (c.Dispatch m).map (·.1)
  | .invalidate m address length forced, c => c.InvalidateICache m address length forced
  | .invalidateLine m address, c => c.InvalidateICacheLine m address
  | .invalidateLines m address count, c => c.InvalidateICacheLines m address count
  | .erasePhysicalRange address length, c => c.ErasePhysicalRange address length
  | .eraseSingleBlock id, c => c.EraseSingleBlock id
  | .clear, c => c.Clear

/-- What the callers of an operation see to. -/
def Proper : Operation → JitBaseBlockCache → Prop
  | .compile _ em_address self normalEntry linkData _ m_physical_addresses, c =>
      c.Compilable em_address self normalEntry linkData m_physical_addresses
  | .dispatch m, _ => m.pc % 4 = 0 ∧ m.pc < 2 ^ 32
  | .invalidate m address length _, _ =>
      m.Paged ∧ address + length ≤ 2 ^ 32 ∧ ¬ ReachesEnd m address length
  | .invalidateLine m address, _ =>
      m.Paged ∧ address < 2 ^ 32 ∧ ¬ ReachesEnd m (address / 32 * 32) 32
  | .invalidateLines m address count, _ =>
      m.Paged ∧ 0 < count ∧ address / 32 * 32 + 32 * count ≤ 2 ^ 32 ∧ count < 2 ^ 32 / 32 ∧
        ¬ ReachesEnd m (address / 32 * 32) (32 * count)
  | .erasePhysicalRange address length, _ => address + length < 2 ^ 32
  | .eraseSingleBlock _, _ => True
  | .clear, _ => True

/-- No operation follows a pointer to a block that was freed, and the tables agree afterwards. -/
theorem perform_spec (valid : c.Valid) (operation : Operation) (proper : Proper operation c) :
    ∃ c', perform operation c = some c' ∧ c'.Valid := by
  cases operation with
  | compile m em_address self normalEntry linkData block_link m_physical_addresses =>
      obtain ⟨c', ran, valid', _⟩ := Compile_spec proper valid m block_link
      exact ⟨c', ran, valid'⟩
  | dispatch m =>
      obtain ⟨c', entry, ran, valid', _⟩ := Dispatch_spec (m := m) valid proper
      exact ⟨c', by simp [perform, ran], valid'⟩
  | invalidate m address length forced =>
      obtain ⟨paged, inside, short⟩ := proper
      obtain ⟨c', ran, valid', _⟩ := InvalidateICache_spec paged valid forced inside short
      exact ⟨c', ran, valid'⟩
  | invalidateLine m address =>
      obtain ⟨paged, inside, short⟩ := proper
      obtain ⟨c', ran, valid', _⟩ := InvalidateICacheLine_spec paged valid inside short
      exact ⟨c', ran, valid'⟩
  | invalidateLines m address count =>
      obtain ⟨paged, positive, inside, few, short⟩ := proper
      rw [perform, InvalidateICacheLines]
      by_cases one : count = 1
      · subst one
        obtain ⟨c', ran, valid', _⟩ := InvalidateICacheLine_spec paged valid
          (show address < 2 ^ 32 by omega) short
        exact ⟨c', by rw [if_pos rfl, ran], valid'⟩
      · obtain ⟨c', ran, valid', _⟩ := InvalidateICache_spec paged valid false inside short
        exact ⟨c', by rw [if_neg one, if_neg (by omega), ran], valid'⟩
  | erasePhysicalRange address length =>
      have marked : ∀ y, c.valid_block (y / 32) = true →
          ¬ (address ≤ y ∧ y < address + length) → c.valid_block (y / 32) = true :=
        fun _ marked _ => marked
      obtain ⟨c', ran, valid', _⟩ := valid.erase proper marked
      exact ⟨c', ran, valid'⟩
  | eraseSingleBlock id =>
      obtain ⟨c', ran, valid', _⟩ := EraseSingleBlock_spec valid id
      exact ⟨c', ran, valid'⟩
  | clear =>
      obtain ⟨c', ran, valid', _⟩ := Clear_spec valid
      exact ⟨c', ran, valid'⟩

section
variable {large : Bool} (run : Reaches perform Proper (Init large) c)
include run

end

/-! ## A block of four instructions -/

/-- The machine without address translation. -/
def realMode (pc : Nat) : Machine := ⟨fun a => ⟨true, false, false, a % 2 ^ 32⟩, 0, pc⟩

theorem realMode_paged (pc : Nat) : (realMode pc).Paged := by
  refine ⟨fun a a' small small' _ => ⟨rfl, fun _ => ?_⟩, fun a => Nat.mod_lt _ (by decide)⟩
  simp only [realMode, Nat.mod_eq_of_lt small, Nat.mod_eq_of_lt small']
  omega

/-- The block at `0x3100`, with an exit to itself. -/
def compileOne : Operation :=
  .compile (realMode 0x3100) 0x3100 1 0x1000 [⟨0x3100, false, none⟩] true [⟨0x3100, 0x3110⟩]

theorem compileOne_proper : Proper compileOne (Init false) where
  fresh := by simp [Init]
  entry := by decide
  differs := by simp [Init]
  exits := by simp
  separated := separated_singleton.mpr (by decide)
  bounded := by simp [BLOCK_RANGE_SIZE]
  aligned := by decide

theorem compileOne_ran : ∃ c, perform compileOne (Init false) = some c ∧
    Reaches perform Proper (Init false) c := by
  obtain ⟨c, ran, _⟩ := perform_spec (Init_valid false) compileOne compileOne_proper
  exact ⟨c, ran, Reaches.refl.tail compileOne_proper ran⟩

theorem eraseInMacroBlock_none {start : Nat} (sane : c.Sane) (ranged : c.Ranged)
    (none : ∀ b ∈ c.block_map, OverlapsPhysicalRange b address length = false)
    {s : JitBaseBlockCache} (blocks : s.block_map = c.block_map)
    (ranges : s.block_range_map.blocks = c.block_range_map.blocks) :
    ∃ s', eraseInMacroBlock address length s start = some s' ∧ s'.block_map = c.block_map ∧
      s'.block_range_map.blocks = c.block_range_map.blocks := by
  obtain ⟨s', ran, _, same⟩ := foldlM_succeeds (f := eraseIfOverlapping address length start)
    (I := fun l s' => (∀ id ∈ l, id ∈ c.block_range_map.blocks start) ∧ s' = s)
    (by
      rintro id l s' ⟨listed, same⟩
      obtain ⟨b, member, rfl, _⟩ := (ranged.blocks start id).mp (listed id (by simp))
      have found : s.deref b.self = some b := by
        rw [deref, blocks]
        exact deref_of_mem sane.distinct member
      exact ⟨s, by simp [eraseIfOverlapping, same, found, none b member],
        fun id later => listed id (by simp [later]), rfl⟩)
    (l := s.block_range_map.blocks start) (s := s) ⟨fun id there => ranges ▸ there, rfl⟩
  refine ⟨s.withRanges (s.block_range_map.dropEmpty start),
    by rw [eraseInMacroBlock, ran, same]; rfl, blocks, ?_⟩
  rw [← ranges]
  show (s.block_range_map.dropEmpty start).blocks = _
  unfold BlockRangeMap.dropEmpty
  split <;> rfl

/-- A range that ends before it starts. -/
theorem ErasePhysicalRange_none (sane : c.Sane) (ranged : c.Ranged)
    (stop : (address + length) % 2 ^ 32 ≤ address)
    (inMacroBlock : address / BLOCK_RANGE_SIZE * BLOCK_RANGE_SIZE ≤ (address + length) % 2 ^ 32) :
    ∃ c', c.ErasePhysicalRange address length = some c' ∧ c'.block_map = c.block_map := by
  have none : ∀ b ∈ c.block_map, OverlapsPhysicalRange b address length = false := by
    intro b _
    rw [OverlapsPhysicalRange, RangeSizeSet.overlaps, if_pos stop]
  have ahead : (c.block_range_map.keys.any fun key => decide ((address + length) % 2 ^ 32 ≤ key ∧
      key < address / BLOCK_RANGE_SIZE * BLOCK_RANGE_SIZE)) = false := by
    simp only [List.any_eq_false, decide_eq_true_eq]
    intro key _
    omega
  obtain ⟨c', ran, blocks, _⟩ := foldlM_succeeds (f := eraseInMacroBlock address length)
    (I := fun _ s => s.block_map = c.block_map ∧
      s.block_range_map.blocks = c.block_range_map.blocks)
    (fun start l s same => eraseInMacroBlock_none sane ranged none same.1 same.2)
    (l := c.block_range_map.keys.filter fun key =>
      address / BLOCK_RANGE_SIZE * BLOCK_RANGE_SIZE ≤ key ∧ key < (address + length) % 2 ^ 32)
    (s := c) ⟨rfl, rfl⟩
  refine ⟨c', ?_, blocks⟩
  rw [ErasePhysicalRange]
  simp only [ahead, Bool.false_eq_true, if_false]
  exact ran

theorem InvalidateICache_single (positive : 0 < length) (forced : Bool)
    (single : address / mappedTogether (m.JitCache_TranslateAddress address) =
      (address + (length - 1)) % 2 ^ 32 / mappedTogether (m.JitCache_TranslateAddress address))
    (mapped : (m.JitCache_TranslateAddress address).valid = true) :
    c.InvalidateICache m address length forced = c.InvalidateICacheInternal
      (m.JitCache_TranslateAddress address).address address length forced := by
  obtain ⟨fuel, rfl⟩ := Nat.exists_eq_succ_of_ne_zero positive.ne'
  rw [InvalidateICache, Nat.succ_eq_add_one, invalidateLoop]
  simp only [if_neg positive.ne']
  rw [if_pos single, if_pos mapped]

/-- The number of bytes that stands for all lines leads back to the page of the first one. Then the
range that is erased ends before it starts, and no block is destroyed. -/
theorem InvalidateICacheLines_all (valid : c.Valid) (inside : address < 2 ^ 32)
    (mapped : (m.JitCache_TranslateAddress (address / 32 * 32)).valid = true)
    (bounded : (m.JitCache_TranslateAddress (address / 32 * 32)).address < 2 ^ 32)
    (inUnit : 32 ≤ address / 32 * 32 %
      mappedTogether (m.JitCache_TranslateAddress (address / 32 * 32)))
    (inMacroBlock : 32 ≤ (m.JitCache_TranslateAddress (address / 32 * 32)).address %
      BLOCK_RANGE_SIZE) :
    ∃ c', c.InvalidateICacheLines m address 0 = some c' ∧ c'.block_map = c.block_map := by
  generalize line : address / 32 * 32 = first at *
  have below : first < 2 ^ 32 := by omega
  generalize unit : mappedTogether (m.JitCache_TranslateAddress first) = size at *
  have inUnit' : size * (first / size) + first % size = first := Nat.div_add_mod first size
  have last : (first + (0xffffffff - 1)) % 2 ^ 32 = first - 2 := by
    have : 32 ≤ first := by
      have := Nat.mod_le first size
      omega
    omega
  have single : first / size = (first - 2) / size := by
    refine (Nat.div_eq_of_lt_le ?_ ?_).symm
    · rw [Nat.mul_comm]
      omega
    · rw [Nat.succ_mul, Nat.mul_comm]
      have : first % size < size := Nat.mod_lt _ (unit ▸ Nat.pow_pos (by decide))
      omega
  have once : c.InvalidateICache m first 0xffffffff false = _ := InvalidateICache_single
    (by decide) false (by rw [unit, last]; exact single) mapped
  generalize (m.JitCache_TranslateAddress first).address = p at *
  have stop : (p + 0xffffffff) % 2 ^ 32 = p - 1 := by
    have := Nat.mod_le p BLOCK_RANGE_SIZE
    omega
  have macroBlock : p / BLOCK_RANGE_SIZE * BLOCK_RANGE_SIZE ≤ p - 1 := by
    have := Nat.div_add_mod p BLOCK_RANGE_SIZE
    rw [Nat.mul_comm]
    omega
  have before : (p + 0xffffffff) % 2 ^ 32 ≤ p := by
    rw [stop]
    exact Nat.sub_le p 1
  obtain ⟨c', ran, blocks⟩ := ErasePhysicalRange_none
    (valid.sane.withLines (clearLines c.valid_block ((p + 0x1f) % 2 ^ 32 / 32)
      ((p + 0xffffffff) % 2 ^ 32 / 32)))
    ⟨valid.ranged.blocks, valid.ranged.keys, valid.ranged.nodup⟩
    before (by rw [stop]; exact macroBlock)
  rw [InvalidateICacheLines, if_neg (by decide), if_pos (.inl rfl), line, once,
    InvalidateICacheInternal]
  simp only [show ¬ ((0xffffffff : Nat) = 32 ∧ p % 32 = 0) by omega, if_false, false_and, false_or,
    show (0xffffffff : Nat) > 32 by decide, if_true, ran, Option.map_some, Bool.false_eq_true]
  exact ⟨_, rfl, blocks⟩

theorem InvalidateICacheLines_all_one : ∃ c, perform compileOne (Init false) = some c ∧ ∃ c',
    c.InvalidateICacheLines (realMode 0x3100) 0x3120 0 = some c' ∧ c'.block_map = c.block_map := by
  obtain ⟨c, ran, valid⟩ := perform_spec (Init_valid false) compileOne compileOne_proper
  exact ⟨c, ran, InvalidateICacheLines_all valid (by decide) rfl (by decide) (by decide) (by decide)⟩

end JitBaseBlockCache

end Phocoena.JitCommon
