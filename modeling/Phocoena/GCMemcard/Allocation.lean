import Phocoena.GCMemcard.ChainWalks

/-! # Allocation of blocks

What `NextFreeBlock`, the copying loop of `ImportFile` and `ClearBlocks` do to the block allocation
map, in terms of the set of free blocks of a card.
-/

namespace Phocoena.Memcard

namespace BlockAlloc

variable (bat : BlockAlloc)

/-- The blocks of a card of `size` blocks that no file has. -/
def freeSet (size : Nat) : Finset Nat := (Finset.Ico MC_FST_BLOCKS size).filter (bat.entry · = 0)

theorem mem_freeSet {size block : Nat} :
    block ∈ bat.freeSet size ↔ (5 ≤ block ∧ block < size) ∧ bat.entry block = 0 := by
  rw [freeSet, Finset.mem_filter, Finset.mem_Ico, MC_FST_BLOCKS]

theorem blocksInUse_add_free {n : Nat} (le : n ≤ BAT_SIZE) :
    bat.blocksInUse n + (bat.freeSet (n + 5)).card = n := by
  induction n with
  | zero => rfl
  | succ n ih =>
    have lt : n < bat.map.toList.length := by rwa [Vector.length_toList]
    have used : bat.blocksInUse (n + 1) =
        bat.blocksInUse n + if bat.entry (n + 5) = 0 then 0 else 1 := by
      unfold blocksInUse entry MC_FST_BLOCKS
      rw [List.take_succ_eq_append_getElem lt, List.countP_append, List.countP_singleton,
        Nat.add_sub_cancel, Vector.getElem?_eq_getElem le, Option.getD_some, Vector.getElem_toList]
      by_cases zero : bat.map[n] = 0
      · rw [zero]
        rfl
      · rw [if_pos (bne_iff_ne.mpr zero), if_neg (show ¬ bat.map[n].toNat = 0 from
          fun h => zero (BitVec.eq_of_toNat_eq h))]
    have free : (bat.freeSet (n + 1 + 5)).card =
        (bat.freeSet (n + 5)).card + if bat.entry (n + 5) = 0 then 1 else 0 := by
      have last : Finset.Ico MC_FST_BLOCKS (n + 1 + 5) =
          insert (n + 5) (Finset.Ico MC_FST_BLOCKS (n + 5)) := by
        ext block
        simp only [Finset.mem_Ico, Finset.mem_insert, MC_FST_BLOCKS]
        omega
      unfold freeSet
      rw [last, Finset.filter_insert]
      split
      · rw [Finset.card_insert_of_notMem]
        simp
      · rfl
    have before := ih (Nat.le_of_succ_le le)
    rw [used, free]
    split <;> omega

theorem countsFree_iff {sizeMbits : Nat} (valid : sizeMbits ∈ validMegabits) :
    bat.CountsFree sizeMbits ↔
      (bat.freeSet (sizeMbits * MBIT_TO_BLOCKS)).card = bat.freeBlocks.toNat := by
  have size := pos_of_valid valid
  have whole := bat.blocksInUse_add_free
    (show userBlocks sizeMbits ≤ BAT_SIZE by
      unfold userBlocks MBIT_TO_BLOCKS BAT_SIZE
      omega)
  have eq : userBlocks sizeMbits + 5 = sizeMbits * MBIT_TO_BLOCKS := by
    unfold userBlocks MBIT_TO_BLOCKS MC_FST_BLOCKS
    omega
  rw [eq] at whole
  unfold CountsFree
  omega

/-! ## Storing an entry -/

theorem entry_storeEntry {block value : Nat} (inside : 5 ≤ block ∧ block < BAT_SIZE + 5)
    (lt : value < 2 ^ 16) {other : Nat} (le : 5 ≤ other) :
    (bat.storeEntry block value).entry other = if other = block then value else bat.entry other := by
  have bound : block - 5 < BAT_SIZE := by omega
  unfold storeEntry entry MC_FST_BLOCKS
  rw [Vector.getElem?_setIfInBounds]
  by_cases same : other = block
  · subst same
    rw [if_pos rfl, if_pos rfl, if_pos bound, Option.getD_some, BitVec.toNat_ofNat, Nat.mod_eq_of_lt lt]
  · rw [if_neg same, if_neg (by omega)]

/-! ## `NextFreeBlock` -/

theorem nextFreeBlock_spec {size start : Nat} (size_ge : 5 ≤ size) (size_le : size ≤ 4096)
    (start_le : start ≤ size) (some_free : (bat.freeSet size).Nonempty)
    (counts : 0 < bat.freeBlocks.toNat) :
    bat.nextFreeBlock size start ∈ bat.freeSet size ∧
      ∀ other ∈ bat.freeSet size, other + 1 ≠ start → bat.nextFreeBlock size start + 1 ≠ start := by
  have clamp_start : clampBlock start = max 5 start := by
    unfold clampBlock MC_FST_BLOCKS BAT_SIZE
    omega
  have clamp_size : clampBlock size = size := by
    unfold clampBlock MC_FST_BLOCKS BAT_SIZE
    omega
  simp only [nextFreeBlock, if_pos counts, clamp_start, clamp_size, MC_FST_BLOCKS]
  cases ahead : (List.range' (max 5 start) (size - max 5 start)).find? fun i => bat.entry i == 0 with
  | some i =>
    obtain ⟨free, mem, -⟩ := List.find?_range'_eq_some.mp ahead
    rw [List.mem_range'_1] at mem
    dsimp only
    exact ⟨bat.mem_freeSet.mpr ⟨by omega, beq_iff_eq.mp free⟩, fun _ _ _ => by omega⟩
  | none =>
    -- Nothing is free from `start` on, so that the first free block comes before it.
    have taken := List.find?_range'_eq_none.mp ahead
    have before {other : Nat} (mem : other ∈ bat.freeSet size) : 5 ≤ other ∧ other < start := by
      obtain ⟨inside, free⟩ := bat.mem_freeSet.mp mem
      by_contra late
      have full := taken other (by omega) (by omega)
      simp [free] at full
    cases back : (List.range' 5 (max 5 start - 5)).find? fun i => bat.entry i == 0 with
    | some i =>
      obtain ⟨free, mem, first⟩ := List.find?_range'_eq_some.mp back
      rw [List.mem_range'_1] at mem
      dsimp only
      refine ⟨bat.mem_freeSet.mpr ⟨by omega, beq_iff_eq.mp free⟩, fun other member ne => ?_⟩
      have at_most : i ≤ other := by
        by_contra later
        have full := first other (before member).1 (by omega)
        simp [(bat.mem_freeSet.mp member).2] at full
      have := (before member).2
      omega
    | none =>
      obtain ⟨other, member⟩ := some_free
      have full := List.find?_range'_eq_none.mp back other (before member).1 (by
        have := (before member).2
        omega)
      simp [(bat.mem_freeSet.mp member).2] at full

/-! ## Chains of files -/

variable {bat}

theorem getNextBlock_of_inside {block : Nat} (le : 5 ≤ block) (ge : block ≤ 4091) :
    bat.getNextBlock block = bat.entry block := by
  unfold getNextBlock MC_FST_BLOCKS
  rw [if_neg (by omega)]

/-- The blocks of a file have links. -/
theorem FileChain.entry_ne_zero {first block : Nat} {blocks : List Nat}
    (chain : bat.FileChain first blocks 0xFFFF) (mem : block ∈ blocks) :
    bat.getNextBlock block ≠ 0 := by
  obtain ⟨rest, onward, -⟩ := Chain.from_mem chain mem
  cases onward with
  | done ends => exact absurd ends (Chain.goes_of_mem chain mem)
  | link _ onward =>
    intro zero
    rw [zero] at onward
    cases onward with
    | link goes => exact goes (.inl rfl)

theorem FileChain.inside {first block : Nat} {blocks : List Nat}
    (chain : bat.FileChain first blocks 0xFFFF) (mem : block ∈ blocks) :
    5 ≤ block ∧ block ≤ 4091 :=
  bat.inside_of_getNextBlock (chain.entry_ne_zero mem)

theorem FileChain.not_mem_freeSet {first block size : Nat} {blocks : List Nat}
    (chain : bat.FileChain first blocks 0xFFFF) (mem : block ∈ blocks) :
    block ∉ bat.freeSet size := by
  obtain ⟨le, ge⟩ := chain.inside mem
  have linked := chain.entry_ne_zero mem
  rw [getNextBlock_of_inside le ge] at linked
  exact fun free => linked (bat.mem_freeSet.mp free).2

/-- A chain stays when the entries of its blocks do. -/
theorem FileChain.congr {bat' : BlockAlloc} {first : Nat} {blocks : List Nat}
    (chain : bat.FileChain first blocks 0xFFFF)
    (same : ∀ block ∈ blocks, bat'.entry block = bat.entry block) :
    bat'.FileChain first blocks 0xFFFF := by
  refine Chain.congr chain fun block mem => ?_
  obtain ⟨le, ge⟩ := chain.inside mem
  rw [getNextBlock_of_inside le ge, getNextBlock_of_inside le ge, same block mem]

/-- A chain of at least one block is what `CheckForErrorsWithBat` looks for. -/
theorem matches_of_fileChain {first : Nat} {blocks : List Nat}
    (chain : bat.FileChain first blocks 0xFFFF) (some_block : blocks ≠ []) :
    Directory.batBlockCountMatches bat blocks.length first = true := by
  induction blocks generalizing first with
  | nil => exact absurd rfl some_block
  | cons block rest ih =>
    obtain ⟨rfl, -, onward⟩ := Chain.cons_iff.mp chain
    rw [List.length_cons, Directory.batBlockCountMatches]
    cases rest with
    | nil =>
      obtain ⟨last, -⟩ := Chain.nil_iff.mp onward
      rw [last]
      rfl
    | cons second rest =>
      obtain ⟨-, goes, -⟩ := Chain.cons_iff.mp onward
      rw [if_neg fun h => goes (.inl h), if_neg fun h => goes (.inr h)]
      exact ih onward (List.cons_ne_nil _ _)

end BlockAlloc

/-! ## The copying loop of `ImportFile` -/

namespace GCMemcard

open BlockAlloc

/-- The map after one round of the loop. -/
def mark (bat : BlockAlloc) (block next : Nat) : BlockAlloc :=
  { bat.storeEntry block next with lastAllocatedBlock := BitVec.ofNat 16 block }

/-- `blocks` are taken from the free blocks and linked to a file that starts at `first`. -/
structure Allocated (size : Nat) (bat : BlockAlloc) (dataBlocks : List GCMBlock) (first : Nat)
    (blocks : List Nat) (result : Copying) : Prop where
  chain : result.bat.FileChain first blocks 0xFFFF
  free : ∀ block ∈ blocks, block ∈ bat.freeSet size
  entries : ∀ block, 5 ≤ block → block ∉ blocks → result.bat.entry block = bat.entry block
  freeBlocks : result.bat.freeBlocks = bat.freeBlocks
  updateCounter : result.bat.updateCounter = bat.updateCounter
  lastAllocatedBlock : result.bat.lastAllocatedBlock.toNat < size
  length : result.dataBlocks.length = dataBlocks.length
  data : ∀ block, 5 ≤ block → block ∉ blocks →
    result.dataBlocks[block - 5]? = dataBlocks[block - 5]?

variable {size : Nat} {bat : BlockAlloc} {dataBlocks files : List GCMBlock} {first : Nat}

theorem entry_mark {block next : Nat} (inside : 5 ≤ block ∧ block < BAT_SIZE + 5)
    (lt : next < 2 ^ 16) {other : Nat} (le : 5 ≤ other) :
    (mark bat block next).entry other = if other = block then next else bat.entry other :=
  bat.entry_storeEntry inside lt le

theorem copyBlocks_round (size_le : size ≤ 2048) (length : dataBlocks.length + 5 = size)
    (free : first ∈ bat.freeSet size) {rounds i : Nat} (enough : i < files.length) :
    ∃ file, copyBlocks size files (rounds + 1) i ⟨bat, dataBlocks, first⟩ =
      let next := if rounds = 0 then 0xFFFF else bat.nextFreeBlock size (first + 1)
      copyBlocks size files rounds (i + 1)
        ⟨mark bat first next, dataBlocks.set (first - 5) file, next⟩ := by
  obtain ⟨inside, -⟩ := bat.mem_freeSet.mp free
  refine ⟨files[i], ?_⟩
  rw [copyBlocks, fetch_ok.mpr (List.getElem?_eq_getElem enough), Access.ok_bind,
    dataIndex_of_le inside.1 (by omega), store_of_lt (by omega), Access.ok_bind]
  rfl

/-- The last block of a file. -/
theorem allocated_last (size_le : size ≤ 2048) (free : first ∈ bat.freeSet size)
    (file : GCMBlock) :
    Allocated size bat dataBlocks first [first]
      ⟨mark bat first 0xFFFF, dataBlocks.set (first - 5) file, 0xFFFF⟩ := by
  obtain ⟨inside, -⟩ := bat.mem_freeSet.mp free
  have bounds : 5 ≤ first ∧ first < BAT_SIZE + 5 := ⟨inside.1, by unfold BAT_SIZE; omega⟩
  have marked : (mark bat first 0xFFFF).getNextBlock first = 0xFFFF := by
    rw [getNextBlock_of_inside inside.1 (by omega), entry_mark bounds (by decide) inside.1,
      if_pos rfl]
  exact
    { chain := Chain.cons_iff.mpr ⟨rfl, by unfold IsEnd; omega, Chain.nil_iff.mpr
        ⟨marked, by rw [marked]; exact .inr rfl⟩⟩
      free := fun block mem => by
        rw [List.mem_singleton] at mem
        exact mem ▸ free
      entries := fun block le other => by
        rw [List.mem_singleton] at other
        rw [entry_mark bounds (by decide) le, if_neg other]
      freeBlocks := rfl
      updateCounter := rfl
      lastAllocatedBlock := by
        change (BitVec.ofNat 16 first).toNat < size
        rw [BitVec.toNat_ofNat, Nat.mod_eq_of_lt (by omega)]
        exact inside.2
      length := List.length_set
      data := fun block le other => by
        rw [List.mem_singleton] at other
        exact List.getElem?_set_ne (by omega) }

/-- A block in front of the ones that are allocated after it. -/
theorem allocated_cons (size_le : size ≤ 2048) (free : first ∈ bat.freeSet size) {next : Nat}
    (free_next : next ∈ bat.freeSet size) (file : GCMBlock) {blocks : List Nat} {result : Copying}
    (rest : Allocated size (mark bat first next) (dataBlocks.set (first - 5) file) next blocks
      result) :
    Allocated size bat dataBlocks first (first :: blocks) result := by
  obtain ⟨inside, -⟩ := bat.mem_freeSet.mp free
  obtain ⟨inside_next, -⟩ := bat.mem_freeSet.mp free_next
  have bounds : 5 ≤ first ∧ first < BAT_SIZE + 5 := ⟨inside.1, by unfold BAT_SIZE; omega⟩
  have marked {other : Nat} (le : 5 ≤ other) :=
    @entry_mark bat first next bounds (by omega) other le
  -- The block is no longer free when the others are chosen.
  have apart : first ∉ blocks := fun mem => by
    have again := ((mark bat first next).mem_freeSet.mp (rest.free first mem)).2
    rw [marked inside.1, if_pos rfl] at again
    omega
  have link : result.bat.getNextBlock first = next := by
    rw [getNextBlock_of_inside inside.1 (by omega), rest.entries first inside.1 apart,
      marked inside.1, if_pos rfl]
  exact
    { chain := Chain.cons_iff.mpr ⟨rfl, by unfold IsEnd; omega, link ▸ rest.chain⟩
      free := fun block mem => by
        rcases List.mem_cons.mp mem with rfl | mem
        · exact free
        · obtain ⟨bound, zero⟩ := (mark bat first next).mem_freeSet.mp (rest.free block mem)
          rw [marked bound.1, if_neg fun same => apart (by rw [← same]; exact mem)] at zero
          exact bat.mem_freeSet.mpr ⟨bound, zero⟩
      entries := fun block le other => by
        rw [List.mem_cons, not_or] at other
        rw [rest.entries block le other.2, marked le, if_neg other.1]
      freeBlocks := rest.freeBlocks
      updateCounter := rest.updateCounter
      lastAllocatedBlock := rest.lastAllocatedBlock
      length := rest.length.trans List.length_set
      data := fun block le other => by
        rw [List.mem_cons, not_or] at other
        rw [rest.data block le other.2]
        exact List.getElem?_set_ne (by omega) }

theorem copyBlocks_spec (size_le : size ≤ 2048) {rounds : Nat} (counts : 0 < bat.freeBlocks.toNat)
    (length : dataBlocks.length + 5 = size) (free : first ∈ bat.freeSet size)
    (enough : rounds + 1 ≤ (bat.freeSet size).card) {i : Nat}
    (files_enough : i + (rounds + 1) ≤ files.length) :
    ∃ result blocks, copyBlocks size files (rounds + 1) i ⟨bat, dataBlocks, first⟩ = .ok result ∧
      blocks.length = rounds + 1 ∧ Allocated size bat dataBlocks first blocks result := by
  induction rounds generalizing bat dataBlocks first i with
  | zero =>
    obtain ⟨file, round⟩ := @copyBlocks_round size bat dataBlocks files first size_le length free 0 i
      (by omega)
    exact ⟨_, [first], round, rfl, allocated_last size_le free file⟩
  | succ rounds ih =>
    obtain ⟨file, round⟩ := @copyBlocks_round size bat dataBlocks files first size_le length free
      (rounds + 1) i (by omega)
    obtain ⟨inside, -⟩ := bat.mem_freeSet.mp free
    have several : 1 < (bat.freeSet size).card := by omega
    obtain ⟨other, free_other, ne⟩ := Finset.exists_mem_ne several first
    obtain ⟨free_next, apart⟩ := @nextFreeBlock_spec bat size (first + 1) (by omega) (by omega)
      (by omega) ⟨_, free⟩ counts
    have ne_next := apart other free_other fun h => ne (Nat.succ.inj h)
    rw [if_neg (Nat.succ_ne_zero rounds)] at round
    generalize bat.nextFreeBlock size (first + 1) = next at round free_next ne_next
    obtain ⟨inside_next, zero_next⟩ := bat.mem_freeSet.mp free_next
    have bounds : 5 ≤ first ∧ first < BAT_SIZE + 5 := ⟨inside.1, by unfold BAT_SIZE; omega⟩
    have taken : (mark bat first next).freeSet size = (bat.freeSet size).erase first := by
      ext block
      rw [Finset.mem_erase, mem_freeSet, mem_freeSet]
      constructor
      · rintro ⟨bound, zero⟩
        rw [entry_mark bounds (by omega) bound.1] at zero
        split at zero
        · omega
        · next ne => exact ⟨ne, bound, zero⟩
      · rintro ⟨ne, bound, zero⟩
        exact ⟨bound, by rw [entry_mark bounds (by omega) bound.1, if_neg ne, zero]⟩
    obtain ⟨result, blocks, ok, count, allocated⟩ := @ih (mark bat first next)
      (dataBlocks.set (first - 5) file) next counts (by rw [List.length_set, length])
      (by
        rw [taken, Finset.mem_erase]
        exact ⟨by omega, free_next⟩)
      (by rw [taken, Finset.card_erase_of_mem free]; omega) (i + 1) (by omega)
    refine ⟨result, first :: blocks, round.trans ok, by rw [List.length_cons, count], ?_⟩
    exact allocated_cons size_le free free_next file allocated

end GCMemcard

/-! ## `ClearBlocks` -/

namespace BlockAlloc

variable {bat : BlockAlloc}

/-- The map without the links of `blocks`. -/
def clear (bat : BlockAlloc) (blocks : List Nat) : BlockAlloc :=
  blocks.foldl (fun b block => b.storeEntry block 0) bat

theorem clear_frame (blocks : List Nat) :
    (bat.clear blocks).freeBlocks = bat.freeBlocks ∧
      (bat.clear blocks).updateCounter = bat.updateCounter ∧
      (bat.clear blocks).lastAllocatedBlock = bat.lastAllocatedBlock := by
  induction blocks generalizing bat with
  | nil => exact ⟨rfl, rfl, rfl⟩
  | cons block blocks ih => exact @ih (bat.storeEntry block 0)

theorem entry_clear {blocks : List Nat} (inside : ∀ block ∈ blocks, 5 ≤ block ∧ block ≤ 4091)
    {other : Nat} (le : 5 ≤ other) :
    (bat.clear blocks).entry other = if other ∈ blocks then 0 else bat.entry other := by
  induction blocks generalizing bat with
  | nil => rfl
  | cons block blocks ih =>
    have bound := inside block List.mem_cons_self
    change ((bat.storeEntry block 0).clear blocks).entry other = _
    rw [ih fun c mem => inside c (List.mem_cons_of_mem block mem), bat.entry_storeEntry
      ⟨bound.1, by unfold BAT_SIZE; omega⟩ (by decide) le]
    by_cases here : other = block
    · rw [if_pos here, ite_self, if_pos (List.mem_cons.mpr (.inl here))]
    · rw [if_neg here]
      simp only [List.mem_cons, here, false_or]

theorem clearBlocks_of_chain {first : Nat} {blocks : List Nat}
    (chain : bat.FileChain first blocks 0xFFFF) {fuel : Nat} (enough : blocks.length < fuel) :
    bat.clearBlocks fuel first blocks.length =
      some (some { bat.clear blocks with
        freeBlocks := (bat.clear blocks).freeBlocks + BitVec.ofNat 16 blocks.length }) := by
  unfold clearBlocks
  rw [bat.collectBlocks_of_chain chain enough]
  simp only [Option.bind_eq_bind, Option.bind_some, gt_iff_lt, Nat.reduceLT, if_true, ne_eq,
    not_true_eq_false, if_false]
  rfl

end BlockAlloc

end Phocoena.Memcard
