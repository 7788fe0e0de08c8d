import Phocoena.GCMemcard.Opening
import Phocoena.Lib.Chain

/-! # Walks along the block allocation map

The walks of `GCMemcard` along the block allocation map: `GetSaveData`, `GetSaveDataBytes` and
`ClearBlocks` on the cards that `Open` accepts.
-/

namespace Phocoena.Memcard

/-- The two numbers that end a chain of blocks: 0xFFFF after the last block of a file and 0 for a
block that is not allocated. -/
def IsEnd (block : Nat) : Prop := block = 0 ∨ block = 0xFFFF

instance : DecidablePred IsEnd := fun block => inferInstanceAs (Decidable (block = 0 ∨ block = 0xFFFF))

namespace BlockAlloc

variable (bat : BlockAlloc)

theorem entry_lt (block : Nat) : bat.entry block < 2 ^ 16 := BitVec.isLt _

theorem getNextBlock_lt (block : Nat) : bat.getNextBlock block < 2 ^ 16 := by
  unfold getNextBlock
  split
  · decide
  · exact bat.entry_lt block

/-- Only a block with an entry in the map has a successor. -/
theorem inside_of_getNextBlock {block : Nat} (linked : bat.getNextBlock block ≠ 0) :
    5 ≤ block ∧ block ≤ 4091 := by
  unfold getNextBlock MC_FST_BLOCKS at linked
  split at linked
  · exact absurd rfl linked
  · omega

/-- The chain of a file as the map has it. -/
abbrev FileChain (first : Nat) (blocks : List Nat) (last : Nat) : Prop :=
  Chain bat.getNextBlock IsEnd first blocks last

/-- A chain that ends is no longer than the map: this is where it ends. -/
def Ends (first : Nat) : Prop := ∃ n ≤ BAT_SIZE, IsEnd (bat.getNextBlock^[n] first)

theorem length_le_of_fileChain {first last : Nat} {blocks : List Nat}
    (chain : bat.FileChain first blocks last) : blocks.length ≤ BAT_SIZE := by
  have bound := @Chain.length_le _ IsEnd first last 5 4091 blocks chain fun c goes => by
    have inside := bat.inside_of_getNextBlock fun zero => goes (.inl zero)
    exact Finset.mem_Icc.mpr inside
  exact Nat.le_trans bound (by decide)

theorem ends_iff (first : Nat) : bat.Ends first ↔ ∃ blocks last, bat.FileChain first blocks last := by
  constructor
  · rintro ⟨n, -, stops⟩
    obtain ⟨blocks, last, chain, -⟩ := Chain.of_iterate stops
    exact ⟨blocks, last, chain⟩
  · rintro ⟨blocks, last, chain⟩
    refine ⟨blocks.length, bat.length_le_of_fileChain chain, ?_⟩
    rw [chain.iterate_length]
    exact chain.stop_last

theorem collectBlocks_of_chain {first last : Nat} {blocks : List Nat}
    (chain : bat.FileChain first blocks last) {fuel : Nat} (enough : blocks.length < fuel) :
    bat.collectBlocks fuel first = some (blocks, last) := by
  induction chain generalizing fuel with
  | done ends =>
    cases fuel with
    | zero => exact absurd enough (Nat.not_lt_zero _)
    | succ fuel => exact if_neg fun goes => ends.elim goes.2 goes.1
  | link goes _ ih =>
    cases fuel with
    | zero => exact absurd enough (Nat.not_lt_zero _)
    | succ fuel =>
      rw [collectBlocks, if_pos ⟨fun h => goes (.inr h), fun h => goes (.inl h)⟩,
        ih (Nat.lt_of_succ_lt_succ enough)]
      rfl

theorem chain_of_collectBlocks {fuel first last : Nat} {blocks : List Nat}
    (h : bat.collectBlocks fuel first = some (blocks, last)) : bat.FileChain first blocks last := by
  induction fuel generalizing first blocks with
  | zero => cases h
  | succ fuel ih =>
    rw [collectBlocks] at h
    split at h
    · next goes =>
      obtain ⟨⟨rest, stop⟩, found, eq⟩ := Option.map_eq_some_iff.mp h
      cases eq
      exact .link (fun ends => ends.elim goes.2 goes.1) (ih found)
    · next stays =>
      cases h
      refine .done ?_
      unfold IsEnd
      omega

/-- `ClearBlocks` comes to an end exactly on the chains that have one. -/
theorem clearBlocks_terminates (first count : Nat) :
    (∃ fuel, (bat.clearBlocks fuel first count).isSome) ↔ bat.Ends first := by
  rw [ends_iff]
  have same (fuel : Nat) : (bat.clearBlocks fuel first count).isSome =
      (bat.collectBlocks fuel first).isSome := by
    unfold clearBlocks
    cases bat.collectBlocks fuel first with
    | none => rfl
    | some found =>
      dsimp only [Option.bind_eq_bind, Option.bind_some]
      repeat' split
      all_goals rfl
  constructor
  · rintro ⟨fuel, done⟩
    rw [same] at done
    obtain ⟨⟨blocks, last⟩, found⟩ := Option.isSome_iff_exists.mp done
    exact ⟨blocks, last, bat.chain_of_collectBlocks found⟩
  · rintro ⟨blocks, last, chain⟩
    refine ⟨blocks.length + 1, ?_⟩
    rw [same, bat.collectBlocks_of_chain chain (Nat.lt_succ_self _)]
    rfl

end BlockAlloc

/-! ## Blocks of data -/

section Card

variable {card : GCMemcard}

theorem Opened.bounds (opened : Opened card) :
    card.blockMax = card.sizeBlocks ∧ card.dataBlocks.length + 5 = card.sizeBlocks ∧
      card.sizeBlocks ≤ 2048 := by
  have size := pos_of_valid opened.sizeMb
  have blocks := opened.sizeBlocks
  have data := opened.dataBlocks
  unfold MBIT_TO_BLOCKS at blocks
  unfold MC_FST_BLOCKS at data
  refine ⟨?_, ?_, ?_⟩
  · unfold GCMemcard.blockMax MC_FST_BLOCKS
    omega
  · omega
  · omega

theorem dataIndex_of_le {block : Nat} (le : 5 ≤ block) (lt : block < 2 ^ 16) :
    GCMemcard.dataIndex block = block - 5 := by
  unfold GCMemcard.dataIndex MC_FST_BLOCKS
  omega

/-- The data blocks are the ones from 5 to the size of the card. -/
theorem fetch_data_iff (opened : Opened card) {block : Nat} (lt : block < 2 ^ 16) :
    (∃ data, fetch card.dataBlocks (GCMemcard.dataIndex block) = .ok data) ↔
      5 ≤ block ∧ block < card.sizeBlocks := by
  obtain ⟨-, length, size⟩ := opened.bounds
  have inside : (∃ data, fetch card.dataBlocks (GCMemcard.dataIndex block) = .ok data) ↔
      GCMemcard.dataIndex block < card.dataBlocks.length := by
    simp only [fetch_ok, List.getElem?_eq_some_iff]
    exact ⟨fun ⟨_, bound, _⟩ => bound, fun bound => ⟨_, bound, rfl⟩⟩
  rw [inside]
  unfold GCMemcard.dataIndex MC_FST_BLOCKS
  omega

/-! ## `GetSaveData` -/

theorem copyChain_end {block : Nat} (ends : IsEnd block) (rounds : Nat) (blocks : List GCMBlock) :
    card.copyChain (rounds + 1) block blocks = .ok (.fail, blocks) := if_pos ends

theorem copyChain_link {block : Nat} (goes : ¬ IsEnd block) (rounds : Nat) (blocks : List GCMBlock) :
    card.copyChain (rounds + 1) block blocks =
      (fetch card.dataBlocks (GCMemcard.dataIndex block) >>= fun data =>
        card.copyChain rounds (card.getActiveBat.getNextBlock block) (blocks ++ [data])) :=
  if_neg goes

/-- On a chain inside the card the loop collects the data of its blocks. -/
theorem copyChain_of_chain {first last : Nat} {blocks : List Nat}
    (chain : card.getActiveBat.FileChain first blocks last)
    (inside : ∀ block ∈ blocks, 5 ≤ block ∧ block < card.dataBlocks.length + 5)
    (small : card.dataBlocks.length + 5 ≤ 2 ^ 16) (found : List GCMBlock) :
    card.copyChain blocks.length first found =
      .ok (.success, found ++ blocks.map fun block =>
        (card.dataBlocks[block - 5]?).getD GCMBlock.erased) := by
  induction blocks generalizing first found with
  | nil => rw [List.map_nil, List.append_nil, List.length_nil, GCMemcard.copyChain]
  | cons block blocks ih =>
    obtain ⟨rfl, goes, rest⟩ := Chain.cons_iff.mp chain
    have bound := inside first List.mem_cons_self
    have lt : first - 5 < card.dataBlocks.length := by omega
    have fetched : fetch card.dataBlocks (first - 5) = .ok card.dataBlocks[first - 5] :=
      fetch_ok.mpr (List.getElem?_eq_getElem lt)
    rw [List.length_cons, copyChain_link goes, dataIndex_of_le bound.1 (by omega), fetched,
      Access.ok_bind, ih rest fun c mem => inside c (List.mem_cons_of_mem first mem),
      List.append_assoc, List.map_cons, List.getElem?_eq_getElem lt]
    rfl

theorem copyChain_success {rounds block : Nat} {blocks found : List GCMBlock}
    (h : card.copyChain (rounds + 1) block blocks = .ok (.success, found)) :
    ∃ data, fetch card.dataBlocks (GCMemcard.dataIndex block) = .ok data ∧
      card.copyChain rounds (card.getActiveBat.getNextBlock block) (blocks ++ [data]) =
        .ok (.success, found) := by
  by_cases ends : IsEnd block
  · rw [copyChain_end ends] at h
    cases h
  · rw [copyChain_link ends] at h
    cases fetched : fetch card.dataBlocks (GCMemcard.dataIndex block) with
    | error e =>
      rw [fetched] at h
      cases h
    | ok data =>
      rw [fetched] at h
      exact ⟨data, rfl, h⟩

theorem copyChain_ok_iff (opened : Opened card) {rounds block : Nat} (lt : block < 2 ^ 16)
    (blocks : List GCMBlock) :
    (∃ r, card.copyChain rounds block blocks = .ok r) ↔
      ∀ i < rounds, (∀ j ≤ i, ¬ IsEnd (card.getActiveBat.getNextBlock^[j] block)) →
        5 ≤ card.getActiveBat.getNextBlock^[i] block ∧
          card.getActiveBat.getNextBlock^[i] block < card.sizeBlocks := by
  induction rounds generalizing block blocks with
  | zero => exact ⟨fun _ i lt => absurd lt (Nat.not_lt_zero i), fun _ => ⟨_, rfl⟩⟩
  | succ rounds ih =>
    by_cases ends : IsEnd block
    · rw [copyChain_end ends]
      exact ⟨fun _ i _ goes => absurd ends (goes 0 (Nat.zero_le i)), fun _ => ⟨_, rfl⟩⟩
    · rw [copyChain_link ends]
      constructor
      · rintro ⟨r, ok⟩ i lt_rounds goes
        cases fetched : fetch card.dataBlocks (GCMemcard.dataIndex block) with
        | error e =>
          rw [fetched] at ok
          cases ok
        | ok data =>
          cases i with
          | zero => exact (fetch_data_iff opened lt).mp ⟨data, fetched⟩
          | succ i =>
            rw [fetched] at ok
            exact (ih (card.getActiveBat.getNextBlock_lt block) (blocks ++ [data])).mp ⟨r, ok⟩ i
              (Nat.lt_of_succ_lt_succ lt_rounds)
              fun j le => goes (j + 1) (Nat.succ_le_succ le)
      · intro inside
        obtain ⟨data, fetched⟩ := (fetch_data_iff opened lt).mpr
          (inside 0 (Nat.succ_pos rounds) fun j le => by
            obtain rfl := Nat.le_zero.mp le
            exact ends)
        obtain ⟨r, ok⟩ := (ih (card.getActiveBat.getNextBlock_lt block) (blocks ++ [data])).mpr
          fun i lt_rounds goes => inside (i + 1) (Nat.succ_lt_succ lt_rounds) fun j le => by
            cases j with
            | zero => exact ends
            | succ j => exact goes j (Nat.le_of_succ_le_succ le)
        refine ⟨r, ?_⟩
        rw [fetched]
        exact ok

/-! ## `GetSaveDataBytes` -/

theorem skipBlocks_inside {offset block : Nat} {found : Fin BLOCK_SIZE × Nat}
    (inside : MC_FST_BLOCKS ≤ block ∧ block < card.blockMax)
    (h : card.skipBlocks offset block = some found) :
    MC_FST_BLOCKS ≤ found.2 ∧ found.2 < card.blockMax := by
  fun_induction GCMemcard.skipBlocks card offset block with
  | case1 =>
    cases h
    exact inside
  | case2 => cases h
  | case3 offset block _ next stays ih => exact ih (by omega) h

theorem copyBytes_ok (opened : Opened card) (offset : Fin BLOCK_SIZE) {block : Nat}
    (remaining : Nat) (result : List Byte)
    (inside : MC_FST_BLOCKS ≤ block ∧ block < card.blockMax) :
    ∃ r, card.copyBytes offset block remaining result = .ok r := by
  have bounds := opened.bounds
  induction remaining using Nat.strong_induction_on generalizing offset block result with
  | _ remaining ih =>
    unfold MC_FST_BLOCKS at inside
    obtain ⟨data, fetched⟩ := (fetch_data_iff opened (by omega)).mpr ⟨inside.1, bounds.1 ▸ inside.2⟩
    rw [GCMemcard.copyBytes, fetched, Access.ok_bind]
    dsimp only
    split
    · exact ⟨_, rfl⟩
    · split
      · exact ⟨_, rfl⟩
      · next more stays =>
        have := offset.isLt
        exact ih _ (by omega) _ _ (by omega)

theorem getSaveDataBytes_ok (opened : Opened card) (index offset length : Nat) :
    ∃ r, card.getSaveDataBytes index offset length = .ok r := by
  unfold GCMemcard.getSaveDataBytes
  split
  · exact ⟨_, rfl⟩
  · split
    · exact ⟨_, rfl⟩
    · dsimp only
      split
      · exact ⟨_, rfl⟩
      · next first =>
        split
        · exact ⟨_, rfl⟩
        · split
          · exact ⟨_, rfl⟩
          · next found =>
            exact copyBytes_ok opened _ _ [] (skipBlocks_inside (by omega) found)

theorem copyBytes_block {block : Nat} {data : GCMBlock}
    (fetched : fetch card.dataBlocks (GCMemcard.dataIndex block) = .ok data) (rounds : Nat)
    (bytes : List Byte) :
    card.copyBytes ⟨0, by decide⟩ block ((rounds + 1) * BLOCK_SIZE) bytes =
      if rounds = 0 then .ok (some (bytes ++ data.toList))
      else
        let next := card.getActiveBat.getNextBlock block
        if next < MC_FST_BLOCKS ∨ next ≥ card.blockMax then .ok none
        else card.copyBytes ⟨0, by decide⟩ next (rounds * BLOCK_SIZE) (bytes ++ data.toList) := by
  have left : min ((rounds + 1) * BLOCK_SIZE) (BLOCK_SIZE - 0) = BLOCK_SIZE := by
    unfold BLOCK_SIZE
    omega
  have remaining : (rounds + 1) * BLOCK_SIZE - BLOCK_SIZE = rounds * BLOCK_SIZE := by
    rw [Nat.succ_mul, Nat.add_sub_cancel]
  have none_left : rounds * BLOCK_SIZE = 0 ↔ rounds = 0 := by
    unfold BLOCK_SIZE
    omega
  have whole : (data.toList.drop 0).take BLOCK_SIZE = data.toList :=
    List.take_of_length_le (Nat.le_of_eq data.length_toList)
  rw [GCMemcard.copyBytes, fetched, Access.ok_bind]
  simp only [left, remaining, none_left, whole]
  rfl

/-- What `GetSaveData` collects is what `GetSaveDataBytes` copies from the same block on. -/
theorem copyBytes_of_copyChain (opened : Opened card) {rounds block : Nat} (lt : block < 2 ^ 16)
    {blocks found : List GCMBlock} (bytes : List Byte)
    (h : card.copyChain (rounds + 1) block blocks = .ok (.success, found)) :
    ∃ copied, found = blocks ++ copied ∧ (5 ≤ block ∧ block < card.sizeBlocks) ∧
      card.copyBytes ⟨0, by decide⟩ block ((rounds + 1) * BLOCK_SIZE) bytes =
        .ok (some (bytes ++ copied.flatMap Vector.toList)) := by
  have max := opened.bounds.1
  induction rounds generalizing block blocks bytes with
  | zero =>
    obtain ⟨data, fetched, rest⟩ := copyChain_success h
    cases rest
    refine ⟨[data], rfl, (fetch_data_iff opened lt).mp ⟨data, fetched⟩, ?_⟩
    rw [copyBytes_block fetched, if_pos rfl, List.flatMap_singleton]
  | succ rounds ih =>
    obtain ⟨data, fetched, rest⟩ := copyChain_success h
    obtain ⟨copied, rfl, inside, same⟩ := ih (card.getActiveBat.getNextBlock_lt block)
      (bytes ++ data.toList) rest
    refine ⟨data :: copied, by rw [List.append_assoc, List.singleton_append],
      (fetch_data_iff opened lt).mp ⟨data, fetched⟩, ?_⟩
    rw [copyBytes_block fetched, if_neg (Nat.succ_ne_zero rounds)]
    dsimp only
    rw [if_neg (by unfold MC_FST_BLOCKS; omega), same, List.append_assoc, List.flatMap_cons]

end Card

end Phocoena.Memcard
