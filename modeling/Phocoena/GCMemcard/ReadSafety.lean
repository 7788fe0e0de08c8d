import Phocoena.GCMemcard.ChainWalks
import Phocoena.GCMemcard.Opening

/-! # The readers of a memory card

Whether the readers of a memory card stay inside its data and come to an end. `Open` compares the
chains of the used entries with their lengths, so that these chains end, but it does not compare
them with the size of the card, and it does not look at the unused entries at all.
-/

namespace Phocoena.Memcard

/-- The blocks of an entry that `GetSaveData` goes through are blocks of the card. The entries whose
first block or length is greater than the card are refused before that. -/
def StaysInside (card : GCMemcard) (entry : DEntry) : Prop :=
  entry.firstBlock.toNat ≤ card.sizeBlocks → entry.blockCount.toNat ≤ card.sizeBlocks →
    ∀ i < entry.blockCount.toNat,
      (∀ j ≤ i, ¬ IsEnd (card.getActiveBat.getNextBlock^[j] entry.firstBlock.toNat)) →
        5 ≤ card.getActiveBat.getNextBlock^[i] entry.firstBlock.toNat ∧
          card.getActiveBat.getNextBlock^[i] entry.firstBlock.toNat < card.sizeBlocks

/-- The reading functions and `RemoveFile` behave for the directory entry `index`: no access is out
of bounds, the removal comes to an end, and an exported file has the bytes that
`GetSaveDataBytes` gives. -/
structure ReadsSafely (card : GCMemcard) (index : Nat) : Prop where
  getSaveData : ∃ r, card.getSaveData index = .ok r
  exportFile : ∃ r, card.exportFile index = .ok r
  getSaveDataBytes : ∀ offset length, ∃ r, card.getSaveDataBytes index offset length = .ok r
  removeFile : ∃ fuel, (GCMemcard.removeFile fuel card index).isSome
  exported : ∀ savefile, card.exportFile index = .ok (some savefile) →
    card.getSaveDataBytes index 0 (2 ^ 64 - 1) = .ok (some (savefile.blocks.flatMap Vector.toList))

section Entry

variable {card : GCMemcard} {index : Nat} {entry : DEntry}

theorem getSaveData_of_entry (opened : Opened card)
    (at_index : card.getActiveDirectory.dirEntries[index]? = some entry) :
    card.getSaveData index =
      if entry.firstBlock.toNat ≤ card.sizeBlocks ∧ entry.blockCount.toNat ≤ card.sizeBlocks
      then card.copyChain entry.blockCount.toNat entry.firstBlock.toNat [] else .ok (.fail, []) := by
  obtain ⟨-, -, size⟩ := opened.bounds
  unfold GCMemcard.getSaveData GCMemcard.dEntryFirstBlock GCMemcard.dEntryBlockCount
  simp only [opened.valid, at_index, Bool.not_true, Bool.false_eq_true, if_false]
  by_cases first : entry.firstBlock.toNat ≤ card.sizeBlocks
  · by_cases count : entry.blockCount.toNat ≤ card.sizeBlocks
    · rw [if_neg (Nat.not_lt.mpr first), if_neg (Nat.not_lt.mpr count), if_neg (by omega),
        if_pos ⟨first, count⟩]
    · rw [if_pos (Nat.not_le.mp count), if_pos (.inr rfl), if_neg fun h => count h.2]
  · rw [if_pos (Nat.not_le.mp first), if_pos (.inl rfl), if_neg fun h => first h.1]

theorem getSaveData_ok_iff (opened : Opened card)
    (at_index : card.getActiveDirectory.dirEntries[index]? = some entry) :
    (∃ r, card.getSaveData index = .ok r) ↔ StaysInside card entry := by
  rw [getSaveData_of_entry opened at_index]
  by_cases sized : entry.firstBlock.toNat ≤ card.sizeBlocks ∧
      entry.blockCount.toNat ≤ card.sizeBlocks
  · rw [if_pos sized, copyChain_ok_iff opened (BitVec.isLt _)]
    exact ⟨fun inside _ _ => inside, fun inside => inside sized.1 sized.2⟩
  · rw [if_neg sized]
    exact ⟨fun _ first count => absurd ⟨first, count⟩ sized, fun _ => ⟨_, rfl⟩⟩

theorem exportFile_of_entry (opened : Opened card)
    (at_index : card.getActiveDirectory.dirEntries[index]? = some entry) :
    card.exportFile index =
      if entry.isUsed then
        card.getSaveData index >>= fun (result, blocks) =>
          .ok (if result ≠ .success then none else some { dirEntry := entry, blocks })
      else .ok none := by
  unfold GCMemcard.exportFile
  simp only [opened.valid, at_index, Bool.not_true, Bool.false_eq_true, if_false]
  cases entry.isUsed <;> rfl

/-- A used entry has blocks. -/
theorem blockCount_pos (opened : Opened card)
    (at_index : card.getActiveDirectory.dirEntries[index]? = some entry)
    (used : entry.isUsed = true) : 0 < entry.blockCount.toNat := by
  have mem : entry ∈ card.getActiveDirectory.dirEntries.toList :=
    Vector.mem_toList_iff.mpr (Vector.mem_of_getElem? at_index)
  have same := opened.consistent entry mem used
  cases count : entry.blockCount.toNat with
  | zero =>
    rw [count] at same
    exact absurd same Bool.false_ne_true
  | succ n => exact Nat.succ_pos n

theorem exported_bytes (opened : Opened card)
    (at_index : card.getActiveDirectory.dirEntries[index]? = some entry) {savefile : Savefile}
    (exported : card.exportFile index = .ok (some savefile)) :
    card.getSaveDataBytes index 0 (2 ^ 64 - 1) =
      .ok (some (savefile.blocks.flatMap Vector.toList)) := by
  obtain ⟨max, -, size⟩ := opened.bounds
  rw [exportFile_of_entry opened at_index] at exported
  cases used : entry.isUsed with
  | false =>
    rw [used] at exported
    cases exported
  | true =>
    rw [used, if_pos rfl, getSaveData_of_entry opened at_index] at exported
    split at exported
    · next sized =>
      cases count : entry.blockCount.toNat with
      | zero => exact absurd (blockCount_pos opened at_index used) (by omega)
      | succ rounds =>
        rw [count] at exported sized
        cases collected : card.copyChain (rounds + 1) entry.firstBlock.toNat [] with
        | error e =>
          rw [collected] at exported
          cases exported
        | ok found =>
          obtain ⟨result, blocks⟩ := found
          rw [collected, Access.ok_bind] at exported
          cases result with
          | success =>
            cases exported
            obtain ⟨copied, rfl, inside, bytes⟩ :=
              copyBytes_of_copyChain opened (BitVec.isLt _) [] collected
            unfold GCMemcard.getSaveDataBytes
            simp only [opened.valid, at_index, Bool.not_true, Bool.false_eq_true, if_false]
            have fits : 0 < (rounds + 1) * BLOCK_SIZE ∧ (rounds + 1) * BLOCK_SIZE ≤ 2 ^ 64 - 1 := by
              unfold BLOCK_SIZE
              omega
            rw [count, if_neg (by unfold MC_FST_BLOCKS; omega), if_neg (by omega), GCMemcard.skipBlocks,
              dif_pos (by decide), Nat.sub_zero, Nat.min_eq_right fits.2]
            exact bytes
          | fail => cases exported
          | nomemcard => cases exported
    · cases exported

theorem removeFile_of_entry (opened : Opened card)
    (at_index : card.getActiveDirectory.dirEntries[index]? = some entry) :
    (∃ fuel, (GCMemcard.removeFile fuel card index).isSome) ↔
      card.getActiveBat.Ends entry.firstBlock.toNat := by
  rw [← BlockAlloc.clearBlocks_terminates _ _ entry.blockCount.toNat]
  have same (fuel : Nat) : (GCMemcard.removeFile fuel card index).isSome =
      (card.getActiveBat.clearBlocks fuel entry.firstBlock.toNat
        entry.blockCount.toNat).isSome := by
    unfold GCMemcard.removeFile
    simp only [opened.valid, at_index, Bool.not_true, Bool.false_eq_true, if_false]
    cases card.getActiveBat.clearBlocks fuel entry.firstBlock.toNat entry.blockCount.toNat with
    | none => rfl
    | some cleared => cases cleared <;> rfl
  simp only [same]

end Entry

/-- No entry of the directory is at `index`: every function refuses it. -/
theorem readsSafely_of_no_entry {card : GCMemcard} {index : Nat} (opened : Opened card)
    (none_at : card.getActiveDirectory.dirEntries[index]? = none) : ReadsSafely card index where
  getSaveData := by
    unfold GCMemcard.getSaveData GCMemcard.dEntryFirstBlock
    rw [opened.valid, none_at]
    exact ⟨_, rfl⟩
  exportFile := by
    unfold GCMemcard.exportFile
    rw [opened.valid, none_at]
    exact ⟨_, rfl⟩
  getSaveDataBytes := getSaveDataBytes_ok opened index
  removeFile := by
    unfold GCMemcard.removeFile
    rw [opened.valid, none_at]
    exact ⟨0, rfl⟩
  exported savefile h := by
    unfold GCMemcard.exportFile at h
    rw [opened.valid, none_at] at h
    cases h

theorem readsSafely_iff (file : Option (List Byte)) (card : GCMemcard)
    (accepted : (GCMemcard.openFile file).2 = some card) (index : Nat) :
    ReadsSafely card index ↔
      ∀ entry, card.getActiveDirectory.dirEntries[index]? = some entry →
        StaysInside card entry ∧ card.getActiveBat.Ends entry.firstBlock.toNat := by
  have opened := opened_of_openFile accepted
  constructor
  · intro safe entry at_index
    exact ⟨(getSaveData_ok_iff opened at_index).mp safe.getSaveData,
      (removeFile_of_entry opened at_index).mp safe.removeFile⟩
  · intro inside
    cases at_index : card.getActiveDirectory.dirEntries[index]? with
    | none => exact readsSafely_of_no_entry opened at_index
    | some entry =>
      obtain ⟨stays, ends⟩ := inside entry at_index
      have data := (getSaveData_ok_iff opened at_index).mpr stays
      exact
        { getSaveData := data
          exportFile := by
            rw [exportFile_of_entry opened at_index]
            split
            · obtain ⟨r, ok⟩ := data
              rw [ok]
              exact ⟨_, rfl⟩
            · exact ⟨_, rfl⟩
          getSaveDataBytes := getSaveDataBytes_ok opened index
          removeFile := (removeFile_of_entry opened at_index).mpr ends
          exported := fun _ => exported_bytes opened at_index }

/-- A card of 59 blocks right after `Format`. -/
def formattedCard : GCMemcard :=
  GCMemcard.format (Vector.replicate 12 0) 4 false 0 0 0

/-- The formatted card passes and its unused entries are refused. -/
theorem readsSafely_formattedCard :
    (GCMemcard.openFile (some formattedCard.save)).2 = some formattedCard ∧
      ReadsSafely formattedCard 0 := by
  have accepted : (GCMemcard.openFile (some formattedCard.save)).2 = some formattedCard :=
    (openFile_save (savable_format _ false 0 0 0 (by decide))).2
  refine ⟨accepted, (readsSafely_iff (some formattedCard.save) formattedCard accepted 0).mpr ?_⟩
  intro entry at_zero
  have empty : entry = DEntry.empty :=
    Directory.unused_of_mem_empty (Vector.mem_toList_iff.mpr (Vector.mem_of_getElem? at_zero))
  subst empty
  refine ⟨fun first => absurd first (by decide), 0, Nat.zero_le _, .inr (by decide)⟩

/-- The formatted card with an entry in its directory and a link in its map. -/
def tamperedCard (entry : DEntry) (block : Nat) (link freeBlocks : BitVec 16) : GCMemcard :=
  let directory := { Directory.empty with dirEntries := Directory.empty.dirEntries.set 0 entry }
  let bat := { BlockAlloc.formatted 4 with
    map := (BlockAlloc.formatted 4).map.setIfInBounds (block - MC_FST_BLOCKS) link
    freeBlocks := freeBlocks }
  { formattedCard with
    directoryBlocks := ⟨directory.fixChecksums, .empty⟩
    batBlocks := ⟨bat.fixChecksums, bat.fixChecksums⟩ }

/-- A file whose only block is the one after the last block of the card. -/
def overrunCard : GCMemcard :=
  tamperedCard { DEntry.empty with gamecode := Vector.replicate 4 0x47, firstBlock := 64, blockCount := 1 }
    64 0xFFFF 59

/-- An unused entry that points to a block linked to itself. -/
def endlessCard : GCMemcard :=
  tamperedCard { DEntry.empty with firstBlock := 5, blockCount := 1 } 5 5 58

theorem savable_tamperedCard {entry : DEntry} {block : Nat} {link freeBlocks : BitVec 16}
    (free : (tamperedCard entry block link freeBlocks).batBlocks.first.CountsFree 4)
    (consistent : (tamperedCard entry block link freeBlocks).getActiveDirectory.Matches
      (tamperedCard entry block link freeBlocks).getActiveBat) :
    Savable (tamperedCard entry block link freeBlocks) where
  valid := rfl
  sizeMb := List.mem_cons_self
  sizeBlocks := rfl
  dataBlocks := List.length_replicate
  headerSize := rfl
  headerSums := Header.sumsRight_fixChecksums _
  directorySums
    | .first => Directory.sumsRight_fixChecksums _
    | .second => Directory.sumsRight_empty
  batSums
    | .first => BlockAlloc.sumsRight_fixChecksums _
    | .second => BlockAlloc.sumsRight_fixChecksums _
  batFree
    | .first => free
    | .second => free
  activeDirectory := rfl
  activeBat := rfl
  consistent := consistent

theorem accepted_overrunCard :
    (GCMemcard.openFile (some overrunCard.save)).2 = some overrunCard := by
  refine (openFile_save (savable_tamperedCard ?_ ((Directory.critical_withBat_iff _ _).mp ?_))).2
  · change _ = _
    decide +kernel
  · decide +kernel

theorem accepted_endlessCard :
    (GCMemcard.openFile (some endlessCard.save)).2 = some endlessCard := by
  refine (openFile_save (savable_tamperedCard ?_ ((Directory.critical_withBat_iff _ _).mp ?_))).2
  · change _ = _
    decide +kernel
  · decide +kernel

/-- A block linked to itself has no end. -/
theorem BlockAlloc.not_ends_of_loop (bat : BlockAlloc) {block : Nat} (goes : ¬ IsEnd block)
    (loop : bat.getNextBlock block = block) : ¬ bat.Ends block := by
  rintro ⟨n, -, ends⟩
  rw [Function.iterate_fixed loop] at ends
  exact goes ends

/-- Two cards that `Open` accepts: on one the export of the first file reads past the data, on the
other the removal of the first entry never ends. -/
theorem not_readsSafely_overrunCard :
    ((GCMemcard.openFile (some overrunCard.save)).2 = some overrunCard ∧
      overrunCard.exportFile 0 = .error .outOfBounds ∧ ¬ ReadsSafely overrunCard 0) ∧
    (GCMemcard.openFile (some endlessCard.save)).2 = some endlessCard ∧
      (∀ fuel, GCMemcard.removeFile fuel endlessCard 0 = none) ∧ ¬ ReadsSafely endlessCard 0 := by
  have overrun : overrunCard.exportFile 0 = .error .outOfBounds := by decide +kernel
  have endless : ¬ ∃ fuel, (GCMemcard.removeFile fuel endlessCard 0).isSome := by
    have at_zero : endlessCard.getActiveDirectory.dirEntries[0]? =
        some { DEntry.empty with firstBlock := 5, blockCount := 1 } := by decide +kernel
    rw [removeFile_of_entry (opened_of_openFile accepted_endlessCard) at_zero]
    exact BlockAlloc.not_ends_of_loop _ (by decide) (by decide +kernel)
  refine ⟨⟨accepted_overrunCard, overrun, fun safe => ?_⟩, accepted_endlessCard, fun fuel => ?_,
    fun safe => endless safe.removeFile⟩
  · obtain ⟨r, ok⟩ := safe.exportFile
    rw [overrun] at ok
    cases ok
  · cases removed : GCMemcard.removeFile fuel endlessCard 0 with
    | none => rfl
    | some r => exact absurd ⟨fuel, by rw [removed]; rfl⟩ endless

end Phocoena.Memcard
