import Phocoena.GCMemcard.FileSystem
import Phocoena.GCMemcard.ReadSafety

/-! # Importing and removing files

What `ImportFile` and `RemoveFile` do to a sound card, and that they keep it sound.
-/

namespace Phocoena.Memcard

open GCMemcard BlockAlloc

/-- A card whose file system is in order. -/
structure Sound (card : GCMemcard) : Prop where
  valid : card.valid = true
  sizeMb : card.sizeMb ∈ validMegabits
  sizeBlocks : card.sizeBlocks = card.sizeMb * MBIT_TO_BLOCKS
  dataBlocks : card.dataBlocks.length = card.sizeBlocks - MC_FST_BLOCKS
  headerSize : card.headerBlock.data.sizeMb.toNat = card.sizeMb
  headerSums : card.headerBlock.SumsRight
  directorySums : ∀ i : Copy, (card.directoryBlocks.get i).SumsRight
  batSums : ∀ i : Copy, (card.batBlocks.get i).SumsRight
  batFree : ∀ i : Copy, (card.batBlocks.get i).CountsFree card.sizeMb
  directoryTurn : Alternates Directory.updateCounter card.directoryBlocks card.activeDirectory
  batTurn : Alternates BlockAlloc.updateCounter card.batBlocks card.activeBat
  lastAllocated : card.getActiveBat.lastAllocatedBlock.toNat < card.sizeBlocks
  laidOut : LaidOut card.getActiveDirectory card.getActiveBat card.sizeBlocks

section Card

variable {card : GCMemcard}

theorem Sound.opened (sound : Sound card) : Opened card where
  valid := sound.valid
  sizeMb := sound.sizeMb
  sizeBlocks := sound.sizeBlocks
  dataBlocks := sound.dataBlocks
  consistent := sound.laidOut.matches

/-- No counter is at the greatest signed value. -/
def CountersBelow (card : GCMemcard) : Prop :=
  ∀ i : Copy, (card.directoryBlocks.get i).updateCounter.toInt < 32767 ∧
    (card.batBlocks.get i).updateCounter.toInt < 32767

theorem Sound.savable (sound : Sound card) (below : CountersBelow card) : Savable card :=
  { sound with
    activeDirectory := sound.directoryTurn.selected fun i => (below i).1
    activeBat := sound.batTurn.selected fun i => (below i).2
    consistent := sound.laidOut.matches }

theorem Sound.freeBlocks (sound : Sound card) :
    (card.getActiveBat.freeSet card.sizeBlocks).card = card.getActiveBat.freeBlocks.toNat := by
  rw [sound.sizeBlocks]
  exact (countsFree_iff _ sound.sizeMb).mp (sound.batFree card.activeBat)

theorem sound_format (flashId : Vector Byte 12) {sizeMbits : BitVec 16} (shiftJis : Bool)
    (rtcBias sramLanguage : BitVec 32) (formatTime : BitVec 64)
    (valid : sizeMbits.toNat ∈ validMegabits) :
    Sound (GCMemcard.format flashId sizeMbits shiftJis rtcBias sramLanguage formatTime) :=
  { savable_format flashId shiftJis rtcBias sramLanguage formatTime valid with
    directoryTurn := .inl ⟨rfl, rfl⟩
    batTurn := .inl ⟨rfl, rfl⟩
    lastAllocated := by
      have := (pos_of_valid valid).1
      change 4 < sizeMbits.toNat * MBIT_TO_BLOCKS
      unfold MBIT_TO_BLOCKS
      omega
    laidOut :=
      { files := fun index entry at_index used => by
          have empty := Directory.unused_of_mem_empty
            (Vector.mem_toList_iff.mpr (Vector.mem_of_getElem? at_index))
          rw [empty] at used
          exact absurd used (by decide)
        apart := fun {i _ entry _ _ _} file _ _ => by
          have empty := Directory.unused_of_mem_empty
            (Vector.mem_toList_iff.mpr (Vector.mem_of_getElem? file.at_index))
          have used := file.used
          rw [empty] at used
          exact absurd used (by decide) } }

/-! ## Writing the system blocks -/

/-- The card after new copies of the directory and of the map are written. -/
def commit (card : GCMemcard) (directory : Directory) (bat : BlockAlloc)
    (dataBlocks : List GCMBlock) : GCMemcard :=
  ({ card.updateDirectory directory with dataBlocks := dataBlocks }.updateBat bat).fixChecksums

variable {directory : Directory} {bat : BlockAlloc} {dataBlocks : List GCMBlock}

theorem commit_eq (valid : card.valid = true) :
    commit card directory bat dataBlocks =
      { card with
        headerBlock := card.headerBlock.fixChecksums
        directoryBlocks := (card.directoryBlocks.set card.activeDirectory.other
          directory).map Directory.fixChecksums
        batBlocks := (card.batBlocks.set card.activeBat.other bat).map BlockAlloc.fixChecksums
        dataBlocks := dataBlocks
        activeDirectory := card.activeDirectory.other
        activeBat := card.activeBat.other } := by
  unfold commit GCMemcard.fixChecksums
  rw [if_neg (by
    change ¬ (!card.valid) = true
    rw [valid]
    decide)]
  rfl

theorem getActiveDirectory_commit (valid : card.valid = true) :
    (commit card directory bat dataBlocks).getActiveDirectory = directory.fixChecksums := by
  rw [commit_eq valid]
  change ((card.directoryBlocks.set card.activeDirectory.other directory).map
    Directory.fixChecksums).get card.activeDirectory.other = _
  rw [Copies.get_map, Copies.get_set_self]

theorem getActiveBat_commit (valid : card.valid = true) :
    (commit card directory bat dataBlocks).getActiveBat = bat.fixChecksums := by
  rw [commit_eq valid]
  change ((card.batBlocks.set card.activeBat.other bat).map
    BlockAlloc.fixChecksums).get card.activeBat.other = _
  rw [Copies.get_map, Copies.get_set_self]

theorem sound_commit (sound : Sound card)
    (directoryAhead : directory.updateCounter = card.getActiveDirectory.updateCounter + 1)
    (batAhead : bat.updateCounter = card.getActiveBat.updateCounter + 1)
    (free : (bat.freeSet card.sizeBlocks).card = bat.freeBlocks.toNat)
    (last : bat.lastAllocatedBlock.toNat < card.sizeBlocks)
    (length : dataBlocks.length = card.dataBlocks.length)
    (laidOut : LaidOut directory bat card.sizeBlocks) :
    Sound (commit card directory bat dataBlocks) := by
  have activeDirectory := @getActiveDirectory_commit card directory bat dataBlocks sound.valid
  have activeBat := @getActiveBat_commit card directory bat dataBlocks sound.valid
  have written : bat.CountsFree card.sizeMb := by
    rw [countsFree_iff _ sound.sizeMb, ← sound.sizeBlocks]
    exact free
  have freeOfEach (i : Copy) :
      ((card.batBlocks.set card.activeBat.other bat).get i).CountsFree card.sizeMb := by
    have others := sound.batFree i
    cases active : card.activeBat <;> cases i <;> first | exact written | exact others
  have sizes := @commit_eq card directory bat dataBlocks sound.valid
  rw [sizes] at activeDirectory activeBat ⊢
  exact
    { valid := sound.valid
      sizeMb := sound.sizeMb
      sizeBlocks := sound.sizeBlocks
      dataBlocks := length.trans sound.dataBlocks
      headerSize := sound.headerSize
      headerSums := Header.sumsRight_fixChecksums _
      directorySums := fun i => by
        rw [Copies.get_map]
        exact Directory.sumsRight_fixChecksums _
      batSums := fun i => by
        rw [Copies.get_map]
        exact BlockAlloc.sumsRight_fixChecksums _
      batFree := fun i => by
        rw [Copies.get_map]
        exact freeOfEach i
      directoryTurn := (alternates_set directoryAhead).map Directory.fixChecksums fun _ => rfl
      batTurn := (alternates_set batAhead).map BlockAlloc.fixChecksums fun _ => rfl
      lastAllocated := by
        rw [activeBat]
        exact last
      laidOut := by
        rw [activeDirectory, activeBat]
        exact laidOut.congr rfl rfl }

/-! ## The data of a file -/

/-- The data blocks of a file. -/
def fileData (card : GCMemcard) (blocks : List Nat) : List GCMBlock :=
  blocks.map fun block => (card.dataBlocks[block - 5]?).getD GCMBlock.erased

theorem exportFile_of_fileAt (opened : Opened card) {index : Nat} {entry : DEntry}
    {blocks : List Nat} (file : FileAt card.getActiveDirectory card.getActiveBat card.sizeBlocks
      index entry blocks) :
    card.exportFile index = .ok (some { dirEntry := entry, blocks := fileData card blocks }) := by
  obtain ⟨-, length, size⟩ := opened.bounds
  have first : entry.firstBlock.toNat ≤ card.sizeBlocks := by
    obtain ⟨block, rest, same⟩ := List.exists_cons_of_ne_nil file.some_block
    have chain := file.chain
    have mem : block ∈ blocks := same ▸ List.mem_cons_self
    rw [same] at chain
    obtain ⟨head, -⟩ := Chain.cons_iff.mp chain
    have := (file.inside block mem).2
    omega
  have count : entry.blockCount.toNat ≤ card.sizeBlocks := by
    have inside : blocks.toFinset ⊆ Finset.range card.sizeBlocks := fun block mem =>
      Finset.mem_range.mpr (file.inside block (List.mem_toFinset.mp mem)).2
    have card_le := Finset.card_le_card inside
    rwa [List.toFinset_card_of_nodup file.chain.nodup, Finset.card_range, file.length] at card_le
  rw [exportFile_of_entry opened file.at_index, if_pos file.used,
    getSaveData_of_entry opened file.at_index, if_pos ⟨first, count⟩, ← file.length,
    copyChain_of_chain file.chain (length ▸ file.inside) (by omega)]
  rfl

/-- Writing new system blocks keeps a file whose entry, links and data are kept. -/
theorem export_commit (sound : Sound card) (committed : Sound (commit card directory bat dataBlocks))
    {index : Nat} {entry : DEntry} {blocks : List Nat}
    (file : FileAt card.getActiveDirectory card.getActiveBat card.sizeBlocks index entry blocks)
    (at_index : directory.dirEntries[index]? = some entry)
    (links : ∀ block ∈ blocks, bat.entry block = card.getActiveBat.entry block)
    (data : ∀ block ∈ blocks, dataBlocks[block - 5]? = card.dataBlocks[block - 5]?) :
    (commit card directory bat dataBlocks).getActiveDirectory.dirEntries[index]? = some entry ∧
      (commit card directory bat dataBlocks).exportFile index = card.exportFile index := by
  have size : (commit card directory bat dataBlocks).sizeBlocks = card.sizeBlocks := by
    rw [commit_eq sound.valid]
  have blocks_eq : (commit card directory bat dataBlocks).dataBlocks = dataBlocks := by
    rw [commit_eq sound.valid]
  have kept : FileAt (commit card directory bat dataBlocks).getActiveDirectory
      (commit card directory bat dataBlocks).getActiveBat
      (commit card directory bat dataBlocks).sizeBlocks index entry blocks := by
    rw [getActiveDirectory_commit sound.valid, getActiveBat_commit sound.valid, size]
    exact file.frame at_index links
  refine ⟨kept.at_index, ?_⟩
  rw [exportFile_of_fileAt committed.opened kept, exportFile_of_fileAt sound.opened file]
  unfold fileData
  rw [blocks_eq, List.map_congr_left fun block mem => by rw [data block mem]]

end Card

end Phocoena.Memcard
