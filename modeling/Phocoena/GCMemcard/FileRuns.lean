import Phocoena.GCMemcard.FileOperations
import Phocoena.Lib.Runs

/-! # Runs of imports and removals

Every sequence of `ImportFile` and `RemoveFile` from a formatted card keeps the card sound, as long
as `PSO_MakeSaveGameValid` finds the second block that it writes to.
-/

namespace Phocoena.Memcard

open GCMemcard BlockAlloc

/-! ## Save files that are bound to a card -/

/-- `PSO_MakeSaveGameValid` writes to the second block of these files. -/
def IsPsoSystem (direntry : DEntry) : Prop :=
  hasFilename direntry "PSO_SYSTEM" = true ∨ hasFilename direntry "PSO3_SYSTEM" = true

theorem modifyBlock_ok {fileBuffer : List GCMBlock} {i : Nat} (inside : i < fileBuffer.length)
    (f : GCMBlock → GCMBlock) :
    ∃ modified, modifyBlock fileBuffer i f = .ok modified ∧
      modified.length = fileBuffer.length := by
  refine ⟨fileBuffer.set i (f fileBuffer[i]), ?_, List.length_set⟩
  rw [modifyBlock, fetch_ok.mpr (List.getElem?_eq_getElem inside), Access.ok_bind,
    store_of_lt inside]

theorem foldlM_ok {α β : Type} {f : β → α → Access β} {as : List α}
    (each : ∀ b, ∀ a ∈ as, ∃ b', f b a = .ok b') (b : β) : ∃ b', as.foldlM f b = .ok b' := by
  induction as generalizing b with
  | nil => exact ⟨b, rfl⟩
  | cons a as ih =>
    obtain ⟨b', ok⟩ := each b a List.mem_cons_self
    obtain ⟨last, rest⟩ := ih (fun b a mem => each b a (List.mem_cons_of_mem _ mem)) b'
    refine ⟨last, ?_⟩
    rw [List.foldlM_cons, ok, Access.ok_bind, rest]

theorem fzerogx_ok (header : Header) (direntry : DEntry) (fileBuffer : List GCMBlock) :
    ∃ fixed, fzerogxMakeSaveGameValid header direntry fileBuffer = .ok fixed ∧
      fixed.length = fileBuffer.length := by
  unfold fzerogxMakeSaveGameValid
  split
  · exact ⟨fileBuffer, rfl, rfl⟩
  · split
    · exact ⟨fileBuffer, rfl, rfl⟩
    · next four =>
      rw [not_not] at four
      obtain ⟨serial1, serial2⟩ := header.calculateSerial
      dsimp only
      obtain ⟨b₁, ok₁, len₁⟩ := @modifyBlock_ok fileBuffer 1 (by omega)
        (putU16 · 0x0066 (swap16 ((swap32 serial1 >>> 16).setWidth 16)))
      obtain ⟨b₂, ok₂, len₂⟩ := @modifyBlock_ok b₁ 3 (by omega)
        (putU16 · 0x1580 (swap16 ((swap32 serial2 >>> 16).setWidth 16)))
      obtain ⟨b₃, ok₃, len₃⟩ := @modifyBlock_ok b₂ 1 (by omega)
        (putU16 · 0x0060 (swap16 ((swap32 serial1).setWidth 16)))
      obtain ⟨b₄, ok₄, len₄⟩ := @modifyBlock_ok b₃ 1 (by omega)
        (putU16 · 0x0200 (swap16 ((swap32 serial2).setWidth 16)))
      obtain ⟨chksum, folded⟩ := @foldlM_ok Nat (BitVec 16)
        (fun chksum i => do
          let block ← fetch b₄ (i / 0x2000)
          return crcRounds 0x8408 8 (chksum ^^^ (block[i % 0x2000]?.getD 0).setWidth 16))
        (List.range' 0x02 (0x8000 - 0x02)) (fun b i mem => by
          rw [List.mem_range'_1] at mem
          rw [fetch_ok.mpr (List.getElem?_eq_getElem (show i / 0x2000 < b₄.length by omega))]
          exact ⟨_, rfl⟩) 0xFFFF
      obtain ⟨b₅, ok₅, len₅⟩ := @modifyBlock_ok b₄ 0 (by omega)
        (putU16 · 0x00 (swap16 (~~~chksum)))
      refine ⟨b₅, ?_, by omega⟩
      rw [ok₁, Access.ok_bind, ok₂, Access.ok_bind, ok₃, Access.ok_bind, ok₄, Access.ok_bind,
        folded, Access.ok_bind, ok₅]

theorem pso_ok (header : Header) (direntry : DEntry) (fileBuffer : List GCMBlock)
    (second : IsPsoSystem direntry → 2 ≤ fileBuffer.length) :
    ∃ fixed, psoMakeSaveGameValid header direntry fileBuffer = .ok fixed ∧
      fixed.length = fileBuffer.length := by
  unfold psoMakeSaveGameValid
  split
  · exact ⟨fileBuffer, rfl, rfl⟩
  · next named =>
    have two : 2 ≤ fileBuffer.length := second (by
      unfold IsPsoSystem
      cases first : hasFilename direntry "PSO_SYSTEM" <;>
        cases third : hasFilename direntry "PSO3_SYSTEM" <;> simp_all)
    obtain ⟨serial1, serial2⟩ := header.calculateSerial
    dsimp only
    obtain ⟨b₁, ok₁, len₁⟩ := @modifyBlock_ok fileBuffer 1 (by omega) (putU32 · 0x0158 serial1)
    obtain ⟨b₂, ok₂, len₂⟩ := @modifyBlock_ok b₁ 1 (by omega) (putU32 · 0x015C serial2)
    rw [ok₁, Access.ok_bind, ok₂, Access.ok_bind,
      fetch_ok.mpr (List.getElem?_eq_getElem (show 1 < b₂.length by omega)), Access.ok_bind]
    obtain ⟨b₃, ok₃, len₃⟩ := @modifyBlock_ok b₂ 1 (by omega) _
    exact ⟨b₃, ok₃, by omega⟩

theorem pso_error (header : Header) {direntry : DEntry} (named : IsPsoSystem direntry)
    {fileBuffer : List GCMBlock} (short : fileBuffer.length < 2) :
    psoMakeSaveGameValid header direntry fileBuffer = .error .outOfBounds := by
  have missing : fetch fileBuffer 1 = .error .outOfBounds := by
    unfold fetch
    rw [List.getElem?_eq_none (by omega)]
  unfold psoMakeSaveGameValid
  split
  · next other =>
    rw [Bool.and_eq_true, Bool.not_eq_true', Bool.not_eq_true'] at other
    rcases named with first | third
    · exact absurd (first.symm.trans other.1) Bool.false_ne_true.symm
    · exact absurd (third.symm.trans other.2) Bool.false_ne_true.symm
  · obtain ⟨serial1, serial2⟩ := header.calculateSerial
    dsimp only
    unfold modifyBlock
    rw [missing]
    rfl

theorem fzerogx_unchanged (header : Header) (direntry : DEntry) {fileBuffer : List GCMBlock}
    (other : fileBuffer.length ≠ 4) :
    fzerogxMakeSaveGameValid header direntry fileBuffer = .ok fileBuffer := by
  unfold fzerogxMakeSaveGameValid
  rw [if_pos other, ite_self]

/-! ## The directory -/

section Directory

variable {directory : Directory}

theorem findIdx_unused (room : directory.dirEntries.toList.countP DEntry.isUsed < DIRLEN) :
    ∃ index, directory.dirEntries.toList.findIdx? (!·.isUsed) = some index := by
  cases found : directory.dirEntries.toList.findIdx? (!·.isUsed) with
  | some index => exact ⟨index, rfl⟩
  | none =>
    have all := List.findIdx?_eq_none_iff.mp found
    rw [List.countP_eq_length.mpr fun entry mem => by simpa using all entry mem,
      Vector.length_toList] at room
    exact absurd room (Nat.lt_irrefl _)

/-- The entry that `addEntry` writes. -/
def importedEntry (direntry : DEntry) (first : Nat) : DEntry :=
  { direntry with
    firstBlock := BitVec.ofNat 16 first
    copyCounter := direntry.copyCounter + 1 }

theorem addEntry_entries {direntry : DEntry} {first index : Nat}
    (found : directory.dirEntries.toList.findIdx? (!·.isUsed) = some index) :
    (addEntry directory direntry first).dirEntries =
      directory.dirEntries.setIfInBounds index (importedEntry direntry first) := by
  unfold addEntry
  rw [found]
  rfl

theorem findIdx_spec {index : Nat}
    (found : directory.dirEntries.toList.findIdx? (!·.isUsed) = some index) :
    index < DIRLEN ∧ ∀ entry, directory.dirEntries[index]? = some entry → entry.isUsed = false := by
  obtain ⟨lt, unused, -⟩ := List.findIdx?_eq_some_iff_getElem.mp found
  rw [Vector.getElem_toList] at unused
  rw [Vector.length_toList] at lt
  refine ⟨lt, fun entry at_index => ?_⟩
  rw [Vector.getElem?_eq_getElem lt] at at_index
  obtain rfl := Option.some.inj at_index
  simpa using unused

end Directory

/-! ## Importing a file -/

section Card

variable {card : GCMemcard}

/-- The map that `ImportFile` writes. -/
def importedBat (bat : BlockAlloc) (fileBlocks : Nat) : BlockAlloc :=
  { bat with
    freeBlocks := bat.freeBlocks - BitVec.ofNat 16 fileBlocks
    updateCounter := bat.updateCounter + 1 }

/-- A save file as the import wants it. -/
structure Importable (savefile : Savefile) : Prop where
  some_block : 1 ≤ savefile.dirEntry.blockCount.toNat
  length : savefile.dirEntry.blockCount.toNat = savefile.blocks.length

/-- The save file has the block that `PSO_MakeSaveGameValid` writes to. -/
def HasSecondBlock (savefile : Savefile) : Prop :=
  IsPsoSystem savefile.dirEntry → 2 ≤ savefile.blocks.length

/-- The checks at the start of `ImportFile` turn the file away. -/
def Refused (card : GCMemcard) (savefile : Savefile) : Prop :=
  card.getNumFiles ≥ DIRLEN ∨
    card.getActiveBat.freeBlocks.toNat < savefile.dirEntry.blockCount.toNat ∨
    (card.titlePresent savefile.dirEntry).isSome = true

/-- `ImportFile` leaves the card alone, or it puts the file on free blocks. -/
theorem importFile_spec (sound : Sound card) {savefile : Savefile} (importable : Importable savefile)
    (inside : Refused card savefile ∨ HasSecondBlock savefile) :
    (∃ r, r ≠ .success ∧ card.importFile savefile = .ok (r, card)) ∨
    ∃ index first blocks result,
      card.getActiveDirectory.dirEntries.toList.findIdx? (!·.isUsed) = some index ∧
      Allocated card.sizeBlocks card.getActiveBat card.dataBlocks first blocks result ∧
      first < card.sizeBlocks ∧ blocks.length = savefile.dirEntry.blockCount.toNat ∧
      card.importFile savefile = .ok (.success, commit card
        (addEntry card.getActiveDirectory savefile.dirEntry first)
        (importedBat result.bat savefile.dirEntry.blockCount.toNat) result.dataBlocks) := by
  obtain ⟨-, data_length, size⟩ := sound.opened.bounds
  have some_block := importable.some_block
  unfold GCMemcard.importFile
  simp only [sound.valid, Bool.not_true, Bool.false_eq_true, if_false]
  split
  · exact .inl ⟨_, by decide, rfl⟩
  · next room =>
    split
    · exact .inl ⟨_, by decide, rfl⟩
    · next enough =>
      split
      · exact .inl ⟨_, by decide, rfl⟩
      · next fresh =>
        right
        have second : HasSecondBlock savefile := inside.resolve_left (by
          rintro (full | short | present)
          · exact room full
          · exact enough short
          · exact fresh present)
        have counted := sound.freeBlocks
        have lastAllocated := sound.lastAllocated
        have nonempty : (card.getActiveBat.freeSet card.sizeBlocks).Nonempty :=
          Finset.card_pos.mp (by omega)
        obtain ⟨free, -⟩ := @nextFreeBlock_spec card.getActiveBat card.sizeBlocks
          card.getActiveBat.lastAllocatedBlock.toNat (by omega) (by omega) (by omega) nonempty
          (by omega)
        generalize card.getActiveBat.nextFreeBlock card.sizeBlocks
          card.getActiveBat.lastAllocatedBlock.toNat = first at free ⊢
        have bound := (card.getActiveBat.mem_freeSet.mp free).1
        have room : card.getActiveDirectory.dirEntries.toList.countP DEntry.isUsed < DIRLEN := by
          unfold GCMemcard.getNumFiles at room
          rw [sound.valid] at room
          exact Nat.not_le.mp room
        obtain ⟨index, found⟩ := findIdx_unused room
        obtain ⟨fixed, ok₁, len₁⟩ := fzerogx_ok card.headerBlock savefile.dirEntry savefile.blocks
        obtain ⟨files, ok₂, len₂⟩ := pso_ok card.headerBlock savefile.dirEntry fixed
          (len₁ ▸ second)
        cases count : savefile.dirEntry.blockCount.toNat with
        | zero => omega
        | succ rounds =>
          have length := importable.length
          obtain ⟨result, blocks, ok₃, len₃, allocated⟩ := @copyBlocks_spec card.sizeBlocks
            card.getActiveBat card.dataBlocks files first size rounds (by omega) data_length free
            (by omega) 0 (by omega)
          refine ⟨index, first, blocks, result, found, allocated, bound.2, len₃, ?_⟩
          rw [if_neg (by omega)]
          change (fzerogxMakeSaveGameValid card.headerBlock savefile.dirEntry savefile.blocks >>=
            fun blocks => psoMakeSaveGameValid card.headerBlock savefile.dirEntry blocks >>=
            fun blocks => copyBlocks card.sizeBlocks blocks (rounds + 1) 0
              ⟨card.getActiveBat, card.dataBlocks, first⟩ >>= fun _ => _) = _
          rw [ok₁, Access.ok_bind, ok₂, Access.ok_bind, ok₃, Access.ok_bind]
          rfl

/-- The system file of one block that is not turned away is written to past its end. -/
theorem importFile_error (sound : Sound card) {savefile : Savefile}
    (importable : Importable savefile) (accepted : ¬ Refused card savefile)
    (short : ¬ HasSecondBlock savefile) :
    card.importFile savefile = .error .outOfBounds := by
  obtain ⟨named, length⟩ := Classical.not_imp.mp short
  obtain ⟨-, data_length, size⟩ := sound.opened.bounds
  have some_block := importable.some_block
  have counted := sound.freeBlocks
  have lastAllocated := sound.lastAllocated
  unfold Refused at accepted
  rw [not_or, not_or] at accepted
  obtain ⟨room, enough, fresh⟩ := accepted
  obtain ⟨free, -⟩ := @nextFreeBlock_spec card.getActiveBat card.sizeBlocks
    card.getActiveBat.lastAllocatedBlock.toNat (by omega) (by omega) (by omega)
    (Finset.card_pos.mp (by omega)) (by omega)
  have bound := (card.getActiveBat.mem_freeSet.mp free).1
  unfold GCMemcard.importFile
  simp only [sound.valid, Bool.not_true, Bool.false_eq_true, if_false, room, enough, fresh]
  rw [if_neg (by omega)]
  change (fzerogxMakeSaveGameValid card.headerBlock savefile.dirEntry savefile.blocks >>=
    fun blocks => psoMakeSaveGameValid card.headerBlock savefile.dirEntry blocks >>= fun _ => _) = _
  rw [fzerogx_unchanged _ _ (by omega), Access.ok_bind, pso_error _ named (by omega)]
  rfl

theorem importedEntry_firstBlock {first : Nat} (lt : first < 2 ^ 16) (direntry : DEntry) :
    (importedEntry direntry first).firstBlock.toNat = first := by
  change (BitVec.ofNat 16 first).toNat = first
  rw [BitVec.toNat_ofNat, Nat.mod_eq_of_lt lt]

/-- What an import that succeeds has done. -/
structure Imports (card : GCMemcard) (direntry : DEntry) (index first : Nat) (blocks : List Nat)
    (result : Copying) : Prop where
  found : card.getActiveDirectory.dirEntries.toList.findIdx? (!·.isUsed) = some index
  allocated : Allocated card.sizeBlocks card.getActiveBat card.dataBlocks first blocks result
  first_lt : first < card.sizeBlocks
  length : blocks.length = direntry.blockCount.toNat
  some_block : 1 ≤ direntry.blockCount.toNat

theorem sound_import (sound : Sound card) {direntry : DEntry} {index first : Nat}
    {blocks : List Nat} {result : Copying}
    (imports : Imports card direntry index first blocks result) :
    Sound (commit card (addEntry card.getActiveDirectory direntry first)
      (importedBat result.bat direntry.blockCount.toNat) result.dataBlocks) := by
  obtain ⟨found, allocated, first_lt, length, some_block⟩ := imports
  obtain ⟨-, -, size⟩ := sound.opened.bounds
  obtain ⟨index_lt, -⟩ := findIdx_spec found
  have entries := @addEntry_entries card.getActiveDirectory direntry first index found
  have free := BlockAlloc.card_freeSet_add allocated.chain.nodup allocated.free
    (fun block mem => allocated.chain.not_mem_freeSet mem)
    allocated.entries
  apply sound_commit sound
  · rfl
  · change result.bat.updateCounter + 1 = _
    rw [allocated.updateCounter]
  · change (result.bat.freeSet card.sizeBlocks).card =
      (result.bat.freeBlocks - BitVec.ofNat 16 direntry.blockCount.toNat).toNat
    have counted := sound.freeBlocks
    have lt := card.getActiveBat.freeBlocks.isLt
    rw [allocated.freeBlocks, BitVec.toNat_sub, BitVec.toNat_ofNat]
    omega
  · exact allocated.lastAllocatedBlock
  · exact allocated.length
  · refine @LaidOut.add _ _ _ _ _ index (importedEntry direntry first) blocks sound.laidOut
      (fun j ne => ?_) ?_ ?_ length ?_ allocated.free allocated.entries
    · rw [entries, Vector.getElem?_setIfInBounds, if_neg (Ne.symm ne)]
    · rw [entries, Vector.getElem?_setIfInBounds, if_pos rfl, if_pos index_lt]
    · rw [importedEntry_firstBlock (by omega)]
      exact allocated.chain
    · rintro rfl
      rw [List.length_nil] at length
      omega

/-- The entry and the data of the file at `index` are the same on both cards. -/
def SameFile (card card' : GCMemcard) (index : Nat) : Prop :=
  card'.getActiveDirectory.dirEntries[index]? = card.getActiveDirectory.dirEntries[index]? ∧
    card'.exportFile index = card.exportFile index

/-- An entry of the active directory that a file has. -/
def UsedAt (card : GCMemcard) (index : Nat) : Prop :=
  ∃ entry, card.getActiveDirectory.dirEntries[index]? = some entry ∧ entry.isUsed = true

theorem sameFile_import (sound : Sound card) {direntry : DEntry} {index first : Nat}
    {blocks : List Nat} {result : Copying}
    (imports : Imports card direntry index first blocks result) {j : Nat} (used : UsedAt card j) :
    SameFile card (commit card (addEntry card.getActiveDirectory direntry first)
      (importedBat result.bat direntry.blockCount.toNat) result.dataBlocks) j := by
  obtain ⟨entry, at_j, isUsed⟩ := used
  obtain ⟨others, file⟩ := sound.laidOut.files j entry at_j isUsed
  have ne : index ≠ j := fun same => by
    have unused := (findIdx_spec imports.found).2 entry (same ▸ at_j)
    rw [isUsed] at unused
    exact Bool.false_ne_true unused.symm
  have apart {block : Nat} (mem : block ∈ others) : block ∉ blocks := fun new =>
    file.chain.not_mem_freeSet mem (imports.allocated.free block new)
  have at_index : (addEntry card.getActiveDirectory direntry first).dirEntries[j]? =
      some entry := by
    rw [addEntry_entries imports.found, Vector.getElem?_setIfInBounds, if_neg ne, at_j]
  obtain ⟨kept, same⟩ := export_commit sound (sound_import sound imports) file at_index
    (fun block mem => imports.allocated.entries block (file.inside block mem).1 (apart mem))
    (fun block mem => imports.allocated.data block (file.inside block mem).1 (apart mem))
  exact ⟨kept.trans at_j.symm, same⟩

/-! ## Removing a file -/

/-- The map that `RemoveFile` writes. -/
def removedBat (bat : BlockAlloc) (blocks : List Nat) : BlockAlloc :=
  { bat.clear blocks with
    freeBlocks := (bat.clear blocks).freeBlocks + BitVec.ofNat 16 blocks.length
    updateCounter := (bat.clear blocks).updateCounter + 1 }

variable {index : Nat} {entry : DEntry} {blocks : List Nat}

theorem removeFile_spec (sound : Sound card)
    (file : FileAt card.getActiveDirectory card.getActiveBat card.sizeBlocks index entry blocks)
    {fuel : Nat} (enough : BAT_SIZE < fuel) :
    card.removeFile fuel index = some (.success, commit card
      (eraseEntry card.getActiveDirectory index) (removedBat card.getActiveBat blocks)
      card.dataBlocks) := by
  have length := card.getActiveBat.length_le_of_fileChain file.chain
  unfold GCMemcard.removeFile
  simp only [sound.valid, file.at_index, Bool.not_true, Bool.false_eq_true, if_false]
  rw [← file.length, clearBlocks_of_chain file.chain (by omega)]
  rfl

theorem entry_removed
    (file : FileAt card.getActiveDirectory card.getActiveBat card.sizeBlocks index entry blocks)
    {block : Nat} (le : 5 ≤ block) :
    (removedBat card.getActiveBat blocks).entry block =
      if block ∈ blocks then 0 else card.getActiveBat.entry block :=
  entry_clear (fun _ mem => file.chain.inside mem) le

theorem sound_remove (sound : Sound card)
    (file : FileAt card.getActiveDirectory card.getActiveBat card.sizeBlocks index entry blocks) :
    Sound (commit card (eraseEntry card.getActiveDirectory index)
      (removedBat card.getActiveBat blocks) card.dataBlocks) := by
  obtain ⟨-, -, size⟩ := sound.opened.bounds
  obtain ⟨freeBlocks, updateCounter, lastAllocated⟩ := @clear_frame card.getActiveBat blocks
  have kept (block : Nat) (le : 5 ≤ block) (other : block ∉ blocks) :
      (removedBat card.getActiveBat blocks).entry block = card.getActiveBat.entry block := by
    rw [entry_removed file le, if_neg other]
  have freed (block : Nat) (mem : block ∈ blocks) :
      block ∈ (removedBat card.getActiveBat blocks).freeSet card.sizeBlocks := by
    have inside := file.inside block mem
    rw [mem_freeSet, entry_removed file inside.1, if_pos mem]
    exact ⟨inside, rfl⟩
  have count := @BlockAlloc.card_freeSet_add (removedBat card.getActiveBat blocks) card.getActiveBat
    card.sizeBlocks blocks file.chain.nodup freed
    (fun block mem => file.chain.not_mem_freeSet mem)
    (fun block le other => (kept block le other).symm)
  have at_most : ((removedBat card.getActiveBat blocks).freeSet card.sizeBlocks).card ≤
      card.sizeBlocks := by
    have inside : (removedBat card.getActiveBat blocks).freeSet card.sizeBlocks ⊆
        Finset.range card.sizeBlocks := fun block mem =>
      Finset.mem_range.mpr ((mem_freeSet _).mp mem).1.2
    have le := Finset.card_le_card inside
    rwa [Finset.card_range] at le
  apply sound_commit sound
  · rfl
  · change (card.getActiveBat.clear blocks).updateCounter + 1 = _
    rw [updateCounter]
  · change _ = ((card.getActiveBat.clear blocks).freeBlocks + BitVec.ofNat 16 blocks.length).toNat
    have counted := sound.freeBlocks
    rw [freeBlocks, BitVec.toNat_add, BitVec.toNat_ofNat]
    omega
  · change (card.getActiveBat.clear blocks).lastAllocatedBlock.toNat < _
    rw [lastAllocated]
    exact sound.lastAllocated
  · rfl
  · refine sound.laidOut.remove file (fun j ne => ?_) (fun entry' at_index => ?_) kept
    · exact Vector.getElem?_setIfInBounds_ne (Ne.symm ne)
    · change (card.getActiveDirectory.dirEntries.setIfInBounds index DEntry.empty)[index]? = _
        at at_index
      rw [Vector.getElem?_setIfInBounds, if_pos rfl] at at_index
      split at at_index
      · obtain rfl := Option.some.inj at_index
        rfl
      · cases at_index

theorem sameFile_remove (sound : Sound card)
    (file : FileAt card.getActiveDirectory card.getActiveBat card.sizeBlocks index entry blocks)
    {j : Nat} (ne : j ≠ index) (used : UsedAt card j) :
    SameFile card (commit card (eraseEntry card.getActiveDirectory index)
      (removedBat card.getActiveBat blocks) card.dataBlocks) j := by
  obtain ⟨entry', at_j, isUsed⟩ := used
  obtain ⟨others, other⟩ := sound.laidOut.files j entry' at_j isUsed
  have apart := sound.laidOut.apart other file ne
  have at_index : (eraseEntry card.getActiveDirectory index).dirEntries[j]? = some entry' := by
    rw [← at_j]
    exact Vector.getElem?_setIfInBounds_ne (Ne.symm ne)
  obtain ⟨kept, same⟩ := export_commit sound (sound_remove sound file) other at_index
    (fun block mem => by rw [entry_removed file (other.inside block mem).1, if_neg (apart mem)])
    (fun _ _ => rfl)
  exact ⟨kept.trans at_j.symm, same⟩

end Card

/-! ## Runs -/

inductive Operation where
  | importFile (savefile : Savefile)
  | removeFile (index : Nat)

/-- An operation that the file manager asks for. -/
def Requested (card : GCMemcard) : Operation → Prop
  | .importFile savefile => Importable savefile
  | .removeFile index => UsedAt card index

/-- An import that is turned away, or that has the block which `PSO_MakeSaveGameValid` writes to. -/
def WritesInside (card : GCMemcard) : Operation → Prop
  | .importFile savefile => Refused card savefile ∨ HasSecondBlock savefile
  | .removeFile _ => True

/-- The card after an operation, if it comes to an end without an access out of bounds. -/
def perform (op : Operation) (card : GCMemcard) : Option GCMemcard :=
  match op with
  | .importFile savefile => (card.importFile savefile).toOption.map Prod.snd
  | .removeFile index => (card.removeFile (BAT_SIZE + 1) index).map Prod.snd

/-- The operation returns; unless it succeeds it changes nothing, and if it does, it leaves the
other files as they are. -/
def ActsAlone (card : GCMemcard) : Operation → Prop
  | .importFile savefile => ∃ r card', card.importFile savefile = .ok (r, card') ∧
      (r ≠ .success → card' = card) ∧ ∀ j, UsedAt card j → SameFile card card' j
  | .removeFile index => ∃ r card', (∀ fuel > BAT_SIZE, card.removeFile fuel index = some (r, card')) ∧
      (r ≠ .success → card' = card) ∧ ∀ j ≠ index, UsedAt card j → SameFile card card' j

theorem importFile_acts {card : GCMemcard} (sound : Sound card) {savefile : Savefile}
    (importable : Importable savefile) (inside : Refused card savefile ∨ HasSecondBlock savefile) :
    ∃ r card', card.importFile savefile = .ok (r, card') ∧ Sound card' ∧
      (r ≠ .success → card' = card) ∧ ∀ j, UsedAt card j → SameFile card card' j := by
  rcases importFile_spec sound importable inside with ⟨r, _, ok⟩ |
    ⟨index, first, blocks, result, found, allocated, first_lt, length, ok⟩
  · exact ⟨r, card, ok, sound, fun _ => rfl, fun _ _ => ⟨rfl, rfl⟩⟩
  · have imports : Imports card savefile.dirEntry index first blocks result :=
      ⟨found, allocated, first_lt, length, importable.some_block⟩
    exact ⟨_, _, ok, sound_import sound imports, fun ne => absurd rfl ne,
      fun _ used => sameFile_import sound imports used⟩

theorem removeFile_acts {card : GCMemcard} (sound : Sound card) {index : Nat}
    (used : UsedAt card index) :
    ∃ r card', (∀ fuel > BAT_SIZE, card.removeFile fuel index = some (r, card')) ∧ Sound card' ∧
      (r ≠ .success → card' = card) ∧ ∀ j ≠ index, UsedAt card j → SameFile card card' j := by
  obtain ⟨entry, at_index, isUsed⟩ := used
  obtain ⟨blocks, file⟩ := sound.laidOut.files index entry at_index isUsed
  exact ⟨_, _, fun _ enough => removeFile_spec sound file enough, sound_remove sound file,
    fun ne => absurd rfl ne, fun _ ne used => sameFile_remove sound file ne used⟩

theorem actsAlone {card : GCMemcard} (sound : Sound card) {op : Operation}
    (requested : Requested card op) (inside : WritesInside card op) : ActsAlone card op := by
  cases op with
  | importFile savefile =>
    obtain ⟨r, card', ok, -, frame⟩ := importFile_acts sound requested inside
    exact ⟨r, card', ok, frame⟩
  | removeFile index =>
    obtain ⟨r, card', done, -, frame⟩ := removeFile_acts sound requested
    exact ⟨r, card', done, frame⟩

/-- The condition leaves out no operation that acts alone. -/
theorem actsAlone_iff {card : GCMemcard} (sound : Sound card) {op : Operation}
    (requested : Requested card op) : ActsAlone card op ↔ WritesInside card op := by
  refine ⟨fun acts => ?_, actsAlone sound requested⟩
  cases op with
  | importFile savefile =>
    by_contra outside
    obtain ⟨accepted, short⟩ := not_or.mp outside
    obtain ⟨r, card', ok, -⟩ := acts
    rw [importFile_error sound requested accepted short] at ok
    cases ok
  | removeFile index => trivial

theorem sound_perform {card card' : GCMemcard} (sound : Sound card) {op : Operation}
    (requested : Requested card op) (inside : WritesInside card op)
    (next : perform op card = some card') : Sound card' := by
  cases op with
  | importFile savefile =>
    obtain ⟨r, after, ok, sound', -⟩ := importFile_acts sound requested inside
    rw [perform, ok] at next
    cases next
    exact sound'
  | removeFile index =>
    obtain ⟨r, after, done, sound', -⟩ := removeFile_acts sound requested
    rw [perform, done _ (Nat.lt_succ_self _)] at next
    cases next
    exact sound'

/-- What the file manager relies on in every state of a card. -/
structure InOrder (card : GCMemcard) : Prop where
  laidOut : LaidOut card.getActiveDirectory card.getActiveBat card.sizeBlocks
  acyclic : ∀ {index entry blocks}, FileAt card.getActiveDirectory card.getActiveBat card.sizeBlocks
    index entry blocks → blocks.Nodup
  freeBlocks : card.getActiveBat.freeBlocks.toNat =
    (card.getActiveBat.freeSet card.sizeBlocks).card
  headerSums : card.headerBlock.SumsRight
  directorySums : ∀ i : Copy, (card.directoryBlocks.get i).SumsRight
  batSums : ∀ i : Copy, (card.batBlocks.get i).SumsRight
  activeDirectory : card.activeDirectory = .second ↔
    card.directoryBlocks.first.updateCounter.toInt < card.directoryBlocks.second.updateCounter.toInt
  activeBat : card.activeBat = .second ↔
    card.batBlocks.first.updateCounter.toInt < card.batBlocks.second.updateCounter.toInt
  reopens : (GCMemcard.openFile (some card.save)).1.hasCriticalErrors = false ∧
    (GCMemcard.openFile (some card.save)).2 = some card

theorem Sound.inOrder {card : GCMemcard} (sound : Sound card) (below : CountersBelow card) :
    InOrder card where
  laidOut := sound.laidOut
  acyclic file := file.chain.nodup
  freeBlocks := sound.freeBlocks.symm
  headerSums := sound.headerSums
  directorySums := sound.directorySums
  batSums := sound.batSums
  activeDirectory := sound.directoryTurn.second_iff fun i => (below i).1
  activeBat := sound.batTurn.second_iff fun i => (below i).2
  reopens := openFile_save (sound.savable below)

theorem inOrder_of_reaches (flashId : Vector Byte 12) (sizeMbits : BitVec 16) (shiftJis : Bool)
    (rtcBias sramLanguage : BitVec 32) (formatTime : BitVec 64)
    (valid : sizeMbits.toNat ∈ validMegabits) (card : GCMemcard)
    (run : Reaches perform (fun op card => Requested card op ∧ WritesInside card op)
      (GCMemcard.format flashId sizeMbits shiftJis rtcBias sramLanguage formatTime) card)
    (below : CountersBelow card) :
    InOrder card ∧ ∀ op, Requested card op → (ActsAlone card op ↔ WritesInside card op) := by
  have sound : Sound card := run.invariant
    (sound_format flashId shiftJis rtcBias sramLanguage formatTime valid)
    fun _ _ _ sound meets next => sound_perform sound meets.1 meets.2 next
  exact ⟨sound.inOrder below, fun _ requested => actsAlone_iff sound requested⟩

/-- A save file of one block that `PSO_MakeSaveGameValid` takes for a system file of the game. -/
def psoSave (blocks : List GCMBlock) : Savefile where
  dirEntry :=
    { DEntry.empty with
      gamecode := #v[0x47, 0x50, 0x53, 0x45]
      filename := #v[0x50, 0x53, 0x4F, 0x5F, 0x53, 0x59, 0x53, 0x54, 0x45, 0x4D, 0, 0, 0, 0, 0, 0,
        0, 0, 0, 0, 0, 0, 0, 0, 0, 0, 0, 0, 0, 0, 0, 0]
      blockCount := BitVec.ofNat 16 blocks.length }
  blocks := blocks

/-- The formatted card with a system file of two blocks on it. -/
def importedCard : GCMemcard :=
  (perform (.importFile (psoSave [.erased, .erased])) formattedCard).getD formattedCard

theorem inOrder_importedCard :
    InOrder importedCard ∧ ActsAlone importedCard (.removeFile 0) := by
  have next : perform (.importFile (psoSave [.erased, .erased])) formattedCard =
      some importedCard := by
    have done : (perform (.importFile (psoSave [.erased, .erased])) formattedCard).isSome := by
      decide +kernel
    obtain ⟨card, eq⟩ := Option.isSome_iff_exists.mp done
    unfold importedCard
    rw [eq]
    rfl
  have below : CountersBelow importedCard := by
    intro i
    match i with
    | .first => decide +kernel
    | .second => decide +kernel
  have valid : (4 : BitVec 16).toNat ∈ validMegabits := by decide
  have meets : Requested formattedCard (.importFile (psoSave [.erased, .erased])) ∧
      WritesInside formattedCard (.importFile (psoSave [.erased, .erased])) :=
    ⟨⟨by decide, by decide⟩, .inr fun _ => Nat.le_refl 2⟩
  obtain ⟨inOrder, acts⟩ := inOrder_of_reaches (Vector.replicate 12 0) 4 false 0 0 0 valid
    importedCard (.tail .refl meets next) below
  refine ⟨inOrder, (acts (.removeFile 0) ?_).mpr trivial⟩
  have used : (importedCard.getActiveDirectory.dirEntries[0]?.map DEntry.isUsed) = some true := by
    decide +kernel
  obtain ⟨entry, at_zero, isUsed⟩ := Option.map_eq_some_iff.mp used
  exact ⟨entry, at_zero, isUsed⟩

/-- A system file of one block: the import writes past its data. -/
theorem not_actsAlone_psoSave :
    Requested formattedCard (.importFile (psoSave [.erased])) ∧
      formattedCard.importFile (psoSave [.erased]) = .error .outOfBounds ∧
      ¬ ActsAlone formattedCard (.importFile (psoSave [.erased])) := by
  have overrun : formattedCard.importFile (psoSave [.erased]) = .error .outOfBounds := by
    decide +kernel
  refine ⟨⟨by decide, by decide⟩, overrun, ?_⟩
  rintro ⟨r, card', ok, -⟩
  rw [overrun] at ok
  cases ok

end Phocoena.Memcard
