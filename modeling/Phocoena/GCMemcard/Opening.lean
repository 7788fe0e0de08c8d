import Phocoena.GCMemcard.GCMemcard
import Mathlib.Tactic.Ring

/-! # Opening a memory card

What `Open` makes of the bytes of a card: the checks that every accepted card has passed, and that a
saved card is read back as it was.
-/

namespace Phocoena.Memcard

/-! ## Checksums -/

theorem slice_left {area rest : List Byte} {n : Nat} (length : area.length = n) :
    slice (area ++ rest) 0 n = area := by
  rw [slice, List.drop_zero, Nat.sub_zero, ← length, List.take_left]

theorem slice_right {front area : List Byte} {m n : Nat} (front_length : front.length = m)
    (length : area.length = n - m) : slice (front ++ area) m n = area := by
  rw [slice, ← front_length, List.drop_left, front_length, ← length, List.take_length]

/-- The area that the checksums of a header cover. -/
theorem Header.slice_encode (h : Header) :
    slice (Header.codec.encode h) 0 0x1FC =
      (HeaderData.codec.pair ((Codec.byte.array 468).pair Codec.le16)).encode
        (h.data, h.unused1, h.updateCounter) :=
  slice_left (Codec.length_encode _ _)

theorem Directory.slice_encode (d : Directory) :
    slice (Directory.codec.encode d) 0 0x1FFC =
      ((DEntry.codec.array DIRLEN).pair ((Codec.byte.array 0x3A).pair Codec.be16)).encode
        (d.dirEntries, d.padding, d.updateCounter) :=
  slice_left (Codec.length_encode _ _)

theorem BlockAlloc.slice_encode (b : BlockAlloc) :
    slice (BlockAlloc.codec.encode b) 4 BLOCK_SIZE =
      (Codec.be16.pair (Codec.be16.pair (Codec.be16.pair (Codec.be16.array BAT_SIZE)))).encode
        (b.updateCounter, b.freeBlocks, b.lastAllocatedBlock, b.map) :=
  slice_right (Codec.length_encode (Codec.le16.pair Codec.le16) _) (Codec.length_encode _ _)

/-- A block whose checksums are those of its contents. -/
def Header.SumsRight (h : Header) : Prop := h.calculateChecksums = (h.checksum, h.checksumInv)

def Directory.SumsRight (d : Directory) : Prop := d.calculateChecksums = (d.checksum, d.checksumInv)

def BlockAlloc.SumsRight (b : BlockAlloc) : Prop :=
  b.calculateChecksums = (b.checksum, b.checksumInv)

theorem Header.sumsRight_fixChecksums (h : Header) : h.fixChecksums.SumsRight := by
  rw [SumsRight, calculateChecksums, slice_encode]
  simp only [fixChecksums, calculateChecksums, slice_encode]

theorem Directory.sumsRight_fixChecksums (d : Directory) : d.fixChecksums.SumsRight := by
  rw [SumsRight, calculateChecksums, slice_encode]
  simp only [fixChecksums, calculateChecksums, slice_encode]

theorem BlockAlloc.sumsRight_fixChecksums (b : BlockAlloc) : b.fixChecksums.SumsRight := by
  rw [SumsRight, calculateChecksums, slice_encode]
  simp only [fixChecksums, calculateChecksums, slice_encode]

/-! ## When a block has no critical errors -/

/-- The number of blocks of a card for files. -/
def userBlocks (sizeMbits : Nat) : Nat := sizeMbits * MBIT_TO_BLOCKS - MC_FST_BLOCKS

/-- The count of free blocks is the number of empty entries of the card's part of the map. -/
def BlockAlloc.CountsFree (b : BlockAlloc) (sizeMbits : Nat) : Prop :=
  userBlocks sizeMbits - b.blocksInUse (userBlocks sizeMbits) = b.freeBlocks.toNat

theorem Header.critical_iff (h : Header) (sizeMbits : Nat) :
    (h.checkForErrors sizeMbits).hasCriticalErrors = false ↔
      h.data.sizeMb.toNat = sizeMbits ∧ h.SumsRight := by
  simp [checkForErrors, hasCriticalErrors_setIf, SumsRight]

theorem Directory.critical_iff (d : Directory) :
    d.checkForErrors.hasCriticalErrors = false ↔ d.SumsRight := by
  simp [checkForErrors, hasCriticalErrors_setIf, SumsRight]

theorem BlockAlloc.critical_iff (b : BlockAlloc) {sizeMbits : Nat} (pos : 0 < sizeMbits)
    (le : sizeMbits ≤ 256) :
    (b.checkForErrors sizeMbits).hasCriticalErrors = false ↔
      b.SumsRight ∧ b.CountsFree sizeMbits := by
  simp [checkForErrors, hasCriticalErrors_setIf, SumsRight, CountsFree, userBlocks, pos, le]

/-- Every file of the directory has the number of blocks in the map that its entry says. -/
def Directory.Matches (d : Directory) (bat : BlockAlloc) : Prop :=
  ∀ entry ∈ d.dirEntries.toList, entry.isUsed = true →
    Directory.batBlockCountMatches bat entry.blockCount.toNat entry.firstBlock.toNat = true

theorem Directory.critical_withBat_iff (d : Directory) (bat : BlockAlloc) :
    (d.checkForErrorsWithBat bat).hasCriticalErrors = false ↔ d.Matches bat := by
  rw [checkForErrorsWithBat, hasCriticalErrors_setIf (by decide), Matches, List.any_eq_false]
  simp

/-! ## Cards that `Open` accepts -/

theorem pos_of_valid {sizeMbits : Nat} (valid : sizeMbits ∈ validMegabits) :
    0 < sizeMbits ∧ sizeMbits ≤ 128 := by
  simp only [validMegabits, List.mem_cons, List.not_mem_nil, or_false] at valid
  omega

/-- What `Open` promises about the sizes of a card and about its active blocks. -/
structure Opened (card : GCMemcard) : Prop where
  valid : card.valid = true
  sizeMb : card.sizeMb ∈ validMegabits
  sizeBlocks : card.sizeBlocks = card.sizeMb * MBIT_TO_BLOCKS
  dataBlocks : card.dataBlocks.length = card.sizeBlocks - MC_FST_BLOCKS
  consistent : card.getActiveDirectory.Matches card.getActiveBat

/-- Two cards that differ in nothing but their system blocks. -/
structure SameShape (a b : GCMemcard) : Prop where
  sizeMb : a.sizeMb = b.sizeMb
  sizeBlocks : a.sizeBlocks = b.sizeBlocks
  dataBlocks : a.dataBlocks = b.dataBlocks

theorem restoreCorrupted_shape (card : GCMemcard) : SameShape card.restoreCorrupted card := by
  unfold GCMemcard.restoreCorrupted
  repeat' split
  all_goals exact ⟨rfl, rfl, rfl⟩

theorem accept_spec {read card : GCMemcard} (accepted : read.accept.2 = some card) :
    SameShape card read ∧ card.valid = true ∧
      card.getActiveDirectory.Matches card.getActiveBat := by
  have shape : SameShape
      (if read.numberOfCorruptedDirBatBlocks = 1 then read.restoreCorrupted else read) read := by
    split
    · exact restoreCorrupted_shape read
    · exact ⟨rfl, rfl, rfl⟩
  unfold GCMemcard.accept at accepted
  dsimp only at accepted
  generalize (if read.numberOfCorruptedDirBatBlocks = 1 then read.restoreCorrupted else read) =
    restored at accepted shape
  split at accepted
  · cases accepted
  · split at accepted
    · cases accepted
    · split at accepted
      · cases accepted
      · next clean =>
        cases accepted
        have consistent := (Bool.not_eq_true _).mp clean
        rw [hasCriticalErrors_append, Bool.or_eq_false_iff] at consistent
        exact ⟨⟨shape.sizeMb, shape.sizeBlocks, shape.dataBlocks⟩, rfl,
          (Directory.critical_withBat_iff _ _).mp consistent.2⟩

theorem readCard_shape {sizeMbits : Nat} {file : List Byte} {read : GCMemcard}
    (h : GCMemcard.readCard sizeMbits file = some read) :
    read.sizeMb = sizeMbits ∧ read.sizeBlocks = sizeMbits * MBIT_TO_BLOCKS ∧
      read.dataBlocks.length = sizeMbits * MBIT_TO_BLOCKS - MC_FST_BLOCKS := by
  simp only [GCMemcard.readCard, Option.bind_eq_bind, Option.bind_eq_some_iff, Option.pure_def,
    Option.some.injEq] at h
  obtain ⟨_, _, _, _, _, _, _, _, _, _, _, _, rfl⟩ := h
  exact ⟨rfl, rfl, by simp⟩

theorem opened_of_openFile {file : Option (List Byte)} {card : GCMemcard}
    (accepted : (GCMemcard.openFile file).2 = some card) : Opened card := by
  unfold GCMemcard.openFile at accepted
  cases file with
  | none => cases accepted
  | some file =>
    dsimp only at accepted
    split at accepted
    · cases accepted
    · next size =>
      rw [not_not] at size
      split at accepted
      · cases accepted
      · next read reading =>
        obtain ⟨sizeMb, sizeBlocks, dataBlocks⟩ := readCard_shape reading
        obtain ⟨shape, valid, consistent⟩ := accept_spec accepted
        exact
          { valid := valid
            sizeMb := by rw [shape.sizeMb, sizeMb]; exact size
            sizeBlocks := by rw [shape.sizeBlocks, shape.sizeMb, sizeMb, sizeBlocks]
            dataBlocks := by rw [shape.dataBlocks, shape.sizeBlocks, sizeBlocks, dataBlocks]
            consistent := consistent }

/-! ## Opening a saved card -/

/-- A card in memory that its own file stands for. -/
structure Savable (card : GCMemcard) : Prop where
  valid : card.valid = true
  sizeMb : card.sizeMb ∈ validMegabits
  sizeBlocks : card.sizeBlocks = card.sizeMb * MBIT_TO_BLOCKS
  dataBlocks : card.dataBlocks.length = card.sizeBlocks - MC_FST_BLOCKS
  headerSize : card.headerBlock.data.sizeMb.toNat = card.sizeMb
  headerSums : card.headerBlock.SumsRight
  directorySums : ∀ i : Copy, (card.directoryBlocks.get i).SumsRight
  batSums : ∀ i : Copy, (card.batBlocks.get i).SumsRight
  batFree : ∀ i : Copy, (card.batBlocks.get i).CountsFree card.sizeMb
  activeDirectory : card.activeDirectory = card.selectActive.activeDirectory
  activeBat : card.activeBat = card.selectActive.activeBat
  consistent : card.getActiveDirectory.Matches card.getActiveBat

/-- The card as the reads of `Open` leave it. -/
def justRead (card : GCMemcard) : GCMemcard :=
  { card with
    valid := false
    activeDirectory := .first
    activeBat := .first }

theorem readCard_encode (sizeMbits : Nat) (header : Header) (directories : Copies Directory)
    (bats : Copies BlockAlloc)
    (blocks : Vector GCMBlock (sizeMbits * MBIT_TO_BLOCKS - MC_FST_BLOCKS)) :
    GCMemcard.readCard sizeMbits (Header.codec.encode header ++
        (Directory.codec.encode directories.first ++ (Directory.codec.encode directories.second ++
        (BlockAlloc.codec.encode bats.first ++ (BlockAlloc.codec.encode bats.second ++
        ((GCMBlock.codec.array (sizeMbits * MBIT_TO_BLOCKS - MC_FST_BLOCKS)).encode blocks ++
          [])))))) =
      some
        { valid := false
          sizeBlocks := sizeMbits * MBIT_TO_BLOCKS
          sizeMb := sizeMbits
          headerBlock := header
          directoryBlocks := directories
          batBlocks := bats
          dataBlocks := blocks.toList
          activeDirectory := .first
          activeBat := .first } := by
  unfold GCMemcard.readCard
  simp only [Codec.bind_decode_encode]
  rfl

theorem readCard_save {card : GCMemcard} (sizeBlocks : card.sizeBlocks = card.sizeMb * MBIT_TO_BLOCKS)
    (dataBlocks : card.dataBlocks.length = card.sizeBlocks - MC_FST_BLOCKS) :
    GCMemcard.readCard card.sizeMb card.save = some (justRead card) := by
  obtain ⟨valid, sizeBlocks', sizeMb, header, directories, bats, blocks, _, _⟩ := card
  dsimp only at sizeBlocks dataBlocks
  subst sizeBlocks
  have read := readCard_encode sizeMb header directories bats ⟨blocks.toArray, dataBlocks⟩
  rw [Codec.array_encode, Vector.toList_mk, List.append_nil] at read
  unfold GCMemcard.save
  dsimp only
  rw [List.take_of_length_le (Nat.le_of_eq dataBlocks)]
  simp only [List.append_assoc]
  exact read

theorem length_save {card : GCMemcard} (size : 0 < card.sizeMb)
    (sizeBlocks : card.sizeBlocks = card.sizeMb * MBIT_TO_BLOCKS)
    (dataBlocks : card.dataBlocks.length = card.sizeBlocks - MC_FST_BLOCKS) :
    card.save.length = card.sizeMb * (1024 * 1024 / 8) := by
  have header : Header.codec.size = 0x2000 := rfl
  have directory : Directory.codec.size = 0x2000 := rfl
  have bat : BlockAlloc.codec.size = 0x2000 := rfl
  have block : GCMBlock.codec.size = 0x2000 := rfl
  unfold GCMemcard.save
  rw [← dataBlocks, List.take_length]
  simp only [List.length_append, Codec.length_encode, Codec.length_flatMap_encode, header, directory,
    bat, block, dataBlocks, sizeBlocks, MBIT_TO_BLOCKS, MC_FST_BLOCKS]
  omega

/-- A card on which each check succeeds is accepted. -/
theorem accept_of_clean {read : GCMemcard} (size : 0 < read.sizeMb ∧ read.sizeMb ≤ 256)
    (header : read.headerBlock.data.sizeMb.toNat = read.sizeMb ∧ read.headerBlock.SumsRight)
    (directories : ∀ i : Copy, (read.directoryBlocks.get i).SumsRight)
    (bats : ∀ i : Copy, (read.batBlocks.get i).SumsRight ∧ (read.batBlocks.get i).CountsFree read.sizeMb)
    (consistent : read.selectActive.getActiveDirectory.Matches read.selectActive.getActiveBat) :
    read.accept.1.hasCriticalErrors = false ∧
      read.accept.2 = some { read.selectActive with valid := true } := by
  have header := (Header.critical_iff _ _).mpr header
  have directory (i : Copy) := (Directory.critical_iff _).mpr (directories i)
  have bat (i : Copy) := (BlockAlloc.critical_iff _ size.1 size.2).mpr (bats i)
  have consistent := (Directory.critical_withBat_iff _ _).mpr consistent
  have corrupted : read.numberOfCorruptedDirBatBlocks = 0 := by
    unfold GCMemcard.numberOfCorruptedDirBatBlocks GCMemcard.directoryValid GCMemcard.batValid
    rw [directory .first, directory .second, bat .first, bat .second]
    rfl
  have errors : GCMemcardErrorCode.hasCriticalErrors (read.headerBlock.checkForErrors read.sizeMb ++
      read.selectActive.dirBatErrors ++
      read.selectActive.getActiveDirectory.checkForErrorsWithBat read.selectActive.getActiveBat) =
      false := by
    have dirBat : read.selectActive.dirBatErrors.hasCriticalErrors = false := by
      unfold GCMemcard.dirBatErrors
      simp only [hasCriticalErrors_append, Bool.or_eq_false_iff]
      exact ⟨⟨⟨directory .first, directory .second⟩, bat .first⟩, bat .second⟩
    rw [hasCriticalErrors_append, hasCriticalErrors_append, header, dirBat, consistent]
    rfl
  have accepted : read.accept = (read.headerBlock.checkForErrors read.sizeMb ++
      read.selectActive.dirBatErrors ++
      read.selectActive.getActiveDirectory.checkForErrorsWithBat read.selectActive.getActiveBat,
      some { read.selectActive with valid := true }) := by
    unfold GCMemcard.accept
    simp only [header, corrupted, Bool.false_eq_true, if_false, Nat.zero_ne_one, errors, gt_iff_lt, Nat.not_lt_zero]
  rw [accepted]
  exact ⟨errors, rfl⟩

theorem openFile_save {card : GCMemcard} (h : Savable card) :
    (GCMemcard.openFile (some card.save)).1.hasCriticalErrors = false ∧
      (GCMemcard.openFile (some card.save)).2 = some card := by
  have size := pos_of_valid h.sizeMb
  have megabits : (GCMemcard.bytesToMegabits card.save.length).getD 0 = card.sizeMb := by
    rw [length_save size.1 h.sizeBlocks h.dataBlocks]
    simp [GCMemcard.bytesToMegabits]
  have selected : { (justRead card).selectActive with valid := true } = card := by
    have valid := h.valid
    have directory : (justRead card).selectActive.activeDirectory = card.activeDirectory :=
      h.activeDirectory.symm
    have bat : (justRead card).selectActive.activeBat = card.activeBat := h.activeBat.symm
    unfold justRead GCMemcard.selectActive at directory bat ⊢
    rw [GCMemcard.mk.injEq]
    exact ⟨valid.symm, rfl, rfl, rfl, rfl, rfl, rfl, directory, bat⟩
  have opened : GCMemcard.openFile (some card.save) = (justRead card).accept := by
    unfold GCMemcard.openFile
    dsimp only
    rw [megabits, if_neg (not_not.mpr h.sizeMb), readCard_save h.sizeBlocks h.dataBlocks]
  rw [opened]
  have clean := @accept_of_clean (justRead card) ⟨size.1, Nat.le_trans size.2 (by decide)⟩
    ⟨h.headerSize, h.headerSums⟩ h.directorySums (fun i => ⟨h.batSums i, h.batFree i⟩)
  rw [selected] at clean
  refine clean ?_
  have consistent := h.consistent
  rw [← selected] at consistent
  exact consistent

/-! ## Formatted memory cards

The card that `Format` makes: its checksums are right, among them the ones that the constructor of
`Directory` has as constants, and its file is read back as the card.
-/

theorem sumWords_replicate (n : Nat) (rest : List Byte) (csum invCsum : BitVec 16) :
    sumWords (List.replicate (2 * n) 0xFF ++ rest) (csum, invCsum) =
      sumWords rest (csum - BitVec.ofNat 16 n, invCsum) := by
  induction n generalizing csum with
  | zero => simp
  | succ n ih =>
    have unfolded : List.replicate (2 * (n + 1)) (0xFF : Byte) ++ rest =
        0xFF :: 0xFF :: (List.replicate (2 * n) 0xFF ++ rest) := rfl
    have word : (0xFF : Byte) ++ (0xFF : Byte) = 0xFFFF#16 := by decide
    have nothing : 0xFFFF#16 ^^^ 0xFFFF = 0#16 := by decide
    have step : csum + 0xFFFF#16 - BitVec.ofNat 16 n = csum - BitVec.ofNat 16 (n + 1) := by
      have minus_one : 0xFFFF#16 = -1 := by decide
      have one : BitVec.ofNat 16 1 = 1 := rfl
      rw [minus_one, BitVec.ofNat_add, one]
      ring
    rw [unfolded, sumWords, word, nothing, BitVec.add_zero, ih, step]

theorem flatMap_replicate {α β : Type} (n : Nat) (a : α) (k : Nat) (b : β) (f : α → List β)
    (h : f a = List.replicate k b) :
    (List.replicate n a).flatMap f = List.replicate (n * k) b := by
  induction n with
  | zero => simp
  | succ n ih =>
    rw [List.replicate_succ, List.flatMap_cons, ih, h, ← List.replicate_add, Nat.succ_mul,
      Nat.add_comm]

theorem Directory.sumsRight_empty : Directory.empty.SumsRight := by
  have entry : DEntry.codec.encode DEntry.empty = List.replicate 64 0xFF := by decide
  have area : ((DEntry.codec.array DIRLEN).pair ((Codec.byte.array 0x3A).pair Codec.be16)).encode
      (Directory.empty.dirEntries, Directory.empty.padding, Directory.empty.updateCounter) =
        List.replicate (2 * 4093) 0xFF ++ [0, 0] := by
    have entries := flatMap_replicate 127 DEntry.empty 64 0xFF DEntry.codec.encode entry
    have padding := flatMap_replicate 0x3A (0xFF : Byte) 1 0xFF Codec.byte.encode rfl
    change (Vector.replicate DIRLEN DEntry.empty).toList.flatMap DEntry.codec.encode ++
      ((Vector.replicate 0x3A 0xFF).toList.flatMap Codec.byte.encode ++ [0, 0]) = _
    rw [Vector.toList_replicate, Vector.toList_replicate, DIRLEN, entries, padding,
      ← List.append_assoc, ← List.replicate_add]
  rw [SumsRight, calculateChecksums, slice_encode, area, calculateMemcardChecksums,
    sumWords_replicate]
  decide

/-- No entry of the directory is in use. -/
theorem Directory.unused_of_mem_empty {entry : DEntry}
    (mem : entry ∈ Directory.empty.dirEntries.toList) : entry = DEntry.empty := by
  change entry ∈ (Vector.replicate DIRLEN DEntry.empty).toList at mem
  rw [Vector.toList_replicate] at mem
  exact List.eq_of_mem_replicate mem

theorem Directory.matches_empty (bat : BlockAlloc) : Directory.empty.Matches bat := by
  intro entry mem used
  rw [Directory.unused_of_mem_empty mem] at used
  exact absurd used (by decide)

theorem BlockAlloc.countsFree_formatted {sizeMbits : BitVec 16}
    (valid : sizeMbits.toNat ∈ validMegabits) :
    (BlockAlloc.formatted sizeMbits).CountsFree sizeMbits.toNat := by
  have size := pos_of_valid valid
  have noneInUse : (BlockAlloc.formatted sizeMbits).blocksInUse (userBlocks sizeMbits.toNat) = 0 := by
    change ((Vector.replicate BAT_SIZE 0#16).toList.take _).countP (· != 0) = 0
    rw [Vector.toList_replicate, List.take_replicate, List.countP_replicate]
    rfl
  change userBlocks sizeMbits.toNat - _ =
    (BitVec.ofNat 16 (sizeMbits.toNat * MBIT_TO_BLOCKS - MC_FST_BLOCKS)).toNat
  rw [noneInUse, BitVec.toNat_ofNat, Nat.sub_zero, userBlocks, Nat.mod_eq_of_lt]
  unfold MBIT_TO_BLOCKS MC_FST_BLOCKS
  omega

theorem savable_format (flashId : Vector Byte 12) {sizeMbits : BitVec 16} (shiftJis : Bool)
    (rtcBias sramLanguage : BitVec 32) (formatTime : BitVec 64)
    (valid : sizeMbits.toNat ∈ validMegabits) :
    Savable (GCMemcard.format flashId sizeMbits shiftJis rtcBias sramLanguage formatTime) where
  valid := rfl
  sizeMb := valid
  sizeBlocks := rfl
  dataBlocks := List.length_replicate
  headerSize := rfl
  headerSums := Header.sumsRight_fixChecksums _
  directorySums
    | .first => Directory.sumsRight_empty
    | .second => Directory.sumsRight_empty
  batSums
    | .first => BlockAlloc.sumsRight_fixChecksums _
    | .second => BlockAlloc.sumsRight_fixChecksums _
  batFree
    | .first => BlockAlloc.countsFree_formatted valid
    | .second => BlockAlloc.countsFree_formatted valid
  activeDirectory := rfl
  activeBat := rfl
  consistent := Directory.matches_empty _

end Phocoena.Memcard
