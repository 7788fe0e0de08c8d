import Phocoena.GCMemcard.Blocks

/-! # Memory cards

`GCMemcard` from `GCMemcard.cpp`: reading and writing a card, and the operations on its files. The
data blocks are a `std::vector` that the source indexes without a check, so what reaches them
returns an `Access`, whose error is an index past the end. `RemoveFile` follows a chain of blocks
without a bound and takes fuel.
-/

namespace Phocoena.Memcard

inductive MemoryError where
  | outOfBounds
deriving DecidableEq

abbrev Access := Except MemoryError

@[simp] theorem Access.ok_bind {α β : Type} (a : α) (f : α → Access β) :
    (Except.ok a >>= f : Access β) = f a := rfl

section Vectors

variable {α : Type}

/-- `operator[]` of a `std::vector` that is read. -/
def fetch (v : List α) (i : Nat) : Access α :=
  match v[i]? with
  | some a => .ok a
  | none => .error .outOfBounds

/-- `operator[]` of a `std::vector` that is assigned to. -/
def store (v : List α) (i : Nat) (a : α) : Access (List α) :=
  if i < v.length then .ok (v.set i a) else .error .outOfBounds

theorem fetch_ok {v : List α} {i : Nat} {a : α} : fetch v i = .ok a ↔ v[i]? = some a := by
  unfold fetch
  cases v[i]? <;> simp

theorem store_of_lt {v : List α} {i : Nat} (inside : i < v.length) (a : α) :
    store v i a = .ok (v.set i a) := if_pos inside

end Vectors

structure Savefile where
  dirEntry : DEntry
  blocks : List GCMBlock
deriving DecidableEq

/-- Which of the two copies of a system block. -/
inductive Copy where
  | first
  | second
deriving DecidableEq

namespace Copy

/-- The copy that is not `i`. -/
def other : Copy → Copy
  | first => second
  | second => first

theorem other_other (i : Copy) : i.other.other = i := by
  cases i <;> rfl

end Copy

/-- An array of two system blocks. -/
structure Copies (α : Type) where
  first : α
  second : α
deriving DecidableEq

namespace Copies

variable {α : Type} (copies : Copies α)

def get : Copy → α
  | .first => copies.first
  | .second => copies.second

def set : Copy → α → Copies α
  | .first, a => { copies with first := a }
  | .second, a => { copies with second := a }

def map (f : α → α) : Copies α := ⟨f copies.first, f copies.second⟩

variable {copies}

theorem get_set_self (i : Copy) (a : α) : (copies.set i a).get i = a := by
  cases i <;> rfl

theorem get_set_other (i : Copy) (a : α) : (copies.set i.other a).get i = copies.get i := by
  cases i <;> rfl

theorem get_map (f : α → α) (i : Copy) : (copies.map f).get i = f (copies.get i) := by
  cases i <;> rfl

end Copies

structure GCMemcard where
  valid : Bool
  sizeBlocks : Nat
  sizeMb : Nat
  headerBlock : Header
  directoryBlocks : Copies Directory
  batBlocks : Copies BlockAlloc
  dataBlocks : List GCMBlock
  activeDirectory : Copy
  activeBat : Copy
deriving DecidableEq

namespace GCMemcard

def getActiveDirectory (card : GCMemcard) : Directory := card.directoryBlocks.get card.activeDirectory

def getActiveBat (card : GCMemcard) : BlockAlloc := card.batBlocks.get card.activeBat

/-! ## Opening a card -/

def bytesToMegabits (bytes : Nat) : Option Nat :=
  let factor := 1024 * 1024 / 8
  if bytes % factor ≠ 0 then none else some (bytes / factor)

/-- The reads at the start of `Open`. -/
def readCard (sizeMbits : Nat) (file : List Byte) : Option GCMemcard := do
  let (headerBlock, file) ← Header.codec.decode file
  let (directory0, file) ← Directory.codec.decode file
  let (directory1, file) ← Directory.codec.decode file
  let (bat0, file) ← BlockAlloc.codec.decode file
  let (bat1, file) ← BlockAlloc.codec.decode file
  let sizeBlocks := sizeMbits * MBIT_TO_BLOCKS
  let (dataBlocks, _) ← (GCMBlock.codec.array (sizeBlocks - MC_FST_BLOCKS)).decode file
  return {
    valid := false
    sizeBlocks := sizeBlocks
    sizeMb := sizeMbits
    headerBlock := headerBlock
    directoryBlocks := ⟨directory0, directory1⟩
    batBlocks := ⟨bat0, bat1⟩
    dataBlocks := dataBlocks.toList
    activeDirectory := .first
    activeBat := .first }

def directoryValid (card : GCMemcard) (i : Copy) : Bool :=
  !(card.directoryBlocks.get i).checkForErrors.hasCriticalErrors

def batValid (card : GCMemcard) (i : Copy) : Bool :=
  !((card.batBlocks.get i).checkForErrors card.sizeMb).hasCriticalErrors

def numberOfCorruptedDirBatBlocks (card : GCMemcard) : Nat :=
  [card.directoryValid .first, card.directoryValid .second, card.batValid .first,
    card.batValid .second].count false

/-- The other directory with its counter advanced takes the place of directory `i`. -/
def restoreDirectory (card : GCMemcard) (i j : Copy) : GCMemcard :=
  let copy := (card.directoryBlocks.get j)
  { card with
    directoryBlocks := card.directoryBlocks.set i
      { copy with updateCounter := copy.updateCounter + 1 }.fixChecksums }

def restoreBat (card : GCMemcard) (i j : Copy) : GCMemcard :=
  let copy := (card.batBlocks.get j)
  { card with
    batBlocks := card.batBlocks.set i
      { copy with updateCounter := copy.updateCounter + 1 }.fixChecksums }

/-- Exactly one block is corrupted: it is replaced by the one of its kind that is not. -/
def restoreCorrupted (card : GCMemcard) : GCMemcard :=
  if !card.directoryValid .first then card.restoreDirectory .first .second
  else if !card.directoryValid .second then card.restoreDirectory .second .first
  else if !card.batValid .first then card.restoreBat .first .second
  else if !card.batValid .second then card.restoreBat .second .first
  else card

def dirBatErrors (card : GCMemcard) : GCMemcardErrorCode :=
  card.directoryBlocks.first.checkForErrors ++ card.directoryBlocks.second.checkForErrors ++
    card.batBlocks.first.checkForErrors card.sizeMb ++ card.batBlocks.second.checkForErrors card.sizeMb

/-- The block with the greater update counter is the one in use, the first one on a tie. -/
def selectActive (card : GCMemcard) : GCMemcard :=
  { card with
    activeDirectory :=
      if card.directoryBlocks.first.updateCounter.toInt ≥ card.directoryBlocks.second.updateCounter.toInt
      then .first else .second
    activeBat :=
      if card.batBlocks.first.updateCounter.toInt ≥ card.batBlocks.second.updateCounter.toInt
      then .first else .second }

/-- What `Open` does with a card that it has read. -/
def accept (card : GCMemcard) : GCMemcardErrorCode × Option GCMemcard :=
  let headerErrors := card.headerBlock.checkForErrors card.sizeMb
  if headerErrors.hasCriticalErrors then (headerErrors, none)
  else if card.numberOfCorruptedDirBatBlocks > 1 then
    (headerErrors ++ card.dirBatErrors, none)
  else
    let card := if card.numberOfCorruptedDirBatBlocks = 1 then card.restoreCorrupted else card
    let card := card.selectActive
    let errors := headerErrors ++ card.dirBatErrors ++
      card.getActiveDirectory.checkForErrorsWithBat card.getActiveBat
    if GCMemcardErrorCode.hasCriticalErrors errors then (errors, none)
    else (errors, some { card with valid := true })

/-- `Open`; `none` stands for a file that cannot be opened. -/
def openFile (file : Option (List Byte)) : GCMemcardErrorCode × Option GCMemcard :=
  match file with
  | none => ([.failedToOpen], none)
  | some file =>
    let filesizeMegabits := (bytesToMegabits file.length).getD 0
    if filesizeMegabits ∉ validMegabits then ([.invalidCardSize], none)
    else
      match readCard filesizeMegabits file with
      | none => ([.ioError], none)
      | some card => card.accept

/-- The bytes that `Save` writes. -/
def save (card : GCMemcard) : List Byte :=
  Header.codec.encode card.headerBlock ++
  Directory.codec.encode card.directoryBlocks.first ++
  Directory.codec.encode card.directoryBlocks.second ++
  BlockAlloc.codec.encode card.batBlocks.first ++
  BlockAlloc.codec.encode card.batBlocks.second ++
  (card.dataBlocks.take (card.sizeBlocks - MC_FST_BLOCKS)).flatMap GCMBlock.codec.encode

/-- The card that `Format` makes. -/
def format (flashId : Vector Byte 12) (sizeMbits : BitVec 16) (shiftJis : Bool)
    (rtcBias sramLanguage : BitVec 32) (formatTime : BitVec 64) : GCMemcard :=
  let sizeBlocks := sizeMbits.toNat * MBIT_TO_BLOCKS
  { valid := true
    sizeBlocks := sizeBlocks
    sizeMb := sizeMbits.toNat
    headerBlock := .formatted (HeaderData.initializeHeaderData flashId sizeMbits shiftJis rtcBias
      sramLanguage formatTime)
    directoryBlocks := ⟨.empty, .empty⟩
    batBlocks := ⟨.formatted sizeMbits, .formatted sizeMbits⟩
    dataBlocks := List.replicate (sizeBlocks - MC_FST_BLOCKS) .erased
    activeDirectory := .first
    activeBat := .first }

def fixChecksums (card : GCMemcard) : GCMemcard :=
  if !card.valid then card
  else
    { card with
      headerBlock := card.headerBlock.fixChecksums
      directoryBlocks := card.directoryBlocks.map Directory.fixChecksums
      batBlocks := card.batBlocks.map BlockAlloc.fixChecksums }

/-! ## The files -/

def getNumFiles (card : GCMemcard) : Nat :=
  if !card.valid then 0 else card.getActiveDirectory.dirEntries.toList.countP DEntry.isUsed

def sameFilename : List Byte → List Byte → Bool
  | a :: as, b :: bs => if a = 0 then b == 0 else if a ≠ b then false else sameFilename as bs
  | _, _ => true

def hasSameIdentity (lhs rhs : DEntry) : Bool :=
  lhs.gamecode == rhs.gamecode && lhs.makercode == rhs.makercode &&
    sameFilename lhs.filename.toList rhs.filename.toList

def titlePresent (card : GCMemcard) (d : DEntry) : Option Nat :=
  if !card.valid then none
  else card.getActiveDirectory.dirEntries.toList.findIdx? (hasSameIdentity · d)

def dEntryFirstBlock (card : GCMemcard) (index : Nat) : Nat :=
  if !card.valid then 0xFFFF
  else
    match card.getActiveDirectory.dirEntries[index]? with
    | none => 0xFFFF
    | some entry =>
      if entry.firstBlock.toNat > card.sizeBlocks then 0xFFFF else entry.firstBlock.toNat

def dEntryBlockCount (card : GCMemcard) (index : Nat) : Nat :=
  if !card.valid then 0xFFFF
  else
    match card.getActiveDirectory.dirEntries[index]? with
    | none => 0xFFFF
    | some entry =>
      if entry.blockCount.toNat > card.sizeBlocks then 0xFFFF else entry.blockCount.toNat

/-- `block - MC_FST_BLOCKS` as the source computes it, in 32 unsigned bits. -/
def dataIndex (block : Nat) : Nat := (block + (2 ^ 32 - MC_FST_BLOCKS)) % 2 ^ 32

inductive GCMemcardGetSaveDataRetVal where
  | success
  | fail
  | nomemcard
deriving DecidableEq

/-- The loop of `GetSaveData` with the number of rounds that are left. -/
def copyChain (card : GCMemcard) :
    Nat → Nat → List GCMBlock → Access (GCMemcardGetSaveDataRetVal × List GCMBlock)
  | 0, _, blocks => .ok (.success, blocks)
  | rounds + 1, nextBlock, blocks =>
    if nextBlock = 0 ∨ nextBlock = 0xFFFF then .ok (.fail, blocks)
    else do
      let block ← fetch card.dataBlocks (dataIndex nextBlock)
      card.copyChain rounds (card.getActiveBat.getNextBlock nextBlock) (blocks ++ [block])

def getSaveData (card : GCMemcard) (index : Nat) :
    Access (GCMemcardGetSaveDataRetVal × List GCMBlock) :=
  if !card.valid then .ok (.nomemcard, [])
  else
    let block := card.dEntryFirstBlock index
    let blockCount := card.dEntryBlockCount index
    if block = 0xFFFF ∨ blockCount = 0xFFFF then .ok (.fail, [])
    else card.copyChain blockCount block []

def exportFile (card : GCMemcard) (index : Nat) : Access (Option Savefile) :=
  if !card.valid then .ok none
  else
    match card.getActiveDirectory.dirEntries[index]? with
    | none => .ok none
    | some dirEntry =>
      if !dirEntry.isUsed then .ok none
      else do
        let (result, blocks) ← card.getSaveData index
        return if result ≠ .success then none else some { dirEntry, blocks }

def blockMax (card : GCMemcard) : Nat := MC_FST_BLOCKS + card.dataBlocks.length

/-- The first loop of `GetSaveDataBytes`: the block in which the offset lies. -/
def skipBlocks (card : GCMemcard) (offsetInCurrentBlock currentBlock : Nat) :
    Option (Fin BLOCK_SIZE × Nat) :=
  if h : offsetInCurrentBlock < BLOCK_SIZE then some (⟨offsetInCurrentBlock, h⟩, currentBlock)
  else
    let next := card.getActiveBat.getNextBlock currentBlock
    if next < MC_FST_BLOCKS ∨ next ≥ card.blockMax then none
    else card.skipBlocks (offsetInCurrentBlock - BLOCK_SIZE) next
termination_by offsetInCurrentBlock
decreasing_by unfold BLOCK_SIZE at *; omega

/-- The second loop: one block at a time goes to the end of the result. -/
def copyBytes (card : GCMemcard) (offsetInCurrentBlock : Fin BLOCK_SIZE)
    (currentBlock bytesRemaining : Nat) (result : List Byte) : Access (Option (List Byte)) := do
  let block ← fetch card.dataBlocks (dataIndex currentBlock)
  let left := min bytesRemaining (BLOCK_SIZE - offsetInCurrentBlock)
  let result := result ++ (block.toList.drop offsetInCurrentBlock).take left
  if bytesRemaining - left = 0 then return some result
  else
    let next := card.getActiveBat.getNextBlock currentBlock
    if next < MC_FST_BLOCKS ∨ next ≥ card.blockMax then return none
    else card.copyBytes ⟨0, by decide⟩ next (bytesRemaining - left) result
termination_by bytesRemaining
decreasing_by have := offsetInCurrentBlock.isLt; omega

def getSaveDataBytes (card : GCMemcard) (saveIndex offset length : Nat) :
    Access (Option (List Byte)) :=
  if !card.valid then .ok none
  else
    match card.getActiveDirectory.dirEntries[saveIndex]? with
    | none => .ok none
    | some entry =>
      let blockCount := entry.blockCount.toNat
      let firstBlock := entry.firstBlock.toNat
      if blockCount = 0xFFFF ∨ firstBlock < MC_FST_BLOCKS ∨ firstBlock ≥ card.blockMax then .ok none
      else
        let fileSize := blockCount * BLOCK_SIZE
        if offset ≥ fileSize then .ok none
        else
          match card.skipBlocks offset firstBlock with
          | none => .ok none
          | some (offsetInCurrentBlock, currentBlock) =>
            card.copyBytes offsetInCurrentBlock currentBlock (min length (fileSize - offset)) []

/-! ## Changing the files -/

def updateDirectory (card : GCMemcard) (directory : Directory) : GCMemcard :=
  let newDirectoryIndex := card.activeDirectory.other
  { card with
    directoryBlocks := card.directoryBlocks.set newDirectoryIndex directory
    activeDirectory := newDirectoryIndex }

def updateBat (card : GCMemcard) (bat : BlockAlloc) : GCMemcard :=
  let newBatIndex := card.activeBat.other
  { card with
    batBlocks := card.batBlocks.set newBatIndex bat
    activeBat := newBatIndex }

def putU16 (block : GCMBlock) (offset : Nat) (v : BitVec 16) : GCMBlock :=
  (block.setIfInBounds offset (v.extractLsb' 0 8)).setIfInBounds (offset + 1) (v.extractLsb' 8 8)

def putU32 (block : GCMBlock) (offset : Nat) (v : BitVec 32) : GCMBlock :=
  putU16 (putU16 block offset (v.extractLsb' 0 16)) (offset + 2) (v.extractLsb' 16 16)

def modifyBlock (fileBuffer : List GCMBlock) (i : Nat) (f : GCMBlock → GCMBlock) :
    Access (List GCMBlock) := do
  let block ← fetch fileBuffer i
  store fileBuffer i (f block)

/-- `strcmp` finds the name equal to `text`, which is shorter than the field. -/
def hasFilename (direntry : DEntry) (text : String) : Bool :=
  direntry.filename.toList.takeWhile (· != 0) == text.toList.map fun c => BitVec.ofNat 8 c.toNat

/-- Eight rounds of a reflected CRC over the low bits of `chksum`. -/
def crcRounds {w : Nat} (polynomial : BitVec w) : Nat → BitVec w → BitVec w
  | 0, chksum => chksum
  | n + 1, chksum =>
    crcRounds polynomial n
      (if chksum.getLsbD 0 then (chksum >>> 1) ^^^ polynomial else chksum >>> 1)

/-- `FZEROGX_MakeSaveGameValid` -/
def fzerogxMakeSaveGameValid (cardheader : Header) (direntry : DEntry)
    (fileBuffer : List GCMBlock) : Access (List GCMBlock) :=
  if !hasFilename direntry "f_zero.dat" then .ok fileBuffer
  else if fileBuffer.length ≠ 4 then .ok fileBuffer
  else do
    let (serial1, serial2) := cardheader.calculateSerial
    let upper (serial : BitVec 32) := swap16 ((swap32 serial >>> 16).setWidth 16)
    let lower (serial : BitVec 32) := swap16 ((swap32 serial).setWidth 16)
    let fileBuffer ← modifyBlock fileBuffer 1 (putU16 · 0x0066 (upper serial1))
    let fileBuffer ← modifyBlock fileBuffer 3 (putU16 · 0x1580 (upper serial2))
    let fileBuffer ← modifyBlock fileBuffer 1 (putU16 · 0x0060 (lower serial1))
    let fileBuffer ← modifyBlock fileBuffer 1 (putU16 · 0x0200 (lower serial2))
    let chksum ← (List.range' 0x02 (0x8000 - 0x02)).foldlM (fun (chksum : BitVec 16) i => do
      let block ← fetch fileBuffer (i / 0x2000)
      return crcRounds 0x8408 8 (chksum ^^^ (block[i % 0x2000]?.getD 0).setWidth 16)) 0xFFFF
    modifyBlock fileBuffer 0 (putU16 · 0x00 (swap16 (~~~chksum)))

/-- `PSO_MakeSaveGameValid` -/
def psoMakeSaveGameValid (cardheader : Header) (direntry : DEntry)
    (fileBuffer : List GCMBlock) : Access (List GCMBlock) :=
  if !hasFilename direntry "PSO_SYSTEM" && !hasFilename direntry "PSO3_SYSTEM" then .ok fileBuffer
  else do
    let pso3offset := if hasFilename direntry "PSO_SYSTEM" then 0x00 else 0x10
    let (serial1, serial2) := cardheader.calculateSerial
    let fileBuffer ← modifyBlock fileBuffer 1 (putU32 · 0x0158 serial1)
    let fileBuffer ← modifyBlock fileBuffer 1 (putU32 · 0x015C serial2)
    let block ← fetch fileBuffer 1
    let chksum := (List.range' 0x004C (0x0164 + pso3offset - 0x004C)).foldl
      (fun (chksum : BitVec 32) i =>
        let lut := crcRounds 0xEDB88320 8
          ((chksum ^^^ (block[i]?.getD 0).setWidth 32) &&& 0xFF)
        ((chksum >>> 8) &&& 0xFFFFFF) ^^^ lut) 0xDEBB20E3
    modifyBlock fileBuffer 1 (putU32 · 0x0048 (swap32 (chksum ^^^ 0xFFFFFFFF)))

inductive GCMemcardImportFileRetVal where
  | success
  | nomemcard
  | outofdirentries
  | outofblocks
  | titlepresent
deriving DecidableEq

/-- What the loop of `ImportFile` changes. -/
structure Copying where
  bat : BlockAlloc
  dataBlocks : List GCMBlock
  firstBlock : Nat
deriving DecidableEq

/-- The loop of `ImportFile` with the number of rounds that are left; `i` is the block to copy. -/
def copyBlocks (sizeBlocks : Nat) (blocks : List GCMBlock) :
    Nat → Nat → Copying → Access Copying
  | 0, _, copying => .ok copying
  | rounds + 1, i, ⟨bat, dataBlocks, firstBlock⟩ => do
    let block ← fetch blocks i
    let dataBlocks ← store dataBlocks (dataIndex firstBlock) block
    let nextBlock :=
      if rounds = 0 then 0xFFFF else bat.nextFreeBlock sizeBlocks (firstBlock + 1)
    let bat :=
      { bat.storeEntry firstBlock nextBlock with lastAllocatedBlock := BitVec.ofNat 16 firstBlock }
    copyBlocks sizeBlocks blocks rounds (i + 1) ⟨bat, dataBlocks, nextBlock⟩

/-- The active directory with the imported file in its first free entry. -/
def addEntry (directory : Directory) (direntry : DEntry) (firstBlock : Nat) : Directory :=
  let imported :=
    { direntry with
      firstBlock := BitVec.ofNat 16 firstBlock
      copyCounter := direntry.copyCounter + 1 }
  { directory with
    dirEntries :=
      match directory.dirEntries.toList.findIdx? (!·.isUsed) with
      | none => directory.dirEntries
      | some i => directory.dirEntries.setIfInBounds i imported
    updateCounter := directory.updateCounter + 1 }

def importFile (card : GCMemcard) (savefile : Savefile) :
    Access (GCMemcardImportFileRetVal × GCMemcard) :=
  let direntry := savefile.dirEntry
  if !card.valid then .ok (.nomemcard, card)
  else if card.getNumFiles ≥ DIRLEN then .ok (.outofdirentries, card)
  else if card.getActiveBat.freeBlocks.toNat < direntry.blockCount.toNat then
    .ok (.outofblocks, card)
  else if (card.titlePresent direntry).isSome then .ok (.titlepresent, card)
  else
    let firstBlock := card.getActiveBat.nextFreeBlock card.sizeBlocks
      card.getActiveBat.lastAllocatedBlock.toNat
    if firstBlock = 0xFFFF then .ok (.outofblocks, card)
    else do
      let card := card.updateDirectory (addEntry card.getActiveDirectory direntry firstBlock)
      let fileBlocks := direntry.blockCount.toNat
      let blocks ← fzerogxMakeSaveGameValid card.headerBlock direntry savefile.blocks
      let blocks ← psoMakeSaveGameValid card.headerBlock direntry blocks
      let ⟨bat, dataBlocks, _⟩ ← copyBlocks card.sizeBlocks blocks fileBlocks 0
        ⟨card.getActiveBat, card.dataBlocks, firstBlock⟩
      let updatedBat :=
        { bat with
          freeBlocks := bat.freeBlocks - BitVec.ofNat 16 fileBlocks
          updateCounter := bat.updateCounter + 1 }
      return (.success, ({ card with dataBlocks := dataBlocks }.updateBat updatedBat).fixChecksums)

inductive GCMemcardRemoveFileRetVal where
  | success
  | nomemcard
  | deleteFail
deriving DecidableEq

/-- The directory with all bytes of entry `index` set to 0xFF. -/
def eraseEntry (directory : Directory) (index : Nat) : Directory :=
  { directory with
    dirEntries := directory.dirEntries.setIfInBounds index DEntry.empty
    updateCounter := directory.updateCounter + 1 }

/-- `RemoveFile`; `none` when the fuel does not reach to the end of the chain. -/
def removeFile (fuel : Nat) (card : GCMemcard) (index : Nat) :
    Option (GCMemcardRemoveFileRetVal × GCMemcard) :=
  if !card.valid then some (.nomemcard, card)
  else
    match card.getActiveDirectory.dirEntries[index]? with
    | none => some (.deleteFail, card)
    | some entry => do
      match ← card.getActiveBat.clearBlocks fuel entry.firstBlock.toNat entry.blockCount.toNat with
      | none => return (.deleteFail, card)
      | some bat =>
        let card := card.updateBat { bat with updateCounter := bat.updateCounter + 1 }
        let card := card.updateDirectory (eraseEntry card.getActiveDirectory index)
        return (.success, card.fixChecksums)

end GCMemcard

end Phocoena.Memcard
