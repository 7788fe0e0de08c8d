import Phocoena.Lib.Codec

/-! # The blocks of a memory card

The blocks of a memory card from `GCMemcard.h`: the header, the directory, the block allocation map
and the data blocks, with their layouts on the card, their checksums and the checks each one passes
alone (`GCMemcard.cpp`). Words that `Common::BigEndianValue` wraps are big-endian on the card, the
plain ones are as the host stores them.
-/

namespace Phocoena.Memcard

/-! ## Errors -/

inductive GCMemcardValidityIssues where
  | failedToOpen
  | ioError
  | invalidCardSize
  | invalidChecksum
  | mismatchedCardSize
  | freeBlockMismatch
  | dirBatInconsistent
  | dataInUnusedArea
deriving DecidableEq

/-- The set of issues found so far. -/
abbrev GCMemcardErrorCode := List GCMemcardValidityIssues

def GCMemcardErrorCode.hasCriticalErrors (code : GCMemcardErrorCode) : Bool :=
  code.contains .failedToOpen || code.contains .ioError || code.contains .invalidCardSize ||
    code.contains .invalidChecksum || code.contains .mismatchedCardSize ||
    code.contains .freeBlockMismatch || code.contains .dirBatInconsistent

/-- The code with `issue` set when `found`. -/
def setIf (found : Bool) (issue : GCMemcardValidityIssues) : GCMemcardErrorCode :=
  if found then [issue] else []

@[simp] theorem hasCriticalErrors_append (a b : GCMemcardErrorCode) :
    GCMemcardErrorCode.hasCriticalErrors (a ++ b) =
      (GCMemcardErrorCode.hasCriticalErrors a || GCMemcardErrorCode.hasCriticalErrors b) := by
  simp only [GCMemcardErrorCode.hasCriticalErrors, List.contains_append]
  grind

@[simp] theorem hasCriticalErrors_setIf_unused (found : Bool) :
    GCMemcardErrorCode.hasCriticalErrors (setIf found .dataInUnusedArea) = false := by
  cases found <;> rfl

theorem hasCriticalErrors_setIf {issue : GCMemcardValidityIssues}
    (critical : issue ≠ .dataInUnusedArea) (found : Bool) :
    GCMemcardErrorCode.hasCriticalErrors (setIf found issue) = found := by
  cases found
  · rfl
  · cases issue <;> first | rfl | exact absurd rfl critical

/-! ## Sizes -/

def BLOCK_SIZE : Nat := 0x2000
def MBIT_TO_BLOCKS : Nat := 16
def MC_FST_BLOCKS : Nat := 5
def DIRLEN : Nat := 0x7F
def BAT_SIZE : Nat := 0xFFB

/-- The sizes of a memory card in megabits. -/
def validMegabits : List Nat := [0x04, 0x08, 0x10, 0x20, 0x40, 0x80]

abbrev GCMBlock := Vector Byte BLOCK_SIZE

def GCMBlock.codec : Codec GCMBlock := Codec.byte.array BLOCK_SIZE

/-- `GCMBlock::Erase` -/
def GCMBlock.erased : GCMBlock := Vector.replicate BLOCK_SIZE 0xFF

/-! ## Checksums -/

def swap16 (v : BitVec 16) : BitVec 16 := v.extractLsb' 0 8 ++ v.extractLsb' 8 8

def swap32 (v : BitVec 32) : BitVec 32 :=
  v.extractLsb' 0 8 ++ v.extractLsb' 8 8 ++ v.extractLsb' 16 8 ++ v.extractLsb' 24 8

def sumWords : List Byte → BitVec 16 × BitVec 16 → BitVec 16 × BitVec 16
  | hi :: lo :: rest, (csum, invCsum) =>
    let d : BitVec 16 := hi ++ lo
    sumWords rest (csum + d, invCsum + (d ^^^ 0xFFFF))
  | _, sums => sums

def calculateMemcardChecksums (data : List Byte) : BitVec 16 × BitVec 16 :=
  let (csum, invCsum) := sumWords data (0, 0)
  let csum := swap16 csum
  let invCsum := swap16 invCsum
  (if csum = 0xFFFF then 0 else csum, if invCsum = 0xFFFF then 0 else invCsum)

/-- The bytes of `raw` from `start` to before `stop`. -/
def slice (raw : List Byte) (start stop : Nat) : List Byte := (raw.drop start).take (stop - start)

/-! ## The header -/

structure HeaderData where
  serial : Vector Byte 12
  formatTime : BitVec 64
  sramBias : BitVec 32
  sramLanguage : BitVec 32
  dtvStatus : BitVec 32
  deviceId : BitVec 16
  sizeMb : BitVec 16
  encoding : BitVec 16
deriving DecidableEq

structure Header where
  data : HeaderData
  unused1 : Vector Byte 468
  updateCounter : BitVec 16
  checksum : BitVec 16
  checksumInv : BitVec 16
  unused2 : Vector Byte 7680
deriving DecidableEq

namespace HeaderData

def codec : Codec HeaderData :=
  ((Codec.byte.array 12).pair <| Codec.be64.pair <| Codec.le32.pair <| Codec.be32.pair <|
    Codec.le32.pair <| Codec.be16.pair <| Codec.be16.pair Codec.be16).map
    (fun d => (d.serial, d.formatTime, d.sramBias, d.sramLanguage, d.dtvStatus, d.deviceId,
      d.sizeMb, d.encoding))
    (fun (serial, formatTime, sramBias, sramLanguage, dtvStatus, deviceId, sizeMb, encoding) =>
      { serial, formatTime, sramBias, sramLanguage, dtvStatus, deviceId, sizeMb, encoding })
    fun _ => rfl

/-- The generator that `InitializeHeaderData` mixes into the flash id, for the bytes from `i` on. -/
def initializeSerial (flashId : Vector Byte 12) : Nat → BitVec 64 → Vector Byte 12 → Vector Byte 12
  | 0, _, serial => serial
  | n + 1, rand, serial =>
    let i := 12 - (n + 1)
    let rand := (rand * 0x41c64e6d#64 + 0x3039#64) >>> 16
    let serial := serial.setIfInBounds i (flashId[i]?.getD 0 + rand.setWidth 8)
    let rand := ((rand * 0x41c64e6d#64 + 0x3039#64) >>> 16) &&& 0x7fff#64
    initializeSerial flashId n rand serial

/-- `InitializeHeaderData` -/
def initializeHeaderData (flashId : Vector Byte 12) (sizeMbits : BitVec 16) (shiftJis : Bool)
    (rtcBias sramLanguage : BitVec 32) (formatTime : BitVec 64) : HeaderData where
  sizeMb := sizeMbits
  encoding := if shiftJis then 1 else 0
  formatTime := formatTime
  serial := initializeSerial flashId 12 formatTime (Vector.replicate 12 0xFF)
  sramBias := rtcBias
  sramLanguage := sramLanguage
  dtvStatus := 0
  deviceId := 0

end HeaderData

namespace Header

def codec : Codec Header :=
  ((HeaderData.codec.pair <| (Codec.byte.array 468).pair Codec.le16).pair <|
    Codec.le16.pair <| Codec.le16.pair <| Codec.byte.array 7680).map
    (fun h => ((h.data, h.unused1, h.updateCounter), h.checksum, h.checksumInv, h.unused2))
    (fun ((data, unused1, updateCounter), checksum, checksumInv, unused2) =>
      { data, unused1, updateCounter, checksum, checksumInv, unused2 })
    fun _ => rfl

/-- The area from `m_data` to `m_checksum`. -/
def calculateChecksums (h : Header) : BitVec 16 × BitVec 16 :=
  calculateMemcardChecksums (slice (codec.encode h) 0 0x1FC)

def fixChecksums (h : Header) : Header :=
  { h with checksum := h.calculateChecksums.1, checksumInv := h.calculateChecksums.2 }

/-- The constructor of a formatted header block. -/
def formatted (data : HeaderData) : Header :=
  fixChecksums
    { data
      unused1 := Vector.replicate 468 0xFF
      updateCounter := 0xFFFF
      checksum := 0xFFFF
      checksumInv := 0xFFFF
      unused2 := Vector.replicate 7680 0xFF }

def littleEndianWord (bytes : List Byte) (i : Nat) : BitVec 32 :=
  bytes[i + 3]?.getD 0 ++ bytes[i + 2]?.getD 0 ++ bytes[i + 1]?.getD 0 ++ bytes[i]?.getD 0

def calculateSerial (h : Header) : BitVec 32 × BitVec 32 :=
  let raw := (codec.encode h).take 32
  ([0, 8, 16, 24].foldl (fun serial i => serial ^^^ littleEndianWord raw i) 0,
    [0, 8, 16, 24].foldl (fun serial i => serial ^^^ littleEndianWord raw (i + 4)) 0)

def checkForErrors (h : Header) (cardSizeMbits : Nat) : GCMemcardErrorCode :=
  setIf (h.data.sizeMb.toNat != cardSizeMbits) .mismatchedCardSize ++
  setIf (h.unused1.toList.any (· != 0xFF) || h.unused2.toList.any (· != 0xFF)) .dataInUnusedArea ++
  setIf (h.calculateChecksums != (h.checksum, h.checksumInv)) .invalidChecksum

end Header

/-! ## The block allocation map -/

structure BlockAlloc where
  checksum : BitVec 16
  checksumInv : BitVec 16
  /-- signed -/
  updateCounter : BitVec 16
  freeBlocks : BitVec 16
  lastAllocatedBlock : BitVec 16
  map : Vector (BitVec 16) BAT_SIZE
deriving DecidableEq

namespace BlockAlloc

def codec : Codec BlockAlloc :=
  ((Codec.le16.pair Codec.le16).pair <|
    Codec.be16.pair <| Codec.be16.pair <| Codec.be16.pair <| Codec.be16.array BAT_SIZE).map
    (fun b => ((b.checksum, b.checksumInv), b.updateCounter, b.freeBlocks, b.lastAllocatedBlock,
      b.map))
    (fun ((checksum, checksumInv), updateCounter, freeBlocks, lastAllocatedBlock, map) =>
      { checksum, checksumInv, updateCounter, freeBlocks, lastAllocatedBlock, map })
    fun _ => rfl

/-- The area from `m_update_counter` to the end. -/
def calculateChecksums (b : BlockAlloc) : BitVec 16 × BitVec 16 :=
  calculateMemcardChecksums (slice (codec.encode b) 4 BLOCK_SIZE)

def fixChecksums (b : BlockAlloc) : BlockAlloc :=
  { b with checksum := b.calculateChecksums.1, checksumInv := b.calculateChecksums.2 }

/-- The constructor. -/
def formatted (sizeMbits : BitVec 16) : BlockAlloc :=
  fixChecksums
    { checksum := 0
      checksumInv := 0
      updateCounter := 0
      freeBlocks := BitVec.ofNat 16 (sizeMbits.toNat * MBIT_TO_BLOCKS - MC_FST_BLOCKS)
      lastAllocatedBlock := 4
      map := Vector.replicate BAT_SIZE 0 }

/-- The entry of the map for a block, which the callers keep inside the map. -/
def entry (b : BlockAlloc) (block : Nat) : Nat := (b.map[block - MC_FST_BLOCKS]?.getD 0).toNat

def getNextBlock (b : BlockAlloc) (block : Nat) : Nat :=
  if block < MC_FST_BLOCKS ∨ block > 4091 then 0 else b.entry block

/-- `std::clamp` to the blocks that have an entry in the map. -/
def clampBlock (block : Nat) : Nat := max MC_FST_BLOCKS (min block (BAT_SIZE + MC_FST_BLOCKS))

def nextFreeBlock (b : BlockAlloc) (maxBlock startingBlock : Nat) : Nat :=
  if b.freeBlocks.toNat > 0 then
    let startingBlock := clampBlock startingBlock
    let maxBlock := clampBlock maxBlock
    let isFree i := b.entry i == 0
    match (List.range' startingBlock (maxBlock - startingBlock)).find? isFree with
    | some i => i
    | none =>
      match (List.range' MC_FST_BLOCKS (startingBlock - MC_FST_BLOCKS)).find? isFree with
      | some i => i
      | none => 0xFFFF
  else 0xFFFF

/-- The loop of `ClearBlocks` that follows the chain: the blocks on it and the number that ends it,
`none` when the fuel does not reach that far. -/
def collectBlocks (b : BlockAlloc) : Nat → Nat → Option (List Nat × Nat)
  | 0, _ => none
  | fuel + 1, startingBlock =>
    if startingBlock ≠ 0xFFFF ∧ startingBlock ≠ 0 then
      (b.collectBlocks fuel (b.getNextBlock startingBlock)).map fun (blocks, last) =>
        (startingBlock :: blocks, last)
    else some ([], startingBlock)

def storeEntry (b : BlockAlloc) (block value : Nat) : BlockAlloc :=
  { b with map := b.map.setIfInBounds (block - MC_FST_BLOCKS) (BitVec.ofNat 16 value) }

/-- `none` in the inner option where the source returns `false`. -/
def clearBlocks (b : BlockAlloc) (fuel startingBlock blockCount : Nat) :
    Option (Option BlockAlloc) := do
  let (blocks, last) ← b.collectBlocks fuel startingBlock
  if last > 0 then
    if blocks.length ≠ blockCount then
      return none
    -- A block that has a successor has an entry in the map.
    let cleared := blocks.foldl (fun b block => b.storeEntry block 0) b
    return some { cleared with freeBlocks := cleared.freeBlocks + BitVec.ofNat 16 blockCount }
  return none

def blocksInUse (b : BlockAlloc) (totalAvailableBlocks : Nat) : Nat :=
  (b.map.toList.take totalAvailableBlocks).countP (· != 0)

def checkForErrors (b : BlockAlloc) (sizeMbits : Nat) : GCMemcardErrorCode :=
  setIf (b.calculateChecksums != (b.checksum, b.checksumInv)) .invalidChecksum ++
  if sizeMbits > 0 ∧ sizeMbits ≤ 256 then
    let totalAvailableBlocks := sizeMbits * MBIT_TO_BLOCKS - MC_FST_BLOCKS
    let freeBlocks := totalAvailableBlocks - b.blocksInUse totalAvailableBlocks
    setIf (freeBlocks != b.freeBlocks.toNat) .freeBlockMismatch ++
    setIf ((b.map.toList.drop totalAvailableBlocks).any (· != 0)) .dataInUnusedArea
  else
    [.invalidCardSize]

end BlockAlloc

/-! ## The directory -/

structure DEntry where
  gamecode : Vector Byte 4
  makercode : Vector Byte 2
  unused1 : Byte
  bannerAndIconFlags : Byte
  filename : Vector Byte 32
  modificationTime : BitVec 32
  imageOffset : BitVec 32
  iconFormat : BitVec 16
  animationSpeed : BitVec 16
  filePermissions : Byte
  copyCounter : Byte
  firstBlock : BitVec 16
  blockCount : BitVec 16
  unused2 : Vector Byte 2
  commentsAddress : BitVec 32
deriving DecidableEq

structure Directory where
  dirEntries : Vector DEntry DIRLEN
  padding : Vector Byte 0x3A
  /-- signed -/
  updateCounter : BitVec 16
  checksum : BitVec 16
  checksumInv : BitVec 16
deriving DecidableEq

namespace DEntry

def UNINITIALIZED_GAMECODE : Vector Byte 4 := #v[0xFF, 0xFF, 0xFF, 0xFF]

def codec : Codec DEntry :=
  ((Codec.byte.array 4).pair <| (Codec.byte.array 2).pair <| Codec.byte.pair <| Codec.byte.pair <|
    (Codec.byte.array 32).pair <| Codec.be32.pair <| Codec.be32.pair <| Codec.be16.pair <|
    Codec.be16.pair <| Codec.byte.pair <| Codec.byte.pair <| Codec.be16.pair <| Codec.be16.pair <|
    (Codec.byte.array 2).pair Codec.be32).map
    (fun d => (d.gamecode, d.makercode, d.unused1, d.bannerAndIconFlags, d.filename,
      d.modificationTime, d.imageOffset, d.iconFormat, d.animationSpeed, d.filePermissions,
      d.copyCounter, d.firstBlock, d.blockCount, d.unused2, d.commentsAddress))
    (fun (gamecode, makercode, unused1, bannerAndIconFlags, filename, modificationTime,
        imageOffset, iconFormat, animationSpeed, filePermissions, copyCounter, firstBlock,
        blockCount, unused2, commentsAddress) =>
      { gamecode, makercode, unused1, bannerAndIconFlags, filename, modificationTime, imageOffset,
        iconFormat, animationSpeed, filePermissions, copyCounter, firstBlock, blockCount, unused2,
        commentsAddress })
    fun _ => rfl

/-- The entry of which all bytes are 0xFF. -/
def empty : DEntry where
  gamecode := UNINITIALIZED_GAMECODE
  makercode := Vector.replicate 2 0xFF
  unused1 := 0xFF
  bannerAndIconFlags := 0xFF
  filename := Vector.replicate 32 0xFF
  modificationTime := 0xFFFFFFFF
  imageOffset := 0xFFFFFFFF
  iconFormat := 0xFFFF
  animationSpeed := 0xFFFF
  filePermissions := 0xFF
  copyCounter := 0xFF
  firstBlock := 0xFFFF
  blockCount := 0xFFFF
  unused2 := Vector.replicate 2 0xFF
  commentsAddress := 0xFFFFFFFF

def isUsed (d : DEntry) : Bool := d.gamecode != UNINITIALIZED_GAMECODE

end DEntry

namespace Directory

def codec : Codec Directory :=
  (((DEntry.codec.array DIRLEN).pair <| (Codec.byte.array 0x3A).pair Codec.be16).pair <|
    Codec.le16.pair Codec.le16).map
    (fun d => ((d.dirEntries, d.padding, d.updateCounter), d.checksum, d.checksumInv))
    (fun ((dirEntries, padding, updateCounter), checksum, checksumInv) =>
      { dirEntries, padding, updateCounter, checksum, checksumInv })
    fun _ => rfl

/-- The area from `m_dir_entries` to `m_checksum`. -/
def calculateChecksums (d : Directory) : BitVec 16 × BitVec 16 :=
  calculateMemcardChecksums (slice (codec.encode d) 0 0x1FFC)

def fixChecksums (d : Directory) : Directory :=
  { d with checksum := d.calculateChecksums.1, checksumInv := d.calculateChecksums.2 }

/-- The constructor. -/
def empty : Directory where
  dirEntries := Vector.replicate DIRLEN DEntry.empty
  padding := Vector.replicate 0x3A 0xFF
  updateCounter := 0
  checksum := swap16 0xF003
  checksumInv := 0

def checkForErrors (d : Directory) : GCMemcardErrorCode :=
  setIf (d.calculateChecksums != (d.checksum, d.checksumInv)) .invalidChecksum ++
  setIf (d.padding.toList.any (· != 0xFF)) .dataInUnusedArea

/-- The loop of `CheckForErrorsWithBat` over the blocks of one file. -/
def batBlockCountMatches (bat : BlockAlloc) : Nat → Nat → Bool
  | 0, _ => false
  | remainingBlocks + 1, currentBlock =>
    let nextBlock := bat.getNextBlock currentBlock
    if nextBlock = 0 then false
    else if nextBlock = 0xFFFF then remainingBlocks == 0
    else batBlockCountMatches bat remainingBlocks nextBlock

def checkForErrorsWithBat (d : Directory) (bat : BlockAlloc) : GCMemcardErrorCode :=
  setIf (d.dirEntries.toList.any fun entry =>
    entry.isUsed && !batBlockCountMatches bat entry.blockCount.toNat entry.firstBlock.toNat)
    .dirBatInconsistent

end Directory

end Phocoena.Memcard
