import Phocoena.DiscIO.CompressedBlob
import Phocoena.DiscIO.LaggedFibonacciGenerator
import Mathlib.Logic.Function.Basic

/-! # NFS files

A disc image that is stored encrypted in part files, with ranges of its blocks left out. The bytes
of a block and of an array are given by their positions. Decryption with the key of the image is a
parameter. The names of the files, the key file and the magic number are not modelled.
-/

namespace Phocoena.DiscIO

def NFS_BLOCK_SIZE : Nat := 0x8000

def NFS_MAX_FILE_SIZE : Nat := 0xFA00000

/-- `sizeof(NFSHeader)` -/
def NFS_HEADER_SIZE : Nat := 0x200

def BLOCKS_PER_FILE : Nat := NFS_MAX_FILE_SIZE / NFS_BLOCK_SIZE

/-- A range of logical block addresses, in the byte order of the host. -/
structure NFSLBARange where
  start_block : BitVec 32
  num_blocks : BitVec 32
deriving DecidableEq

/-- The fields that tell where blocks are, in the byte order of the host. -/
structure NFSHeader where
  lba_range_count : BitVec 32
  lba_ranges : Vector NFSLBARange 61

/-- `AES::Context::Crypt` with the key: the bytes for an initialization vector and a block. -/
abbrev Decrypt := List Byte → List Byte → Nat → Byte

structure NFSFileReader where
  m_lba_ranges : List NFSLBARange
  m_files : List (List Byte)

/-- `m_current_logical_block_index`, `none` before the first block, and
`m_current_block_decrypted`. -/
structure NFSFileReader.State where
  index : Option Nat
  decrypted : Nat → Byte

def NFSFileReader.State.initial : NFSFileReader.State := ⟨none, fun _ => 0⟩

def getLBARanges (header : NFSHeader) : List NFSLBARange :=
  header.lba_ranges.toList.take (min header.lba_range_count.toNat 61)

def calculateExpectedRawSize (lba_ranges : List NFSLBARange) : Nat :=
  NFS_HEADER_SIZE + (lba_ranges.map (·.num_blocks.toNat)).sum * NFS_BLOCK_SIZE

/-- The greatest block index, in 32 bits. -/
def greatestBlockIndex (lba_ranges : List NFSLBARange) : BitVec 32 :=
  lba_ranges.foldl (fun greatest range =>
    if greatest < range.start_block + range.num_blocks then range.start_block + range.num_blocks
    else greatest) 0

def calculateExpectedDataSize (lba_ranges : List NFSLBARange) : Nat :=
  (greatestBlockIndex lba_ranges).toNat * NFS_BLOCK_SIZE

/-- The part files: the first one, and those that are found under the numbers of the others. -/
def openFiles (first_file : List Byte) (child : Nat → Option (List Byte))
    (expected_raw_size : Nat) : Option (List (List Byte)) := do
  let file_count := alignUp expected_raw_size NFS_MAX_FILE_SIZE / NFS_MAX_FILE_SIZE
  let children ← (List.range (file_count - 1)).mapM fun i => child (i + 1)
  let files := first_file :: children
  if (files.map List.length).sum < expected_raw_size then none else some files

namespace NFSFileReader

def create (header : NFSHeader) (first_file : List Byte) (child : Nat → Option (List Byte)) :
    Option NFSFileReader := do
  let lba_ranges := getLBARanges header
  let files ← openFiles first_file child (calculateExpectedRawSize lba_ranges)
  return ⟨lba_ranges, files⟩

def getDataSize (r : NFSFileReader) : Nat := calculateExpectedDataSize r.m_lba_ranges

/-- The loop of `ToPhysicalBlockIndex`; `none` is the greatest word of 64 bits. -/
def toPhysicalBlockIndexFrom (logical_block_index physical_blocks_so_far : Nat) :
    List NFSLBARange → Option Nat
  | [] => none
  | range :: ranges =>
      if range.start_block.toNat ≤ logical_block_index ∧
          logical_block_index < (range.start_block + range.num_blocks).toNat then
        some (physical_blocks_so_far + (logical_block_index - range.start_block.toNat))
      else
        toPhysicalBlockIndexFrom logical_block_index
          (physical_blocks_so_far + range.num_blocks.toNat) ranges

def toPhysicalBlockIndex (logical_block_index : Nat) (r : NFSFileReader) : Option Nat :=
  toPhysicalBlockIndexFrom logical_block_index 0 r.m_lba_ranges

/-- `m_files[index].OffsetRead`, where `works k` is whether the file system does what read number
`k` asks for. -/
def readFile (works : Nat → Bool) (k index offset size : Nat) (r : NFSFileReader) :
    Except Fault (Option (List Byte)) :=
  match r.m_files[index]? with
  | none => .error .outOfBounds
  | some file => .ok (if works k then offsetRead file offset size else none)

/-- The block, if all of it can be read, and the number of the next read. -/
def readEncryptedBlock (works : Nat → Bool) (k physical_block_index : Nat) (r : NFSFileReader) :
    Except Fault (Option (List Byte) × Nat) := do
  let file_index := physical_block_index / BLOCKS_PER_FILE
  let block_in_file := physical_block_index % BLOCKS_PER_FILE
  let offset_in_file := NFS_HEADER_SIZE + block_in_file * NFS_BLOCK_SIZE
  if block_in_file = BLOCKS_PER_FILE - 1 then
    -- The references to both files are taken before the first one is read.
    if r.m_files.length ≤ file_index + 1 then throw .outOfBounds
    match ← r.readFile works k file_index offset_in_file (NFS_BLOCK_SIZE - NFS_HEADER_SIZE) with
    | none => return (none, k + 1)
    | some part1 =>
        match ← r.readFile works (k + 1) (file_index + 1) 0 NFS_HEADER_SIZE with
        | none => return (none, k + 2)
        | some part2 => return (some (part1 ++ part2), k + 2)
  else
    return (← r.readFile works k file_index offset_in_file NFS_BLOCK_SIZE, k + 1)

/-- The initialization vector of a block: its index in the last 8 bytes, the highest first. -/
def blockIv (logical_block_index : Nat) : List Byte :=
  List.replicate 8 (0 : Byte) ++
    (List.range 8).map fun i => BitVec.ofNat 8 (logical_block_index >>> (8 * (7 - i)))

/-- Small hack: 0x61 of the header is 1 so that the image is taken for an unencrypted one. -/
def markUnencrypted (logical_block_index : Nat) (decrypted : Nat → Byte) : Nat → Byte :=
  if logical_block_index = 0 then Function.update decrypted 0x61 1 else decrypted

def readAndDecryptBlock (crypt : Decrypt) (works : Nat → Bool) (k logical_block_index : Nat)
    (r : NFSFileReader) : Except Fault (Option (Nat → Byte) × Nat) :=
  match r.toPhysicalBlockIndex logical_block_index with
  | none => return (some (markUnencrypted logical_block_index fun _ => 0), k)
  | some physical_block_index => do
      match ← r.readEncryptedBlock works k physical_block_index with
      | (none, k) => return (none, k)
      | (some encrypted, k) =>
          return (some (markUnencrypted logical_block_index
            (crypt (blockIv logical_block_index) encrypted)), k)

/-- The block in `m_current_block_decrypted`, which is read first if another one is there. -/
def currentBlock (crypt : Decrypt) (works : Nat → Bool) (k logical_block_index : Nat) (s : State)
    (r : NFSFileReader) : Except Fault (Option (Nat → Byte) × Nat) :=
  if s.index = some logical_block_index then return (some s.decrypted, k)
  else r.readAndDecryptBlock crypt works k logical_block_index

/-- The bytes that are copied to `out_ptr`, `none` if `Read` returns false. -/
def read (crypt : Decrypt) (works : Nat → Bool) (k offset nbytes : Nat) (s : State)
    (r : NFSFileReader) : Except Fault (Option (List Byte) × State) :=
  if nbytes = 0 then return (some [], s)
  else do
    let logical_block_index := offset / NFS_BLOCK_SIZE
    let offset_in_block := offset % NFS_BLOCK_SIZE
    match ← r.currentBlock crypt works k logical_block_index s with
    | (none, _) => return (none, s)
    | (some decrypted, k) =>
        let bytes_to_copy := min nbytes (NFS_BLOCK_SIZE - offset_in_block)
        let bytes := (List.range bytes_to_copy).map fun i => decrypted (offset_in_block + i)
        let (rest, s) ← r.read crypt works k (offset + bytes_to_copy) (nbytes - bytes_to_copy)
          ⟨some logical_block_index, decrypted⟩
        return (rest.map (bytes ++ ·), s)
termination_by nbytes
decreasing_by
  have := Nat.mod_lt offset (show 0 < NFS_BLOCK_SIZE by decide)
  omega

end NFSFileReader

end Phocoena.DiscIO
