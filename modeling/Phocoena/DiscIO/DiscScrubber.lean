import Phocoena.DiscIO.WIABlob
import Phocoena.Lib.Fallible

/-! # Which blocks of a disc hold data

The table of free clusters of a scrubber, from the partitions, system files and files of a disc. An
index outside of the table is a fault. Addresses are natural numbers with the wrapping of 32 and 64
bits written out; no partition at all is `none`, as is a read that fails.
-/

namespace Phocoena.DiscIO

/-- An entry of a file system, by the words of its offset and its size. -/
inductive FileSystem.FileInfo
  | file (offset size : BitVec 32)
  | directory (children : List FileSystem.FileInfo)

/-- What is read of a disc, outside of partitions and in the data of one. -/
structure Disc where
  GetDataSize : Nat
  HasWiiHashes : Bool
  GetPartitions : List Partition
  /-- `GetOffsetShift`, 0 for GameCube discs and 2 for Wii discs. -/
  GetOffsetShift : Nat
  shift_le : GetOffsetShift ≤ 2
  ReadSwapped : Nat → Option Partition → Option (BitVec 32)
  /-- The entries of the root of the file system. -/
  GetFileSystem : Option Partition → Option (List FileSystem.FileInfo)

namespace Disc

variable (disc : Disc)

def shifted (word : BitVec 32) : Nat := u64 (word.toNat <<< disc.GetOffsetShift)

def ReadSwappedAndShifted (offset : Nat) (partition : Option Partition) : Option Nat :=
  (disc.ReadSwapped offset partition).map disc.shifted

/-- Offset zero is invalid. -/
def GetBootDOLOffset (partition : Option Partition) : Option Nat :=
  (disc.ReadSwappedAndShifted 0x420 partition).filter (· ≠ 0)

/-- The greatest end of the segments whose offsets and sizes are at two places of the header. -/
def segmentsEnd (partition : Option Partition) (offsets sizes : Nat) : Nat → Nat → Option Nat
  | 0, dol_size => some dol_size
  | count + 1, dol_size => do
      let dol_size ← segmentsEnd partition offsets sizes count dol_size
      let offset ← disc.ReadSwapped (u64 (offsets + count * 4)) partition
      let size ← disc.ReadSwapped (u64 (sizes + count * 4)) partition
      some (max (u32 (offset.toNat + size.toNat)) dol_size)

/-- Of the 7 code segments and the 11 data segments. -/
def GetBootDOLSize (partition : Option Partition) (dol_offset : Nat) : Option Nat := do
  let dol_size ← disc.segmentsEnd partition (dol_offset + 0x00) (dol_offset + 0x90) 7 0
  disc.segmentsEnd partition (dol_offset + 0x1c) (dol_offset + 0xac) 11 dol_size

def GetFSTOffset (partition : Option Partition) : Option Nat :=
  disc.ReadSwappedAndShifted 0x424 partition

def GetFSTSize (partition : Option Partition) : Option Nat :=
  disc.ReadSwappedAndShifted 0x428 partition

end Disc

namespace DiscScrubber

def CLUSTER_SIZE : Nat := 0x8000

end DiscScrubber

structure DiscScrubber where
  /-- `true` for a free cluster. -/
  m_free_table : List Bool
  m_file_size : Nat
  m_has_wii_hashes : Bool
  m_is_scrubbing : Bool
deriving DecidableEq

namespace DiscScrubber

/-- Parsing that can fail to read. -/
abbrev Parse := OptionT (Except Fault)

def CanBlockBeScrubbed (s : DiscScrubber) (offset : Nat) : Bool :=
  if !s.m_is_scrubbing then false
  else
    match s.m_free_table[offset / CLUSTER_SIZE]? with
    | none => true
    | some free => free

/-- The loop of `MarkAsUsed`. -/
def markFrom (file_size end_offset : Nat) : Nat → Nat → List Bool → Except Fault (List Bool)
  | 0, _, _ => .error .endless
  | fuel + 1, current_offset, table =>
      if current_offset < end_offset ∧ current_offset < file_size then
        if current_offset / CLUSTER_SIZE < table.length then
          markFrom file_size end_offset fuel (u64 (current_offset + CLUSTER_SIZE))
            (table.set (current_offset / CLUSTER_SIZE) false)
        else .error .outOfBounds
      else .ok table

def MarkAsUsed (offset size : Nat) (s : DiscScrubber) : Parse DiscScrubber :=
  OptionT.mk <|
    (markFrom s.m_file_size (u64 (offset + size)) (s.m_free_table.length + 1)
      (AlignDown offset CLUSTER_SIZE) s.m_free_table).map
        fun table => some { s with m_free_table := table }

/-- Skips the hashes of each block, and rounds to blocks. -/
def ToClusterOffset (s : DiscScrubber) (offset : Nat) : Nat :=
  if s.m_has_wii_hashes then u64 (offset / 0x7c00 * CLUSTER_SIZE)
  else AlignDown offset CLUSTER_SIZE

def MarkAsUsedE (partition_data_offset offset size : Nat) (s : DiscScrubber) :
    Parse DiscScrubber :=
  if partition_data_offset = 0 then MarkAsUsed offset size s
  else
    let first_cluster_start := u64 (s.ToClusterOffset offset + partition_data_offset)
    let last_cluster_end :=
      if size = 0 then first_cluster_start
      else u64 (s.ToClusterOffset (u64 (offset + size - 1)) + CLUSTER_SIZE + partition_data_offset)
    MarkAsUsed first_cluster_start (sub64 last_cluster_end first_cluster_start) s

/-! `ParseFileSystemData`, for an entry and for the entries of a directory. -/

mutual

def parseFileInfo (disc : Disc) (partition_data_offset : Nat) :
    FileSystem.FileInfo → DiscScrubber → Parse DiscScrubber
  | .file offset size, s => MarkAsUsedE partition_data_offset (disc.shifted offset) size.toNat s
  | .directory children, s => ParseFileSystemData disc partition_data_offset children s

def ParseFileSystemData (disc : Disc) (partition_data_offset : Nat) :
    List FileSystem.FileInfo → DiscScrubber → Parse DiscScrubber
  | [], s => pure s
  | file_info :: rest, s => do
      let s ← parseFileInfo disc partition_data_offset file_info s
      ParseFileSystemData disc partition_data_offset rest s

end

/-- Where the data of a partition begin, zero for a disc without partitions. -/
def partitionDataOffset (disc : Disc) : Option Partition → Option Nat
  | none => some 0
  | some partition =>
      (disc.ReadSwappedAndShifted (partition.offset + 0x2b8) none).map
        fun data_offset => u64 (partition.offset + data_offset)

def ParsePartitionData (disc : Disc) (partition : Option Partition) (s : DiscScrubber) :
    Parse DiscScrubber := do
  let root ← OptionT.ofRead (disc.GetFileSystem partition)
  let partition_data_offset ← OptionT.ofRead (partitionDataOffset disc partition)
  let apploader_size ← OptionT.ofRead (disc.ReadSwapped (0x2440 + 0x14) partition)
  let apploader_trailer_size ← OptionT.ofRead (disc.ReadSwapped (0x2440 + 0x18) partition)
  -- The sum is one of 32-bit numbers.
  let s ← MarkAsUsedE partition_data_offset 0
    (u32 (0x2440 + apploader_size.toNat + apploader_trailer_size.toNat)) s
  let dol_offset ← OptionT.ofRead (disc.GetBootDOLOffset partition)
  let dol_size ← OptionT.ofRead (disc.GetBootDOLSize partition dol_offset)
  let s ← MarkAsUsedE partition_data_offset dol_offset dol_size s
  let fst_offset ← OptionT.ofRead (disc.GetFSTOffset partition)
  let fst_size ← OptionT.ofRead (disc.GetFSTSize partition)
  let s ← MarkAsUsedE partition_data_offset fst_offset fst_size s
  ParseFileSystemData disc partition_data_offset root s

def WII_PARTITION_H3_SIZE : Nat := 0x18000

/-- The header, the TMD, the certificate chain and the H3 table of a partition, and its data. -/
def parsePartition (disc : Disc) (partition : Partition) (s : DiscScrubber) :
    Parse DiscScrubber := do
  let tmd_size ← OptionT.ofRead (disc.ReadSwapped (partition.offset + 0x2a4) none)
  let tmd_offset ← OptionT.ofRead (disc.ReadSwappedAndShifted (partition.offset + 0x2a8) none)
  let cert_chain_size ← OptionT.ofRead (disc.ReadSwapped (partition.offset + 0x2ac) none)
  let cert_chain_offset ←
    OptionT.ofRead (disc.ReadSwappedAndShifted (partition.offset + 0x2b0) none)
  let h3_offset ← OptionT.ofRead (disc.ReadSwappedAndShifted (partition.offset + 0x2b4) none)
  let s ← MarkAsUsed partition.offset 0x2c0 s
  let s ← MarkAsUsed (u64 (partition.offset + tmd_offset)) tmd_size.toNat s
  let s ← MarkAsUsed (u64 (partition.offset + cert_chain_offset)) cert_chain_size.toNat s
  let s ← MarkAsUsed (u64 (partition.offset + h3_offset)) WII_PARTITION_H3_SIZE s
  ParsePartitionData disc (some partition) s

/-- The loop over the partitions. -/
def parsePartitions (disc : Disc) : List Partition → DiscScrubber → Parse DiscScrubber
  | [], s => pure s
  | partition :: rest, s => do
      let s ← parsePartition disc partition s
      parsePartitions disc rest s

def ParseDisc (disc : Disc) (s : DiscScrubber) : Parse DiscScrubber :=
  if disc.GetPartitions = [] then ParsePartitionData disc none s
  else do
    let s ← MarkAsUsed 0 0x50000 s
    parsePartitions disc disc.GetPartitions s

/-- `std::vector::resize` -/
def resize (table : List Bool) (count : Nat) (value : Bool) : List Bool :=
  table.take count ++ List.replicate (count - table.length) value

/-- `none` is a result of `false`, which leaves the scrubber without its table in use. -/
def SetupScrub (disc : Disc) (s : DiscScrubber) : Parse DiscScrubber := do
  let num_clusters := u64 (disc.GetDataSize + CLUSTER_SIZE - 1) / CLUSTER_SIZE
  let s ← ParseDisc disc
    { s with
      m_file_size := disc.GetDataSize
      m_has_wii_hashes := disc.HasWiiHashes
      m_free_table := resize s.m_free_table num_clusters true }
  pure { s with m_is_scrubbing := true }

end DiscScrubber

end Phocoena.DiscIO
