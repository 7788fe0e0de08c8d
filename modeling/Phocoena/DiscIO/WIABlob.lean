import Phocoena.DiscIO.SectorReader
import Phocoena.Lib.Ranges

/-! # Data entries of WIA and RVZ files

How the conversion of a disc divides it: raw data, and two parts of the data of each partition that
can be encoded as one. Entries are in the byte order of the host; values of 32 and 64 bits are
natural numbers with their wrapping written out. Keys and file systems of partitions are left out.
-/

namespace Phocoena.DiscIO

/-- `a - b` in 64 bits. -/
def sub64 (a b : Nat) : Nat := u64 (a + 2 ^ 64 - b)

/-- `Common::AlignDown<u64>` -/
def AlignDown (value size : Nat) : Nat := value - value % size

/-- `Common::AlignUp<u64>` -/
def AlignUp (value size : Nat) : Nat := AlignDown (u64 (value + (size - 1))) size

theorem alignDown_eq (value size : Nat) : AlignDown value size = size * (value / size) := by
  have split := Nat.div_add_mod value size
  rw [AlignDown]
  omega

theorem alignDown_div {size : Nat} (pos : 0 < size) (value : Nat) :
    AlignDown value size / size = value / size := by
  rw [alignDown_eq, Nat.mul_div_cancel_left _ pos]

theorem sub64_of_le {a b : Nat} (le : b ≤ a) (lt : a < 2 ^ 64) : sub64 a b = a - b := by
  rw [sub64, u64]
  omega

namespace VolumeWii

def BLOCK_DATA_SIZE : Nat := 0x7C00

def BLOCK_TOTAL_SIZE : Nat := 0x8000

def GROUP_TOTAL_SIZE : Nat := 0x200000

end VolumeWii

/-- A partition of the partition table, by the word that gives its offset. -/
structure Partition where
  shifted_offset : BitVec 32
deriving DecidableEq

def Partition.offset (partition : Partition) : Nat := partition.shifted_offset.toNat * 4

/-- What is read of a Wii disc: outside of partitions, and in the data of one. -/
structure WiiVolume where
  HasWiiHashes : Bool
  HasWiiEncryption : Bool
  GetPartitions : List Partition
  ReadSwapped : Nat → Option (BitVec 32)
  ReadSwappedIn : Partition → Nat → Option (BitVec 32)
  ticketIsValid : Partition → Bool

namespace WiiVolume

def ReadSwappedAndShifted (volume : WiiVolume) (offset : Nat) : Option Nat :=
  (volume.ReadSwapped offset).map (·.toNat * 4)

def GetFSTOffset (volume : WiiVolume) (partition : Partition) : Option Nat :=
  (volume.ReadSwappedIn partition 0x424).map (·.toNat * 4)

def GetFSTSize (volume : WiiVolume) (partition : Partition) : Option Nat :=
  (volume.ReadSwappedIn partition 0x428).map (·.toNat * 4)

/-- On a disc with hashes, for a partition of its table. -/
def PartitionOffsetToRawOffset (volume : WiiVolume) (offset : Nat) (partition : Partition) : Nat :=
  let data_offset := (volume.ReadSwappedAndShifted (partition.offset + 0x2b8)).getD 0
  u64 (partition.offset + data_offset +
    offset / VolumeWii.BLOCK_DATA_SIZE * VolumeWii.BLOCK_TOTAL_SIZE +
    offset % VolumeWii.BLOCK_DATA_SIZE)

end WiiVolume

namespace WIARVZFileReader

/-- `sizeof(WIAHeader2::disc_header)` -/
def SKIP_SIZE : Nat := 0x80

structure RawDataEntry where
  data_offset : Nat
  data_size : Nat
  group_index : Nat
  number_of_groups : Nat
deriving DecidableEq

structure PartitionDataEntry where
  first_sector : Nat
  number_of_sectors : Nat
  group_index : Nat
  number_of_groups : Nat
deriving DecidableEq

structure PartitionEntry where
  data_entries : PartitionDataEntry × PartitionDataEntry
deriving DecidableEq

/-- An index of a raw data entry, or of a partition entry and one of its two data entries. -/
inductive DataEntry
  | raw (index : Nat)
  | partition (index : Nat) (partition_data_index : Fin 2)
deriving DecidableEq

structure Entries where
  total_groups : Nat
  partition_entries : List PartitionEntry
  raw_data_entries : List RawDataEntry
  data_entries : List DataEntry
deriving DecidableEq

def Entries.empty : Entries := ⟨0, [], [], []⟩

/-- The number of groups of an entry, in 32 bits. -/
def groupsOf (size chunk_size : Nat) : Nat := u32 (AlignUp size chunk_size / chunk_size)

def AddRawDataEntry (offset size chunk_size : Nat) (e : Entries) : Entries :=
  let skip := if offset < SKIP_SIZE then min (SKIP_SIZE - offset) size else 0
  let offset := offset + skip
  let size := size - skip
  if size = 0 then e
  else
    let group_index := e.total_groups
    let groups := groupsOf size chunk_size
    { e with
      total_groups := u32 (e.total_groups + groups)
      data_entries := e.data_entries ++ [.raw (u32 e.raw_data_entries.length)]
      raw_data_entries := e.raw_data_entries ++ [⟨offset, size, group_index, groups⟩] }

def CreatePartitionDataEntry (offset size : Nat) (index : Fin 2) (chunk_size : Nat) (e : Entries) :
    PartitionDataEntry × Entries :=
  let group_index := e.total_groups
  let rounded_size := AlignDown size VolumeWii.BLOCK_TOTAL_SIZE
  let groups := groupsOf rounded_size chunk_size
  (⟨u32 (offset / VolumeWii.BLOCK_TOTAL_SIZE), u32 (size / VolumeWii.BLOCK_TOTAL_SIZE),
      group_index, groups⟩,
    { e with
      total_groups := u32 (e.total_groups + groups)
      data_entries := e.data_entries ++ [.partition (u32 e.partition_entries.length) index] })

/-- Where a partition that is encoded as one begins, and its data begins, is split and ends. -/
structure Placement where
  offset : Nat
  data_start : Nat
  split_point : Nat
  data_end : Nat
deriving DecidableEq

/-- What the loop over the partitions reads of one: `none` is a failed read, and `some none` a
partition that becomes raw data. -/
def placement (volume : WiiVolume) (last_partition_end_offset : Nat) (partition : Partition) :
    Option (Option Placement) :=
  if partition.offset < last_partition_end_offset then some none
  else if volume.ReadSwapped partition.offset ≠ some 0x10001 then some none
  else do
    let data_offset ← volume.ReadSwappedAndShifted (partition.offset + 0x2b8)
    let data_size ← volume.ReadSwappedAndShifted (partition.offset + 0x2bc)
    let data_start := u64 (partition.offset + data_offset)
    let data_end := u64 (data_start + data_size)
    if data_start % VolumeWii.BLOCK_TOTAL_SIZE ≠ 0 then some none
    else if data_size < VolumeWii.BLOCK_TOTAL_SIZE then some none
    else
      -- For a `data_end` over the size of the disc, `data_size` is clamped and not used again.
      let fst_offset ← volume.GetFSTOffset partition
      let fst_size ← volume.GetFSTSize partition
      if volume.ticketIsValid partition then
        let fst_end := volume.PartitionOffsetToRawOffset (u64 (fst_offset + fst_size)) partition
        let split_point := min data_end
          (u64 (AlignUp (sub64 fst_end data_start) VolumeWii.GROUP_TOTAL_SIZE + data_start))
        some (some ⟨partition.offset, data_start, split_point, data_end⟩)
      else none

/-- The two data entries of a partition, and `last_partition_end_offset`. -/
def writePartitionData (chunk_size : Nat) (p : Placement) (e : Entries) : Nat × Entries :=
  let first := CreatePartitionDataEntry p.data_start (sub64 p.split_point p.data_start) 0
    chunk_size e
  let second := CreatePartitionDataEntry p.split_point (sub64 p.data_end p.split_point) 1
    chunk_size first.2
  let entry : PartitionEntry := ⟨first.1, second.1⟩
  (u64 (u32 (entry.data_entries.2.first_sector + entry.data_entries.2.number_of_sectors) *
      VolumeWii.BLOCK_TOTAL_SIZE),
    { second.2 with partition_entries := second.2.partition_entries ++ [entry] })

/-- What the loop over the partitions adds for one that is encoded. -/
def writePlacement (chunk_size last_partition_end_offset : Nat) (p : Placement) (e : Entries) :
    Nat × Entries :=
  let e := AddRawDataEntry last_partition_end_offset
    (sub64 p.offset last_partition_end_offset) chunk_size e
  let e := AddRawDataEntry p.offset (sub64 p.data_start p.offset) chunk_size e
  writePartitionData chunk_size p e

def setUpPartition (volume : WiiVolume) (chunk_size : Nat) (s : Nat × Entries)
    (partition : Partition) : Option (Nat × Entries) :=
  (placement volume s.1 partition).map fun found =>
    match found with
    | none => s
    | some p => writePlacement chunk_size s.1 p s.2

/-- The partitions that the loop goes through, `Partition::offset` first. -/
def sortedPartitions (volume : WiiVolume) : List Partition :=
  if volume.HasWiiHashes && volume.HasWiiEncryption then
    volume.GetPartitions.mergeSort (fun p q => p.offset ≤ q.offset)
  else []

/-- The loop over the partitions. -/
def setUpPartitions (volume : WiiVolume) (chunk_size : Nat) :
    List Partition → Nat × Entries → Option (Nat × Entries)
  | [], s => some s
  | partition :: rest, s =>
      (setUpPartition volume chunk_size s partition).bind (setUpPartitions volume chunk_size rest)

/-- `none` is `ConversionResultCode::ReadFailed`; without a volume there are no partitions. -/
def SetUpDataEntriesForWriting (volume : Option WiiVolume) (chunk_size iso_size : Nat) :
    Option Entries :=
  let partitioned : Option (Nat × Entries) :=
    match volume with
    | none => some (0, .empty)
    | some volume =>
        setUpPartitions volume chunk_size (sortedPartitions volume) (0, .empty)
  partitioned.map fun s => AddRawDataEntry s.1 (sub64 iso_size s.1) chunk_size s.2

end WIARVZFileReader

end Phocoena.DiscIO
