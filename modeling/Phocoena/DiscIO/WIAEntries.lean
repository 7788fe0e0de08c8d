import Phocoena.DiscIO.WIABlob
import Mathlib.Algebra.Order.BigOperators.Group.List
import Mathlib.Algebra.Order.Ring.Nat

/-! # Data entries tile the disc

The entries of a disc list ranges of it in order, from the end of the disc header to the end of the
disc, and number their groups one after the other. What they do in every case is a tiling of what
the partition table asks for; exactly where the partitions end within the disc, and the groups can
be counted in 32 bits, that is a tiling of the disc.
-/

namespace Phocoena.DiscIO.WIARVZFileReader

/-- The part of the disc that an entry stands for. -/
structure Extent where
  offset : Nat
  size : Nat
  group_index : Nat
  number_of_groups : Nat
deriving DecidableEq

def Extent.range (x : Extent) : Range := ⟨x.offset, x.offset + x.size⟩

def RawDataEntry.extent (entry : RawDataEntry) : Extent :=
  ⟨entry.data_offset, entry.data_size, entry.group_index, entry.number_of_groups⟩

def PartitionDataEntry.extent (entry : PartitionDataEntry) : Extent :=
  ⟨entry.first_sector * VolumeWii.BLOCK_TOTAL_SIZE,
    entry.number_of_sectors * VolumeWii.BLOCK_TOTAL_SIZE, entry.group_index,
    entry.number_of_groups⟩

def PartitionEntry.dataEntry (entry : PartitionEntry) (index : Fin 2) : PartitionDataEntry :=
  if index.val = 0 then entry.data_entries.1 else entry.data_entries.2

def Entries.extent (e : Entries) : DataEntry → Option Extent
  | .raw index => e.raw_data_entries[index]?.map (·.extent)
  | .partition index part => e.partition_entries[index]?.map (·.dataEntry part |>.extent)

def DataEntry.rawIndex : DataEntry → Option Nat
  | .raw index => some index
  | .partition _ _ => none

def DataEntry.partitionIndex : DataEntry → Option (Nat × Fin 2)
  | .raw _ => none
  | .partition index part => some (index, part)

/-- The smallest number of groups of `chunk_size` bytes for a size. -/
def ceilGroups (size chunk_size : Nat) : Nat := (size + (chunk_size - 1)) / chunk_size

/-- Every raw entry and both data entries of every partition are listed once, as these extents. -/
structure Lists (e : Entries) (extents : List Extent) : Prop where
  listed : e.data_entries.map e.extent = extents.map some
  raw_once : e.data_entries.filterMap DataEntry.rawIndex = List.range e.raw_data_entries.length
  partition_once : e.data_entries.filterMap DataEntry.partitionIndex =
    (List.range e.partition_entries.length).flatMap fun index => [(index, 0), (index, 1)]

/-- The entries divide what the disc header leaves of `[0, iso_size)` in order, and number the
groups of their data without gaps. -/
structure TilesDisc (chunk_size iso_size : Nat) (e : Entries) (extents : List Extent) : Prop where
  lists : Lists e extents
  tiles : Tiles SKIP_SIZE 0 iso_size (extents.map Extent.range)
  groups : ∀ x ∈ extents, x.number_of_groups = ceilGroups x.size chunk_size
  consecutive : ∀ before (x : Extent) after, extents = before ++ x :: after →
    x.group_index = (before.map (·.number_of_groups)).sum
  total : e.total_groups = (extents.map (·.number_of_groups)).sum

/-! ## What the partition table asks for -/

/-- A range of raw data without what it has of the disc header. -/
def rawTile (first last : Nat) : List Range :=
  if max first SKIP_SIZE < last then [⟨max first SKIP_SIZE, last⟩] else []

namespace Placement

/-- The end of the data, rounded to whole blocks. -/
def stop (p : Placement) : Nat := AlignDown p.data_end VolumeWii.BLOCK_TOTAL_SIZE

def middle (p : Placement) : Nat := AlignDown p.split_point VolumeWii.BLOCK_TOTAL_SIZE

def tiles (last : Nat) (p : Placement) : List Range :=
  rawTile last p.offset ++ rawTile p.offset p.data_start ++
    [⟨p.data_start, p.middle⟩, ⟨p.middle, p.stop⟩]

/-- The order of the addresses of a placement, and how they are aligned. -/
structure Valid (last : Nat) (p : Placement) : Prop where
  last_le : last ≤ p.offset
  offset_le : p.offset ≤ p.data_start
  aligned : p.data_start % VolumeWii.BLOCK_TOTAL_SIZE = 0
  start_le : p.data_start ≤ p.split_point
  split_le : p.split_point ≤ p.data_end
  block : p.data_start + VolumeWii.BLOCK_TOTAL_SIZE ≤ p.data_end
  split : p.split_point = p.data_end ∨ p.split_point % VolumeWii.BLOCK_TOTAL_SIZE = 0
  end_lt : p.data_end < 2 ^ 36

end Placement

/-- The partitions that are encoded as such, from the end of the last one on. -/
def placements (volume : WiiVolume) : Nat → List Partition → List Placement
  | _, [] => []
  | last, partition :: rest =>
      match placement volume last partition with
      | some (some p) => p :: placements volume p.stop rest
      | _ => placements volume last rest

def discPlacements : Option WiiVolume → List Placement
  | none => []
  | some volume => placements volume 0 (sortedPartitions volume)

def tilesFrom : Nat → List Placement → List Range
  | _, [] => []
  | last, p :: rest => p.tiles last ++ tilesFrom p.stop rest

/-- The end of the last placement. -/
def lastStop : Nat → List Placement → Nat
  | last, [] => last
  | _, p :: rest => lastStop p.stop rest

/-- The tiles of a disc, with raw data after the last partition. -/
def discTiles (ps : List Placement) (iso_size : Nat) : List Range :=
  tilesFrom 0 ps ++ rawTile (lastStop 0 ps) iso_size

/-! ## Rounding -/

theorem le_ceilGroups_mul {chunk_size : Nat} (pos : 0 < chunk_size) (size : Nat) :
    size ≤ ceilGroups size chunk_size * chunk_size := by
  have split := Nat.div_add_mod (size + (chunk_size - 1)) chunk_size
  have rest := Nat.mod_lt (size + (chunk_size - 1)) pos
  rw [ceilGroups, Nat.mul_comm]
  omega

/-- A number of groups that fits 32 bits is the one of the entry. -/
theorem groupsOf_eq {size chunk_size : Nat} (pos : 0 < chunk_size) (short : chunk_size < 2 ^ 31)
    (fits : ceilGroups size chunk_size < 2 ^ 32) :
    groupsOf size chunk_size = ceilGroups size chunk_size := by
  have le : size ≤ 2 ^ 32 * 2 ^ 31 :=
    (le_ceilGroups_mul pos size).trans (Nat.mul_le_mul fits.le short.le)
  have whole : u64 (size + (chunk_size - 1)) = size + (chunk_size - 1) :=
    Nat.mod_eq_of_lt (by omega)
  rw [groupsOf, AlignUp, whole, alignDown_div pos]
  exact Nat.mod_eq_of_lt fits

/-! ## Partitions that are encoded -/

section
variable {volume : WiiVolume} {partition : Partition} {last : Nat} {p : Placement}

theorem offset_lt (partition : Partition) : partition.offset < 2 ^ 34 := by
  have lt := partition.shifted_offset.isLt
  rw [Partition.offset]
  omega

theorem shifted_lt {read : Option (BitVec 32)} {value : Nat}
    (found : read.map (·.toNat * 4) = some value) : value < 2 ^ 34 := by
  obtain ⟨word, -, rfl⟩ := Option.map_eq_some_iff.mp found
  have lt := word.isLt
  omega

theorem rawOffset_ge {data_offset offset : Nat} (lt : offset < 2 ^ 35)
    (found : volume.ReadSwappedAndShifted (partition.offset + 0x2b8) = some data_offset) :
    ∃ above, volume.PartitionOffsetToRawOffset offset partition =
      partition.offset + data_offset + above ∧ above < 2 ^ 36 := by
  have low := offset_lt partition
  have low' := shifted_lt found
  have dataSize : VolumeWii.BLOCK_DATA_SIZE = 0x7C00 := rfl
  have totalSize : VolumeWii.BLOCK_TOTAL_SIZE = 0x8000 := rfl
  refine ⟨offset / 0x7C00 * 0x8000 + offset % 0x7C00, ?_, by omega⟩
  rw [WiiVolume.PartitionOffsetToRawOffset, found, dataSize, totalSize]
  dsimp only [Option.getD]
  rw [u64, Nat.mod_eq_of_lt (by omega), Nat.add_assoc (partition.offset + data_offset)]

theorem placement_valid (found : placement volume last partition = some (some p)) :
    p.Valid last := by
  unfold placement at found
  split at found
  · cases found
  rename_i notBefore
  split at found
  · cases found
  obtain ⟨data_offset, readOffset, found⟩ := Option.bind_eq_some_iff.mp found
  obtain ⟨data_size, readSize, found⟩ := Option.bind_eq_some_iff.mp found
  dsimp only at found
  split at found
  · cases found
  rename_i aligned
  split at found
  · cases found
  rename_i large
  obtain ⟨fst_offset, readFst, found⟩ := Option.bind_eq_some_iff.mp found
  obtain ⟨fst_size, readFstSize, found⟩ := Option.bind_eq_some_iff.mp found
  split at found
  swap
  · cases found
  have offsetLt := offset_lt partition
  have dataLt := shifted_lt readOffset
  have sizeLt := shifted_lt readSize
  have fstLt := shifted_lt readFst
  have fstSizeLt := shifted_lt readFstSize
  have blockSize : VolumeWii.BLOCK_TOTAL_SIZE = 0x8000 := rfl
  have groupSize : VolumeWii.GROUP_TOTAL_SIZE = 0x200000 := rfl
  have start : u64 (partition.offset + data_offset) = partition.offset + data_offset :=
    Nat.mod_eq_of_lt (by omega)
  have stop : u64 (partition.offset + data_offset + data_size) =
    partition.offset + data_offset + data_size := Nat.mod_eq_of_lt (by omega)
  have fst : u64 (fst_offset + fst_size) = fst_offset + fst_size := Nat.mod_eq_of_lt (by omega)
  obtain ⟨above, raw, aboveLt⟩ := @rawOffset_ge volume partition data_offset
    (fst_offset + fst_size) (by omega) readOffset
  have difference : sub64 (partition.offset + data_offset + above)
      (partition.offset + data_offset) = above := by
    rw [sub64, u64]
    omega
  have rounded : AlignUp above VolumeWii.GROUP_TOTAL_SIZE =
      0x200000 * ((above + 0x1FFFFF) / 0x200000) := by
    rw [AlignUp, groupSize, u64, Nat.mod_eq_of_lt (by omega), alignDown_eq]
  have sum : u64 (AlignUp above VolumeWii.GROUP_TOTAL_SIZE + (partition.offset + data_offset)) =
      0x200000 * ((above + 0x1FFFFF) / 0x200000) + (partition.offset + data_offset) := by
    rw [rounded, u64, Nat.mod_eq_of_lt (by omega)]
  rw [start, stop, fst, raw, difference, sum, Option.some_inj, Option.some_inj] at found
  rw [start, blockSize] at aligned
  rw [blockSize] at large
  rw [← found]
  constructor <;> dsimp only <;> try rw [blockSize]
  all_goals omega

theorem placements_cons (partition : Partition) (rest : List Partition) :
    placements volume last (partition :: rest) =
      match placement volume last partition with
      | some (some p) => p :: placements volume p.stop rest
      | _ => placements volume last rest := rfl

end

/-! ## The numbers of groups -/

/-- The groups of a list of extents as 32-bit numbers, each from where the last one ends. -/
structure Numbers (chunk_size total : Nat) (extents : List Extent) : Prop where
  groups : ∀ x ∈ extents, x.number_of_groups = groupsOf x.size chunk_size
  consecutive : ∀ before (x : Extent) after, extents = before ++ x :: after →
    x.group_index = u32 (before.map (·.number_of_groups)).sum
  total_eq : total = u32 (extents.map (·.number_of_groups)).sum

theorem numbers_nil (chunk_size : Nat) : Numbers chunk_size 0 [] :=
  ⟨by simp, fun before x after same => by simp at same, rfl⟩

theorem u32_add (m n : Nat) : u32 (u32 m + n) = u32 (m + n) := Nat.mod_add_mod _ _ _

theorem eq_of_append_singleton {α : Type} {xs before after : List α} {x y : α}
    (same : xs ++ [x] = before ++ y :: after) :
    (before = xs ∧ y = x ∧ after = []) ∨ ∃ after', xs = before ++ y :: after' := by
  rcases List.eq_nil_or_concat after with rfl | ⟨after', last, rfl⟩
  · obtain ⟨left, right⟩ := List.append_inj' same rfl
    exact .inl ⟨left.symm, (List.singleton_inj.mp right).symm, rfl⟩
  · refine .inr ⟨after', ?_⟩
    rw [List.concat_eq_append, ← List.cons_append, ← List.append_assoc] at same
    exact (List.append_inj' same rfl).1

/-- One more extent, numbered from the total. -/
theorem Numbers.push {chunk_size total : Nat} {extents : List Extent}
    (numbers : Numbers chunk_size total extents) (offset size : Nat) :
    Numbers chunk_size (u32 (total + groupsOf size chunk_size))
      (extents ++ [⟨offset, size, total, groupsOf size chunk_size⟩]) := by
  refine ⟨fun x member => ?_, fun before x after same => ?_, ?_⟩
  · rcases List.mem_append.mp member with old | new
    · exact numbers.groups x old
    · rw [List.mem_singleton.mp new]
  · rcases eq_of_append_singleton same with ⟨rfl, rfl, -⟩ | ⟨after', old⟩
    · exact numbers.total_eq
    · exact numbers.consecutive before x after' old
  · rw [numbers.total_eq, List.map_append, List.sum_append, u32_add]
    rfl

/-- With few enough groups, nothing wraps. -/
theorem Numbers.exact {chunk_size total : Nat} {extents : List Extent}
    (numbers : Numbers chunk_size total extents) (pos : 0 < chunk_size)
    (short : chunk_size < 2 ^ 31)
    (fits : (extents.map fun x => ceilGroups x.size chunk_size).sum < 2 ^ 32) :
    (∀ x ∈ extents, x.number_of_groups = ceilGroups x.size chunk_size) ∧
      (∀ before (x : Extent) after, extents = before ++ x :: after →
        x.group_index = (before.map (·.number_of_groups)).sum) ∧
      total = (extents.map (·.number_of_groups)).sum := by
  have groups : ∀ x ∈ extents, x.number_of_groups = ceilGroups x.size chunk_size :=
    fun x member => by
      have le := List.single_le_sum (fun _ _ => Nat.zero_le _) _
        (List.mem_map_of_mem (f := fun x => ceilGroups x.size chunk_size) member)
      rw [numbers.groups x member, groupsOf_eq pos short (Nat.lt_of_le_of_lt le fits)]
  have sum : (extents.map (·.number_of_groups)).sum < 2 ^ 32 := by
    rwa [List.map_congr_left groups]
  refine ⟨groups, fun before x after same => ?_, ?_⟩
  · rw [numbers.consecutive before x after same]
    refine Nat.mod_eq_of_lt (Nat.lt_of_le_of_lt ?_ sum)
    rw [same, List.map_append, List.sum_append]
    exact Nat.le_add_right _ _
  · rw [numbers.total_eq]
    exact Nat.mod_eq_of_lt sum

/-! ## The lists of entries -/

theorem lists_empty : Lists .empty [] := ⟨rfl, rfl, rfl⟩

section
variable {e e' : Entries} {extents : List Extent}

/-- Entries that only grow keep what they list. -/
theorem Lists.keeps (lists : Lists e extents) {raws : List RawDataEntry}
    {parts : List PartitionEntry} (rawGrows : e'.raw_data_entries = e.raw_data_entries ++ raws)
    (partGrows : e'.partition_entries = e.partition_entries ++ parts) :
    e.data_entries.map e'.extent = extents.map some := by
  rw [← lists.listed]
  refine List.map_congr_left fun d member => ?_
  obtain ⟨x, -, found⟩ := List.mem_map.mp (lists.listed ▸ List.mem_map_of_mem (f := e.extent) member)
  rw [← found]
  cases d with
  | raw index =>
      obtain ⟨entry, at_index, rfl⟩ := Option.map_eq_some_iff.mp found.symm
      obtain ⟨lt, -⟩ := List.getElem?_eq_some_iff.mp at_index
      rw [Entries.extent, rawGrows, List.getElem?_append_left lt, at_index]
      rfl
  | partition index part =>
      obtain ⟨entry, at_index, rfl⟩ := Option.map_eq_some_iff.mp found.symm
      obtain ⟨lt, -⟩ := List.getElem?_eq_some_iff.mp at_index
      rw [Entries.extent, partGrows, List.getElem?_append_left lt, at_index]
      rfl

theorem Lists.push_raw (lists : Lists e extents) (few : e.raw_data_entries.length < 2 ^ 32)
    (entry : RawDataEntry) (total : Nat) :
    Lists { e with
      total_groups := total
      data_entries := e.data_entries ++ [.raw (u32 e.raw_data_entries.length)]
      raw_data_entries := e.raw_data_entries ++ [entry] } (extents ++ [entry.extent]) := by
  have index : u32 e.raw_data_entries.length = e.raw_data_entries.length := Nat.mod_eq_of_lt few
  refine ⟨?_, ?_, ?_⟩
  · rw [List.map_append, List.map_append]
    congr 1
    · exact lists.keeps rfl (List.append_nil _).symm
    · rw [List.map_singleton, List.map_singleton, Entries.extent, index,
        List.getElem?_concat_length]
      rfl
  · rw [List.filterMap_append, lists.raw_once, index, List.length_append, List.length_singleton,
      List.range_succ]
    rfl
  · rw [List.filterMap_append, lists.partition_once]
    exact List.append_nil _

theorem Lists.push_partition (lists : Lists e extents)
    (few : e.partition_entries.length < 2 ^ 32) (entry : PartitionEntry) (total : Nat) :
    Lists { e with
      total_groups := total
      data_entries := e.data_entries ++ [.partition (u32 e.partition_entries.length) 0] ++
        [.partition (u32 e.partition_entries.length) 1]
      partition_entries := e.partition_entries ++ [entry] }
      (extents ++ [entry.data_entries.1.extent] ++ [entry.data_entries.2.extent]) := by
  have index : u32 e.partition_entries.length = e.partition_entries.length := Nat.mod_eq_of_lt few
  refine ⟨?_, ?_, ?_⟩
  · rw [List.append_assoc, List.append_assoc, List.map_append,
      @List.map_append Extent (Option Extent) some extents]
    congr 1
    · refine @Lists.keeps e _ extents lists [] [entry] ?_ ?_
      · exact (List.append_nil _).symm
      · rfl
    · rw [index]
      simp only [List.cons_append, List.nil_append, List.map_cons, List.map_nil, Entries.extent,
        List.getElem?_concat_length]
      rfl
  · rw [List.append_assoc, List.filterMap_append, lists.raw_once]
    exact List.append_nil _
  · rw [List.append_assoc, List.filterMap_append, lists.partition_once, index, List.length_append,
      List.length_singleton, List.range_succ, List.flatMap_append]
    rfl

end

/-! ## What is written for a partition -/

/-- The entries of a state list these extents and number their groups. -/
structure Records (chunk_size : Nat) (e : Entries) (extents : List Extent) : Prop where
  lists : Lists e extents
  numbers : Numbers chunk_size e.total_groups extents

section
variable {chunk_size : Nat} {e : Entries} {extents : List Extent}

theorem Records.addRaw (records : Records chunk_size e extents)
    (few : e.raw_data_entries.length < 2 ^ 32) (offset size : Nat) :
    ∃ added, Records chunk_size (AddRawDataEntry offset size chunk_size e) (extents ++ added) ∧
      added.map Extent.range = rawTile offset (offset + size) ∧
      (AddRawDataEntry offset size chunk_size e).partition_entries = e.partition_entries ∧
      (AddRawDataEntry offset size chunk_size e).raw_data_entries.length ≤
        e.raw_data_entries.length + 1 := by
  have skipSize : SKIP_SIZE = 0x80 := rfl
  obtain ⟨skip, isSkip⟩ : ∃ skip,
      skip = if offset < SKIP_SIZE then min (SKIP_SIZE - offset) size else 0 := ⟨_, rfl⟩
  unfold AddRawDataEntry
  rw [← isSkip]
  rw [skipSize] at isSkip
  dsimp only
  rw [rawTile, skipSize]
  split
  · rename_i none
    refine ⟨[], ?_, ?_, rfl, Nat.le_succ _⟩
    · rwa [List.append_nil]
    · rw [if_neg (by split at isSkip <;> omega)]
      rfl
  · rename_i some
    have first : max offset 0x80 = offset + skip := by
      split at isSkip <;> omega
    have last : offset + size = offset + skip + (size - skip) := by
      split at isSkip <;> omega
    refine ⟨[⟨offset + skip, size - skip, e.total_groups, groupsOf (size - skip) chunk_size⟩],
      ⟨records.lists.push_raw few ⟨offset + skip, size - skip, e.total_groups,
        groupsOf (size - skip) chunk_size⟩ _, records.numbers.push _ _⟩, ?_, rfl, ?_⟩
    · rw [if_pos (by omega), first, last]
      rfl
    · rw [List.length_append, List.length_singleton]

theorem sectors_mul {value : Nat} (lt : value < 2 ^ 36) :
    u32 (value / VolumeWii.BLOCK_TOTAL_SIZE) * VolumeWii.BLOCK_TOTAL_SIZE =
      AlignDown value VolumeWii.BLOCK_TOTAL_SIZE := by
  have blockSize : VolumeWii.BLOCK_TOTAL_SIZE = 0x8000 := rfl
  rw [alignDown_eq, Nat.mul_comm, blockSize, u32, Nat.mod_eq_of_lt (by omega)]

section
variable {last : Nat} {p : Placement}

theorem Placement.Valid.middle_eq (valid : p.Valid last) : p.middle =
    p.data_start + AlignDown (p.split_point - p.data_start) VolumeWii.BLOCK_TOTAL_SIZE := by
  have aligned := valid.aligned
  have startLe := valid.start_le
  have blockSize : VolumeWii.BLOCK_TOTAL_SIZE = 0x8000 := rfl
  rw [blockSize] at aligned
  rw [Placement.middle, blockSize, AlignDown, AlignDown]
  omega

theorem Placement.Valid.stop_eq (valid : p.Valid last) : p.stop =
    p.middle + AlignDown (p.data_end - p.split_point) VolumeWii.BLOCK_TOTAL_SIZE := by
  have split := valid.split
  have splitLe := valid.split_le
  have blockSize : VolumeWii.BLOCK_TOTAL_SIZE = 0x8000 := rfl
  rw [blockSize] at split
  rw [Placement.middle, Placement.stop, blockSize, AlignDown, AlignDown, AlignDown]
  omega

theorem Placement.Valid.sectors_stop (valid : p.Valid last) :
    u64 (u32 (u32 (p.split_point / VolumeWii.BLOCK_TOTAL_SIZE) +
      u32 ((p.data_end - p.split_point) / VolumeWii.BLOCK_TOTAL_SIZE)) *
        VolumeWii.BLOCK_TOTAL_SIZE) = p.stop := by
  have split := valid.split
  have splitLe := valid.split_le
  have endLt := valid.end_lt
  have blockSize : VolumeWii.BLOCK_TOTAL_SIZE = 0x8000 := rfl
  rw [blockSize] at split
  rw [Placement.stop, blockSize, AlignDown, u32, u32, u32, u64]
  omega

/-- Both data entries of a partition, with what the loop goes on from. -/
theorem Records.addPartitionData (records : Records chunk_size e extents) (valid : p.Valid last)
    (few : e.partition_entries.length < 2 ^ 32) :
    ∃ added, Records chunk_size (writePartitionData chunk_size p e).2 (extents ++ added) ∧
      added.map Extent.range = [⟨p.data_start, p.middle⟩, ⟨p.middle, p.stop⟩] ∧
      (writePartitionData chunk_size p e).1 = p.stop ∧
      (writePartitionData chunk_size p e).2.partition_entries.length =
        e.partition_entries.length + 1 ∧
      (writePartitionData chunk_size p e).2.raw_data_entries = e.raw_data_entries := by
  have startLe := valid.start_le
  have splitLe := valid.split_le
  have endLt := valid.end_lt
  obtain ⟨size, isSize⟩ : ∃ size, size =
    AlignDown (p.split_point - p.data_start) VolumeWii.BLOCK_TOTAL_SIZE := ⟨_, rfl⟩
  obtain ⟨size', isSize'⟩ : ∃ size', size' =
    AlignDown (p.data_end - p.split_point) VolumeWii.BLOCK_TOTAL_SIZE := ⟨_, rfl⟩
  obtain ⟨total, isTotal⟩ : ∃ total, total = u32 (e.total_groups + groupsOf size chunk_size) :=
    ⟨_, rfl⟩
  -- Both entries and the state that holds them, in closed form.
  obtain ⟨entry, isEntry⟩ : ∃ entry : PartitionEntry, entry =
    ⟨⟨u32 (p.data_start / VolumeWii.BLOCK_TOTAL_SIZE),
        u32 ((p.split_point - p.data_start) / VolumeWii.BLOCK_TOTAL_SIZE), e.total_groups,
        groupsOf size chunk_size⟩,
      ⟨u32 (p.split_point / VolumeWii.BLOCK_TOTAL_SIZE),
        u32 ((p.data_end - p.split_point) / VolumeWii.BLOCK_TOTAL_SIZE), total,
        groupsOf size' chunk_size⟩⟩ := ⟨_, rfl⟩
  have written : writePartitionData chunk_size p e =
      (u64 (u32 (entry.data_entries.2.first_sector + entry.data_entries.2.number_of_sectors) *
        VolumeWii.BLOCK_TOTAL_SIZE),
      { e with
        total_groups := u32 (total + groupsOf size' chunk_size)
        data_entries := e.data_entries ++ [.partition (u32 e.partition_entries.length) 0] ++
          [.partition (u32 e.partition_entries.length) 1]
        partition_entries := e.partition_entries ++ [entry] }) := by
    rw [writePartitionData, sub64_of_le startLe (by omega), sub64_of_le splitLe (by omega),
      isEntry, isTotal, isSize, isSize']
    rfl
  have first : entry.data_entries.1.extent =
      ⟨p.data_start, size, e.total_groups, groupsOf size chunk_size⟩ := by
    rw [isEntry, PartitionDataEntry.extent, sectors_mul (by omega), sectors_mul (by omega), isSize,
      AlignDown, valid.aligned, Nat.sub_zero]
  have second : entry.data_entries.2.extent =
      ⟨p.middle, size', total, groupsOf size' chunk_size⟩ := by
    rw [isEntry, PartitionDataEntry.extent, sectors_mul (by omega), sectors_mul (by omega), isSize',
      Placement.middle]
  have numbers := (records.numbers.push p.data_start size).push p.middle size'
  rw [← isTotal, ← first, ← second] at numbers
  have joined : extents ++ [entry.data_entries.1.extent, entry.data_entries.2.extent] =
      extents ++ [entry.data_entries.1.extent] ++ [entry.data_entries.2.extent] := by
    rw [List.append_assoc]
    rfl
  rw [written]
  refine ⟨[entry.data_entries.1.extent, entry.data_entries.2.extent], ?_, ?_, ?_, ?_, rfl⟩
  · rw [joined]
    exact ⟨records.lists.push_partition few entry _, numbers⟩
  · rw [first, second, List.map_cons, List.map_singleton, Extent.range, Extent.range, isSize,
      isSize', ← valid.middle_eq, ← valid.stop_eq]
  · rw [isEntry]
    exact valid.sectors_stop
  · rw [List.length_append, List.length_singleton]

/-- What the loop adds for a partition are its tiles, and it goes on from where they stop. -/
theorem Records.addPlacement (records : Records chunk_size e extents) (valid : p.Valid last)
    (fewRaws : e.raw_data_entries.length + 1 < 2 ^ 32)
    (fewParts : e.partition_entries.length < 2 ^ 32) :
    ∃ added, Records chunk_size (writePlacement chunk_size last p e).2 (extents ++ added) ∧
      added.map Extent.range = p.tiles last ∧
      (writePlacement chunk_size last p e).1 = p.stop ∧
      (writePlacement chunk_size last p e).2.partition_entries.length =
        e.partition_entries.length + 1 ∧
      (writePlacement chunk_size last p e).2.raw_data_entries.length ≤
        e.raw_data_entries.length + 2 := by
  have lastLe := valid.last_le
  have offsetLe := valid.offset_le
  have startLe := valid.start_le
  have splitLe := valid.split_le
  have endLt := valid.end_lt
  rw [writePlacement, sub64_of_le lastLe (by omega), sub64_of_le offsetLe (by omega)]
  obtain ⟨before, records, tiles₁, parts₁, raws₁⟩ :=
    records.addRaw (by omega) last (p.offset - last)
  obtain ⟨header, records, tiles₂, parts₂, raws₂⟩ :=
    records.addRaw (by omega) p.offset (p.data_start - p.offset)
  obtain ⟨data, records, tiles₃, stop, parts₃, raws₃⟩ :=
    records.addPartitionData valid (by rwa [parts₂, parts₁])
  refine ⟨before ++ header ++ data, ?_, ?_, stop, ?_, ?_⟩
  · rwa [← List.append_assoc, ← List.append_assoc]
  · rw [List.map_append, List.map_append, tiles₁, tiles₂, tiles₃, Nat.add_sub_of_le lastLe,
      Nat.add_sub_of_le offsetLe, Placement.tiles]
  · rw [parts₃, parts₂, parts₁]
  · rw [raws₃]
    omega

end

end

/-! ## Tilings of the disc -/

theorem tiles_rawTile {first last : Nat} : Tiles SKIP_SIZE first last (rawTile first last) := by
  rw [rawTile]
  split
  · rename_i some
    refine ⟨List.pairwise_singleton _ _, fun r member => ?_, fun x above below skipped => ?_⟩
    · rw [List.mem_singleton.mp member]
      exact ⟨le_max_left _ _, some.le, le_rfl⟩
    · refine ⟨_, List.mem_singleton_self _, ?_, below⟩
      exact max_le above skipped
  · exact tiles_nil (by omega)

namespace Placement

variable {last : Nat} {p : Placement}

/-- Each placement takes a block at least. -/
theorem Valid.stop_ge (valid : p.Valid last) : last + 0x8000 ≤ p.stop := by
  have block := valid.block
  have lastLe := valid.last_le
  have offsetLe := valid.offset_le
  have aligned := valid.aligned
  have blockSize : VolumeWii.BLOCK_TOTAL_SIZE = 0x8000 := rfl
  rw [blockSize] at block aligned
  rw [stop, blockSize, AlignDown]
  omega

theorem Valid.stop_gt (valid : p.Valid last) : last < p.stop :=
  Nat.lt_of_lt_of_le (Nat.lt_add_of_pos_right (by decide)) valid.stop_ge

theorem Valid.stop_lt (valid : p.Valid last) : p.stop < 2 ^ 36 :=
  Nat.lt_of_le_of_lt (Nat.sub_le _ _) valid.end_lt

theorem Valid.tiles (valid : p.Valid last) : Tiles SKIP_SIZE last p.stop (p.tiles last) := by
  have middle : p.data_start ≤ p.middle := by
    rw [valid.middle_eq]
    exact Nat.le_add_right _ _
  have stop : p.middle ≤ p.stop := by
    rw [valid.stop_eq]
    exact Nat.le_add_right _ _
  have before := tiles_rawTile.append (@tiles_rawTile p.offset p.data_start) valid.last_le
    valid.offset_le
  have data := (@tiles_singleton SKIP_SIZE _ _ middle).append (tiles_singleton stop) middle stop
  exact before.append data (valid.last_le.trans valid.offset_le) (middle.trans stop)

end Placement

/-- Placements one after the other from an address on. -/
def ValidFrom : Nat → List Placement → Prop
  | _, [] => True
  | last, p :: rest => p.Valid last ∧ ValidFrom p.stop rest

section
variable {last : Nat} {ps : List Placement}

theorem placements_valid (volume : WiiVolume) (last : Nat) (partitions : List Partition) :
    ValidFrom last (placements volume last partitions) := by
  induction partitions generalizing last with
  | nil => trivial
  | cons partition rest ih =>
      rw [placements_cons]
      split
      · rename_i p found
        exact ⟨placement_valid found, ih p.stop⟩
      · exact ih last

theorem discPlacements_valid (volume : Option WiiVolume) :
    ValidFrom 0 (discPlacements volume) := by
  cases volume with
  | none => trivial
  | some volume => exact placements_valid volume 0 _

theorem ValidFrom.le_lastStop (valid : ValidFrom last ps) : last ≤ lastStop last ps := by
  induction ps generalizing last with
  | nil => exact le_rfl
  | cons p rest ih => exact valid.1.stop_gt.le.trans (ih valid.2)

theorem ValidFrom.lastStop_lt (valid : ValidFrom last ps) (lt : last < 2 ^ 36) :
    lastStop last ps < 2 ^ 36 := by
  induction ps generalizing last with
  | nil => exact lt
  | cons p rest ih => exact ih valid.2 valid.1.stop_lt

theorem ValidFrom.tiles (valid : ValidFrom last ps) :
    Tiles SKIP_SIZE last (lastStop last ps) (tilesFrom last ps) := by
  induction ps generalizing last with
  | nil => exact tiles_nil (le_max_left _ _)
  | cons p rest ih =>
      exact valid.1.tiles.append (ih valid.2) valid.1.stop_gt.le valid.2.le_lastStop

/-- All placements stop within the disc when the last one does. -/
theorem ValidFrom.lastStop_le_iff (valid : ValidFrom last ps) {iso_size : Nat}
    (le : last ≤ iso_size) : lastStop last ps ≤ iso_size ↔ ∀ p ∈ ps, p.stop ≤ iso_size := by
  induction ps generalizing last with
  | nil => exact iff_of_true le (by simp)
  | cons p rest ih =>
      constructor
      · intro within q member
        have first : p.stop ≤ iso_size := valid.2.le_lastStop.trans within
        rcases List.mem_cons.mp member with rfl | later
        · exact first
        · exact (ih valid.2 first).mp within q later
      · intro all
        refine (ih valid.2 (all p List.mem_cons_self)).mpr fun q member => ?_
        exact all q (List.mem_cons_of_mem p member)

end

/-! ## The whole run -/

/-- The numbers of entries stay small: each partition takes a block of the disc. -/
structure Few (last : Nat) (e : Entries) : Prop where
  parts : e.partition_entries.length * 0x8000 ≤ last
  raws : e.raw_data_entries.length ≤ 2 * e.partition_entries.length
  last_lt : last < 2 ^ 36

section
variable {volume : WiiVolume} {chunk_size : Nat}

theorem setUpPartitions_cons (partition : Partition) (rest : List Partition)
    (s : Nat × Entries) : setUpPartitions volume chunk_size (partition :: rest) s =
      (setUpPartition volume chunk_size s partition).bind
        (setUpPartitions volume chunk_size rest) := rfl

/-- The loop over the partitions writes the tiles of the placements. -/
theorem Records.setUpPartitions {partitions : List Partition} {s s' : Nat × Entries}
    {extents : List Extent} (records : Records chunk_size s.2 extents) (few : Few s.1 s.2)
    (done : setUpPartitions volume chunk_size partitions s = some s') :
    ∃ added, Records chunk_size s'.2 (extents ++ added) ∧ Few s'.1 s'.2 ∧
      added.map Extent.range = tilesFrom s.1 (placements volume s.1 partitions) ∧
      s'.1 = lastStop s.1 (placements volume s.1 partitions) := by
  induction partitions generalizing s extents with
  | nil =>
      cases done
      refine ⟨[], ?_, few, rfl, rfl⟩
      rwa [List.append_nil]
  | cons partition rest ih =>
      rw [setUpPartitions_cons] at done
      obtain ⟨s₁, step, done⟩ := Option.bind_eq_some_iff.mp done
      obtain ⟨found, place, step⟩ := Option.map_eq_some_iff.mp step
      rw [placements_cons, place]
      cases found with
      | none =>
          dsimp only at step
          subst step
          exact ih records few done
      | some p =>
          dsimp only at step
          subst step
          have valid := placement_valid place
          have parts := few.parts
          have raws := few.raws
          have lastLt := few.last_lt
          obtain ⟨added, records, tiles, stop, parts', raws'⟩ :=
            records.addPlacement valid (by omega) (by omega)
          have grows := valid.stop_ge
          have stopLt := valid.stop_lt
          have few : Few (writePlacement chunk_size s.1 p s.2).1
              (writePlacement chunk_size s.1 p s.2).2 := by
            refine ⟨?_, ?_, ?_⟩
            · rw [stop, parts', Nat.succ_mul]
              exact (Nat.add_le_add_right parts _).trans grows
            · rw [parts']
              omega
            · rwa [stop]
          obtain ⟨later, records, few, tiles', last⟩ := ih records few done
          rw [stop] at tiles' last
          refine ⟨added ++ later, ?_, few, ?_, last⟩
          · rwa [← List.append_assoc]
          · rw [List.map_append, tiles, tiles']
            rfl

end

/-- Every partition that is encoded stops within the disc, and the groups can be counted. -/
structure Fits (volume : Option WiiVolume) (chunk_size iso_size : Nat) : Prop where
  within : ∀ p ∈ discPlacements volume, p.stop ≤ iso_size
  countable : ((discTiles (discPlacements volume) iso_size).map
    fun r => ceilGroups (r.To - r.From) chunk_size).sum < 2 ^ 32

section
variable {volume : Option WiiVolume} {chunk_size iso_size : Nat} {e : Entries}

/-- A run lists the tiles of the placements and one of the rest of the disc, which wraps for a disc
that ends before the last placement. -/
theorem setUp_records (done : SetUpDataEntriesForWriting volume chunk_size iso_size = some e) :
    ∃ extents, Records chunk_size e extents ∧
      extents.map Extent.range = tilesFrom 0 (discPlacements volume) ++
        rawTile (lastStop 0 (discPlacements volume)) (lastStop 0 (discPlacements volume) +
          sub64 iso_size (lastStop 0 (discPlacements volume))) := by
  have empty : Records chunk_size .empty [] := ⟨lists_empty, numbers_nil chunk_size⟩
  obtain ⟨s, partitioned, rfl⟩ := Option.map_eq_some_iff.mp done
  have loop : ∃ extents, Records chunk_size s.2 extents ∧ Few s.1 s.2 ∧
      extents.map Extent.range = tilesFrom 0 (discPlacements volume) ∧
      s.1 = lastStop 0 (discPlacements volume) := by
    cases volume with
    | none =>
        cases partitioned
        exact ⟨[], empty, ⟨by decide, by decide, by decide⟩, rfl, rfl⟩
    | some volume =>
        exact empty.setUpPartitions ⟨by decide, by decide, by decide⟩ partitioned
  obtain ⟨extents, records, few, tiles, last⟩ := loop
  have parts := few.parts
  have raws := few.raws
  have lastLt := few.last_lt
  obtain ⟨rest, records, tile, -, -⟩ := records.addRaw (by omega) s.1 (sub64 iso_size s.1)
  refine ⟨extents ++ rest, records, ?_⟩
  rw [List.map_append, tiles, tile, last]

theorem Lists.unique {extents extents' : List Extent} (lists : Lists e extents)
    (lists' : Lists e extents') : extents = extents' :=
  List.map_injective_iff.mpr (Option.some_injective _) (lists.listed.symm.trans lists'.listed)

theorem ceilGroups_ranges (extents : List Extent) : (extents.map fun x =>
    ceilGroups x.size chunk_size) = (extents.map Extent.range).map
      fun r => ceilGroups (r.To - r.From) chunk_size := by
  rw [List.map_map]
  refine List.map_congr_left fun x _ => ?_
  dsimp only [Function.comp, Extent.range]
  rw [Nat.add_sub_cancel_left]

/-- The entries of a conversion tile the disc exactly when all partitions that it encodes stop
within the disc and the groups can be counted in 32 bits. -/
theorem entries_tile_iff (pos : 0 < chunk_size) (short : chunk_size < 2 ^ 31)
    (disc : iso_size < 2 ^ 64)
    (done : SetUpDataEntriesForWriting volume chunk_size iso_size = some e) :
    (∃ extents, TilesDisc chunk_size iso_size e extents) ↔ Fits volume chunk_size iso_size := by
  obtain ⟨extents, records, ranges⟩ := setUp_records done
  have valid := discPlacements_valid volume
  have lastLt := valid.lastStop_lt (by decide)
  have whole : lastStop 0 (discPlacements volume) ≤ iso_size →
      extents.map Extent.range = discTiles (discPlacements volume) iso_size := fun within => by
    rw [ranges, discTiles, sub64_of_le within disc, Nat.add_sub_of_le within]
  constructor
  · rintro ⟨extents', tiling⟩
    obtain rfl := tiling.lists.unique records.lists
    have within : lastStop 0 (discPlacements volume) ≤ iso_size := by
      by_contra beyond
      have wraps : sub64 iso_size (lastStop 0 (discPlacements volume)) =
          iso_size + 2 ^ 64 - lastStop 0 (discPlacements volume) := by
        rw [sub64, u64, Nat.mod_eq_of_lt (by omega)]
      have skipSize : SKIP_SIZE = 0x80 := rfl
      have tile := tiling.tiles.inside ⟨max (lastStop 0 (discPlacements volume)) SKIP_SIZE,
        iso_size + 2 ^ 64⟩ (by
          rw [ranges, wraps, rawTile, Nat.add_sub_of_le (by omega), if_pos (by omega)]
          exact List.mem_append_right _ (List.mem_singleton_self _))
      dsimp only at tile
      omega
    refine ⟨(valid.lastStop_le_iff (Nat.zero_le _)).mp within, ?_⟩
    rw [← whole within, ← ceilGroups_ranges, ← List.map_congr_left tiling.groups, ← tiling.total,
      records.numbers.total_eq]
    exact Nat.mod_lt _ (by decide)
  · intro fits
    have within := (valid.lastStop_le_iff (Nat.zero_le _)).mpr fits.within
    have countable := fits.countable
    rw [← whole within, ← ceilGroups_ranges] at countable
    obtain ⟨groups, consecutive, total⟩ := records.numbers.exact pos short countable
    refine ⟨extents, records.lists, ?_, groups, consecutive, total⟩
    rw [whole within]
    exact valid.tiles.append tiles_rawTile (Nat.zero_le _) within

end

/-- A disc with a partition at 0x50000 whose data begins at 0x58000. -/
def onePartition (data_size : BitVec 32) : WiiVolume where
  HasWiiHashes := true
  HasWiiEncryption := true
  GetPartitions := [⟨0x14000⟩]
  ReadSwapped offset :=
    if offset = 0x50000 then some 0x10001
    else if offset = 0x502b8 then some 0x2000
    else if offset = 0x502bc then some data_size
    else none
  ReadSwappedIn _ _ := some 0x1000
  ticketIsValid _ := true

theorem sorted_onePartition (data_size : BitVec 32) :
    sortedPartitions (onePartition data_size) = [⟨0x14000⟩] := List.mergeSort_singleton _

theorem discPlacements_onePartition (data_size : BitVec 32) :
    discPlacements (some (onePartition data_size)) =
      placements (onePartition data_size) 0 [⟨0x14000⟩] := by
  rw [discPlacements, sorted_onePartition]

theorem setUp_onePartition (data_size : BitVec 32) (chunk_size iso_size : Nat) :
    SetUpDataEntriesForWriting (some (onePartition data_size)) chunk_size iso_size =
      (setUpPartitions (onePartition data_size) chunk_size [⟨0x14000⟩] (0, .empty)).map
        fun s => AddRawDataEntry s.1 (sub64 iso_size s.1) chunk_size s.2 := by
  rw [SetUpDataEntriesForWriting, sorted_onePartition]

/-- A partition of two blocks in a disc that has them. -/
theorem entries_tile_two_blocks : ∃ e, SetUpDataEntriesForWriting (some (onePartition 0x4000))
      0x200000 0x70000 = some e ∧ ∃ extents, TilesDisc 0x200000 0x70000 e extents := by
  have done : SetUpDataEntriesForWriting (some (onePartition 0x4000)) 0x200000 0x70000 =
      some ⟨4, [⟨⟨0xB, 2, 2, 1⟩, ⟨0xD, 0, 3, 0⟩⟩], [⟨0x80, 0x4FF80, 0, 1⟩, ⟨0x50000, 0x8000, 1, 1⟩,
        ⟨0x68000, 0x8000, 3, 1⟩],
        [.raw 0, .raw 1, .partition 0 0, .partition 0 1, .raw 2]⟩ := by
    rw [setUp_onePartition]
    decide
  refine ⟨_, done, (entries_tile_iff (by decide) (by decide) (by decide) done).mpr ⟨?_, ?_⟩⟩
  · rw [discPlacements_onePartition]
    decide
  · rw [discPlacements_onePartition]
    decide

/-- A partition of four blocks in a disc that ends after one of them is not cut, and the size of
what follows it wraps. -/
theorem entries_tile_fails : ∃ e, SetUpDataEntriesForWriting (some (onePartition 0x8000))
      0x200000 0x60000 = some e ∧ ¬ ∃ extents, TilesDisc 0x200000 0x60000 e extents := by
  refine ⟨⟨3, [⟨⟨0xB, 4, 2, 1⟩, ⟨0xF, 0, 3, 0⟩⟩], [⟨0x80, 0x4FF80, 0, 1⟩, ⟨0x50000, 0x8000, 1, 1⟩,
    ⟨0x78000, 2 ^ 64 - 0x18000, 3, 0⟩],
    [.raw 0, .raw 1, .partition 0 0, .partition 0 1, .raw 2]⟩, ?_, ?_⟩
  · rw [setUp_onePartition]
    decide
  · rintro ⟨extents, tiling⟩
    have partition : (⟨0x58000, 0x20000, 2, 1⟩ : Extent) ∈ extents := by
      have listed : some (⟨0x58000, 0x20000, 2, 1⟩ : Extent) ∈ extents.map some := by
        rw [← tiling.lists.listed]
        decide
      obtain ⟨x, member, same⟩ := List.mem_map.mp listed
      rwa [← Option.some_inj.mp same]
    have inside := (tiling.tiles.inside _ (List.mem_map_of_mem partition)).2.2
    exact absurd inside (by decide)

end Phocoena.DiscIO.WIARVZFileReader
