import Phocoena.DiscIO.DiscScrubber

/-! # Live data is never scrubbed

Each step of a parse keeps the table as long as the disc, keeps what is marked, and marks the
clusters of the bytes it is about. From these the marks of a whole disc follow by composition.
-/

namespace Phocoena.DiscIO.DiscScrubber

/-! ## Live bytes of a disc -/

/-- The file systems that are parsed. -/
def parsed (disc : Disc) : List (Option Partition) :=
  if disc.GetPartitions = [] then [none] else disc.GetPartitions.map some

/-- An entry at any depth of a tree of files. -/
inductive InTree (info : FileSystem.FileInfo) : List FileSystem.FileInfo → Prop where
  | here {root : List FileSystem.FileInfo} (member : info ∈ root) : InTree info root
  | deeper {root children : List FileSystem.FileInfo} (member : .directory children ∈ root)
      (inChildren : InTree info children) : InTree info root

/-- A byte of the disc that holds a byte of a partition's data, or a hash of its block. -/
def RawByte (disc : Disc) (partition : Option Partition) (partition_data_offset offset byte : Nat) :
    Prop :=
  match partition with
  | none => byte = offset
  | some _ =>
      if disc.HasWiiHashes then
        partition_data_offset + offset / 0x7c00 * 0x8000 ≤ byte ∧
          byte < partition_data_offset + offset / 0x7c00 * 0x8000 + 0x8000
      else byte = partition_data_offset + offset

/-- A byte that the data of a partition need, by its offset. -/
inductive DataByte (disc : Disc) (partition : Option Partition) (offset : Nat) : Prop where
  /-- The header, the header information and the apploader, up to 4 GiB. -/
  | apploader (size trailer_size : BitVec 32)
      (readSize : disc.ReadSwapped (0x2440 + 0x14) partition = some size)
      (readTrailer : disc.ReadSwapped (0x2440 + 0x18) partition = some trailer_size)
      (fits : 0x2440 + size.toNat + trailer_size.toNat < 2 ^ 32)
      (lt : offset < 0x2440 + size.toNat + trailer_size.toNat)
  | dol (dol_offset dol_size : Nat)
      (readOffset : disc.GetBootDOLOffset partition = some dol_offset)
      (readSize : disc.GetBootDOLSize partition dol_offset = some dol_size)
      (le : dol_offset ≤ offset) (lt : offset < dol_offset + dol_size)
  | fst (fst_offset fst_size : Nat) (readOffset : disc.GetFSTOffset partition = some fst_offset)
      (readSize : disc.GetFSTSize partition = some fst_size)
      (le : fst_offset ≤ offset) (lt : offset < fst_offset + fst_size)
  | file (root : List FileSystem.FileInfo) (file_offset size : BitVec 32)
      (readRoot : disc.GetFileSystem partition = some root)
      (inTree : InTree (.file file_offset size) root)
      (le : disc.shifted file_offset ≤ offset)
      (lt : offset < disc.shifted file_offset + size.toNat)

/-- A byte of what is stored of a partition before its data. -/
inductive HeaderByte (disc : Disc) (partition : Partition) (byte : Nat) : Prop where
  | header (le : partition.offset ≤ byte) (lt : byte < partition.offset + 0x2c0)
  | tmd (size : BitVec 32) (offset : Nat)
      (readSize : disc.ReadSwapped (partition.offset + 0x2a4) none = some size)
      (readOffset : disc.ReadSwappedAndShifted (partition.offset + 0x2a8) none = some offset)
      (le : partition.offset + offset ≤ byte) (lt : byte < partition.offset + offset + size.toNat)
  | cert_chain (size : BitVec 32) (offset : Nat)
      (readSize : disc.ReadSwapped (partition.offset + 0x2ac) none = some size)
      (readOffset : disc.ReadSwappedAndShifted (partition.offset + 0x2b0) none = some offset)
      (le : partition.offset + offset ≤ byte) (lt : byte < partition.offset + offset + size.toNat)
  | h3 (offset : Nat)
      (readOffset : disc.ReadSwappedAndShifted (partition.offset + 0x2b4) none = some offset)
      (le : partition.offset + offset ≤ byte)
      (lt : byte < partition.offset + offset + WII_PARTITION_H3_SIZE)

/-- A byte of the disc that must be kept. Data with hashes that begin at the first byte of the disc
are not among them. -/
inductive LiveByte (disc : Disc) (byte : Nat) : Prop where
  | disc_header (partitioned : disc.GetPartitions ≠ []) (lt : byte < 0x50000)
  | header (partition : Partition) (member : partition ∈ disc.GetPartitions)
      (isHeader : HeaderByte disc partition byte)
  | data (partition : Option Partition) (partition_data_offset offset : Nat)
      (member : partition ∈ parsed disc)
      (start : partitionDataOffset disc partition = some partition_data_offset)
      (notFirst : partition ≠ none → disc.HasWiiHashes = true → partition_data_offset ≠ 0)
      (isData : DataByte disc partition offset)
      (raw : RawByte disc partition partition_data_offset offset byte)

/-! ## Marks -/

/-- The cluster of a byte is not free. -/
def Marked (s : DiscScrubber) (byte : Nat) : Prop :=
  s.m_free_table[byte / CLUSTER_SIZE]? = some false

/-- The scrubber is set up for a disc, with a table of its size. -/
structure Sound (disc : Disc) (s : DiscScrubber) : Prop where
  clusters : s.m_free_table.length = (disc.GetDataSize + 0x7FFF) / 0x8000
  file_size : s.m_file_size = disc.GetDataSize
  hashes : s.m_has_wii_hashes = disc.HasWiiHashes

/-- What a part of a parse does: it marks the live bytes it is about and takes back no mark. -/
structure Marks (disc : Disc) (live : Nat → Prop) (s s' : DiscScrubber) : Prop where
  sound : Sound disc s'
  keeps : ∀ byte, Marked s byte → Marked s' byte
  marks : ∀ byte, live byte → byte < disc.GetDataSize → Marked s' byte

section
variable {disc : Disc} {live live' : Nat → Prop} {s s₁ s₂ : DiscScrubber}

theorem Marks.refl (sound : Sound disc s) : Marks disc (fun _ => False) s s :=
  ⟨sound, fun _ marked => marked, fun _ none => none.elim⟩

theorem Marks.trans (first : Marks disc live s s₁) (second : Marks disc live' s₁ s₂) :
    Marks disc (fun byte => live byte ∨ live' byte) s s₂ :=
  ⟨second.sound, fun byte marked => second.keeps byte (first.keeps byte marked),
    fun byte either lt => either.elim (fun isLive => second.keeps byte (first.marks byte isLive lt))
      fun isLive => second.marks byte isLive lt⟩

theorem Marks.mono (marks : Marks disc live s s₁) (fewer : ∀ byte, live' byte → live byte) :
    Marks disc live' s s₁ :=
  ⟨marks.sound, marks.keeps, fun byte isLive => marks.marks byte (fewer byte isLive)⟩

end

/-! ## The loop over clusters -/

theorem markFrom_spec {file_size end_offset : Nat} (small : file_size ≤ 2 ^ 64 - 0x8000)
    (fuel k : Nat) (table : List Bool) (clusters : table.length = (file_size + 0x7FFF) / 0x8000)
    (enough : table.length < fuel + 1 + k) :
    ∃ table', markFrom file_size end_offset (fuel + 1) (0x8000 * k) table = .ok table' ∧
      table'.length = table.length ∧
      (∀ i : Nat, table[i]? = some false → table'[i]? = some false) ∧
      ∀ i, k ≤ i → 0x8000 * i < end_offset → 0x8000 * i < file_size → table'[i]? = some false := by
  have size : CLUSTER_SIZE = 0x8000 := rfl
  induction fuel generalizing k table with
  | zero =>
      have beyond : ¬ 0x8000 * k < file_size := by omega
      refine ⟨table, ?_, rfl, fun _ marked => marked, fun i le below within => by omega⟩
      rw [markFrom, if_neg fun both => beyond both.2]
  | succ fuel ih =>
      rw [markFrom]
      split
      · rename_i inside
        have index : 0x8000 * k / CLUSTER_SIZE = k := by
          rw [size, Nat.mul_div_cancel_left _ (by decide)]
        have lt : k < table.length := by omega
        have next : u64 (0x8000 * k + CLUSTER_SIZE) = 0x8000 * (k + 1) := by
          rw [u64, size, Nat.mul_succ, Nat.mod_eq_of_lt (by omega)]
        rw [index, if_pos lt, next]
        have setLength : (table.set k false).length = table.length := List.length_set
        obtain ⟨table', run, length, keeps, marks⟩ := ih (k + 1) (table.set k false)
          (setLength.trans clusters) (by omega)
        refine ⟨table', run, length.trans setLength, fun i marked => ?_,
          fun i le below within => ?_⟩
        · refine keeps i ?_
          rw [List.getElem?_set]
          split
          · rfl
          · exact marked
        · by_cases first : i = k
          · refine keeps i ?_
            rw [first, List.getElem?_set_self lt]
          · exact marks i (by omega) below within
      · rename_i outside
        refine ⟨table, rfl, rfl, fun _ marked => marked, fun i le below within => ?_⟩
        omega

section
variable {disc : Disc} {s : DiscScrubber}

theorem markAsUsed_returns (small : disc.GetDataSize ≤ 2 ^ 64 - 0x8000) (sound : Sound disc s)
    {offset size : Nat} (fits : offset + size < 2 ^ 64) :
    Returns (MarkAsUsed offset size s)
      (Marks disc (fun byte => offset ≤ byte ∧ byte < offset + size) s) := by
  have clusterSize : CLUSTER_SIZE = 0x8000 := rfl
  have file_size := sound.file_size
  obtain ⟨table, run, length, keeps, marks⟩ := @markFrom_spec s.m_file_size (offset + size)
    (by rwa [file_size]) s.m_free_table.length (offset / 0x8000) s.m_free_table
    (by rw [file_size]; exact sound.clusters) (by omega)
  refine ⟨some { s with m_free_table := table }, ?_, ?_⟩
  · have run' := congrArg (Except.map fun table => some { s with m_free_table := table }) run
    rw [← clusterSize, ← alignDown_eq] at run'
    rw [MarkAsUsed, show u64 (offset + size) = offset + size from Nat.mod_eq_of_lt fits]
    exact run'
  · rintro s' same
    obtain rfl := Option.some_inj.mp same
    refine ⟨⟨length.trans sound.clusters, sound.file_size, sound.hashes⟩, fun byte => keeps _, ?_⟩
    rintro byte ⟨le, lt⟩ within
    rw [Marked, clusterSize]
    exact marks _ (Nat.div_le_div_right le) (by omega) (by omega)

theorem shifted_lt_of_disc (disc : Disc) (word : BitVec 32) : disc.shifted word < 2 ^ 34 := by
  have lt := word.isLt
  have le := disc.shift_le
  have pow : 2 ^ disc.GetOffsetShift ≤ 2 ^ 2 := Nat.pow_le_pow_right (by decide) le
  have product : word.toNat * 2 ^ disc.GetOffsetShift ≤ word.toNat * 4 :=
    Nat.mul_le_mul_left _ pow
  rw [Disc.shifted, u64, Nat.shiftLeft_eq, Nat.mod_eq_of_lt (by omega)]
  omega

theorem readShifted_lt {offset value : Nat} {partition : Option Partition}
    (found : disc.ReadSwappedAndShifted offset partition = some value) : value < 2 ^ 34 := by
  obtain ⟨word, -, rfl⟩ := Option.map_eq_some_iff.mp found
  exact shifted_lt_of_disc disc word

/-- The bytes of the disc for a range of the data of a partition. -/
def RangeByte (disc : Disc) (partition : Option Partition)
    (partition_data_offset offset size byte : Nat) : Prop :=
  (partition ≠ none → disc.HasWiiHashes = true → partition_data_offset ≠ 0) ∧
    ∃ o, offset ≤ o ∧ o < offset + size ∧ RawByte disc partition partition_data_offset o byte

theorem toClusterOffset_bounds (sound : Sound disc s) {offset : Nat} (lt : offset < 2 ^ 36) :
    s.ToClusterOffset offset < 2 ^ 37 ∧ s.ToClusterOffset offset =
      if disc.HasWiiHashes then offset / 0x7c00 * 0x8000 else AlignDown offset 0x8000 := by
  have clusterSize : CLUSTER_SIZE = 0x8000 := rfl
  rw [ToClusterOffset, sound.hashes, clusterSize]
  split
  · rw [u64, Nat.mod_eq_of_lt (by omega)]
    omega
  · refine ⟨?_, rfl⟩
    rw [AlignDown]
    omega

/-- The clusters of a range of data hold the raw bytes of all of it. -/
theorem rawByte_within {partition : Option Partition} {partition_data_offset offset size byte o : Nat}
    (partitioned : partition ≠ none) (le : offset ≤ o) (lt : o < offset + size)
    (raw : RawByte disc partition partition_data_offset o byte) :
    (if disc.HasWiiHashes then offset / 0x7c00 * 0x8000 else AlignDown offset 0x8000) +
        partition_data_offset ≤ byte ∧
      byte < (if disc.HasWiiHashes then (offset + size - 1) / 0x7c00 * 0x8000
        else AlignDown (offset + size - 1) 0x8000) + 0x8000 + partition_data_offset := by
  cases partition with
  | none => exact absurd rfl partitioned
  | some p =>
      unfold RawByte at raw
      dsimp only at raw
      split at raw
      · rename_i hashes
        rw [if_pos hashes, if_pos hashes]
        omega
      · rename_i hashes
        rw [if_neg hashes, if_neg hashes, AlignDown, AlignDown]
        omega

theorem markAsUsedE_returns (small : disc.GetDataSize ≤ 2 ^ 64 - 0x8000) (sound : Sound disc s)
    {partition : Option Partition} {partition_data_offset offset size : Nat}
    (start : partition = none → partition_data_offset = 0)
    (startLt : partition_data_offset < 2 ^ 36) (fits : offset + size < 2 ^ 36) :
    Returns (MarkAsUsedE partition_data_offset offset size s)
      (Marks disc (RangeByte disc partition partition_data_offset offset size) s) := by
  unfold MarkAsUsedE
  by_cases zero : partition_data_offset = 0
  · rw [if_pos zero]
    refine (markAsUsed_returns small sound (by omega)).mono fun s' marks => marks.mono ?_
    rintro byte ⟨notFirst, o, le, lt, raw⟩
    have same : byte = o := by
      unfold RawByte at raw
      cases partition with
      | none => exact raw
      | some p =>
          dsimp only at raw
          split at raw
          · rename_i hashes
            exact absurd zero (notFirst (Option.some_ne_none p) hashes)
          · omega
    omega
  · rw [if_neg zero]
    have partitioned : partition ≠ none := fun none => zero (start none)
    obtain ⟨firstLt, first⟩ := toClusterOffset_bounds sound (show offset < 2 ^ 36 by omega)
    obtain ⟨lastLt, last⟩ := toClusterOffset_bounds sound (show offset + size - 1 < 2 ^ 36 by omega)
    have monotone : s.ToClusterOffset offset ≤ s.ToClusterOffset (offset + size - 1) ∨ size = 0 := by
      rw [first, last]
      split
      · omega
      · rw [AlignDown, AlignDown]
        omega
    have firstSum : u64 (s.ToClusterOffset offset + partition_data_offset) =
        s.ToClusterOffset offset + partition_data_offset := Nat.mod_eq_of_lt (by omega)
    rw [firstSum]
    dsimp only
    by_cases empty : size = 0
    · rw [if_pos empty]
      refine (markAsUsed_returns small sound (by rw [sub64_of_le le_rfl (by omega)]; omega)).mono
        fun s' marks => marks.mono ?_
      rintro byte ⟨-, o, le, lt, -⟩
      omega
    · have clusterSize : CLUSTER_SIZE = 0x8000 := rfl
      have whole : u64 (offset + size - 1) = offset + size - 1 := Nat.mod_eq_of_lt (by omega)
      have lastSum : u64 (s.ToClusterOffset (offset + size - 1) + CLUSTER_SIZE +
          partition_data_offset) = s.ToClusterOffset (offset + size - 1) + 0x8000 +
            partition_data_offset := Nat.mod_eq_of_lt (by omega)
      rw [if_neg empty, whole, lastSum, sub64_of_le (by omega) (by omega)]
      refine (markAsUsed_returns small sound (by omega)).mono fun s' marks => marks.mono ?_
      rintro byte ⟨-, o, le, lt, raw⟩
      have within := rawByte_within partitioned le lt raw
      rw [← first, ← last] at within
      omega

/-! ## Trees of files -/

/-- A raw byte of a file in a tree. -/
def TreeByte (disc : Disc) (partition : Option Partition) (partition_data_offset : Nat)
    (root : List FileSystem.FileInfo) (byte : Nat) : Prop :=
  ∃ offset size, InTree (.file offset size) root ∧
    RangeByte disc partition partition_data_offset (disc.shifted offset) size.toNat byte

theorem inTree_nil {info : FileSystem.FileInfo} : ¬ InTree info [] := by
  intro inTree
  cases inTree with
  | here member => cases member
  | deeper member => cases member

theorem inTree_cons {info first : FileSystem.FileInfo} {rest : List FileSystem.FileInfo}
    (inTree : InTree info (first :: rest)) : InTree info [first] ∨ InTree info rest := by
  cases inTree with
  | here member =>
      rcases List.mem_cons.mp member with rfl | later
      · exact .inl (.here (List.mem_singleton_self _))
      · exact .inr (.here later)
  | deeper member inChildren =>
      rcases List.mem_cons.mp member with same | later
      · exact .inl (.deeper (same ▸ List.mem_singleton_self _) inChildren)
      · exact .inr (.deeper later inChildren)

theorem inTree_file {offset size offset' size' : BitVec 32}
    (inTree : InTree (.file offset size) [.file offset' size']) :
    offset = offset' ∧ size = size' := by
  cases inTree with
  | here member => exact FileSystem.FileInfo.file.inj (List.mem_singleton.mp member)
  | deeper member =>
      have same := List.mem_singleton.mp member
      cases same

theorem inTree_directory {offset size : BitVec 32} {children : List FileSystem.FileInfo}
    (inTree : InTree (.file offset size) [.directory children]) :
    InTree (.file offset size) children := by
  cases inTree with
  | here member =>
      have same := List.mem_singleton.mp member
      cases same
  | deeper member inChildren =>
      obtain rfl := FileSystem.FileInfo.directory.inj (List.mem_singleton.mp member)
      exact inChildren

end

section
variable {disc : Disc} {partition : Option Partition} {partition_data_offset : Nat}

mutual

theorem parseFileInfo_returns (small : disc.GetDataSize ≤ 2 ^ 64 - 0x8000)
    (start : partition = none → partition_data_offset = 0)
    (startLt : partition_data_offset < 2 ^ 36) :
    (info : FileSystem.FileInfo) → (s : DiscScrubber) → Sound disc s →
      Returns (parseFileInfo disc partition_data_offset info s)
        (Marks disc (TreeByte disc partition partition_data_offset [info]) s)
  | .file offset size, s, sound => by
      have offsetLt := shifted_lt_of_disc disc offset
      have sizeLt := size.isLt
      rw [parseFileInfo]
      refine (markAsUsedE_returns small sound start startLt (by omega)).mono
        fun s' marks => marks.mono ?_
      rintro byte ⟨offset', size', inTree, isByte⟩
      obtain ⟨rfl, rfl⟩ := inTree_file inTree
      exact isByte
  | .directory children, s, sound => by
      rw [parseFileInfo]
      refine (parseFileSystemData_returns small start startLt children s sound).mono
        fun s' marks => marks.mono ?_
      rintro byte ⟨offset, size, inTree, isByte⟩
      exact ⟨offset, size, inTree_directory inTree, isByte⟩

theorem parseFileSystemData_returns (small : disc.GetDataSize ≤ 2 ^ 64 - 0x8000)
    (start : partition = none → partition_data_offset = 0)
    (startLt : partition_data_offset < 2 ^ 36) :
    (root : List FileSystem.FileInfo) → (s : DiscScrubber) → Sound disc s →
      Returns (ParseFileSystemData disc partition_data_offset root s)
        (Marks disc (TreeByte disc partition partition_data_offset root) s)
  | [], s, sound => by
      rw [ParseFileSystemData]
      refine Returns.pure ((Marks.refl sound).mono ?_)
      rintro byte ⟨offset, size, inTree, -⟩
      exact inTree_nil inTree
  | info :: rest, s, sound => by
      rw [ParseFileSystemData]
      refine (parseFileInfo_returns small start startLt info s sound).bind fun s₁ first => ?_
      refine (parseFileSystemData_returns small start startLt rest s₁ first.sound).mono
        fun s₂ second => (first.trans second).mono ?_
      rintro byte ⟨offset, size, inTree, isByte⟩
      exact (inTree_cons inTree).imp (fun inFirst => ⟨offset, size, inFirst, isByte⟩)
        fun inRest => ⟨offset, size, inRest, isByte⟩

end

/-! ## Partitions and the disc -/

theorem segmentsEnd_lt {offsets sizes dol_size result : Nat} (lt : dol_size < 2 ^ 32)
    (count : Nat) (found : disc.segmentsEnd partition offsets sizes count dol_size = some result) :
    result < 2 ^ 32 := by
  induction count generalizing result with
  | zero => exact Option.some_inj.mp found ▸ lt
  | succ count ih =>
      rw [Disc.segmentsEnd] at found
      obtain ⟨before, run, found⟩ := Option.bind_eq_some_iff.mp found
      obtain ⟨offset, -, found⟩ := Option.bind_eq_some_iff.mp found
      obtain ⟨size, -, found⟩ := Option.bind_eq_some_iff.mp found
      rw [← Option.some_inj.mp found]
      exact max_lt (Nat.mod_lt _ (by decide)) (ih run)

theorem dolSize_lt {dol_offset dol_size : Nat}
    (found : disc.GetBootDOLSize partition dol_offset = some dol_size) : dol_size < 2 ^ 32 := by
  obtain ⟨code, run, found⟩ := Option.bind_eq_some_iff.mp found
  exact segmentsEnd_lt (segmentsEnd_lt (by decide) 7 run) 11 found

theorem dolOffset_lt {dol_offset : Nat}
    (found : disc.GetBootDOLOffset partition = some dol_offset) : dol_offset < 2 ^ 34 :=
  readShifted_lt (Option.filter_eq_some_iff.mp found).1

theorem partitionOffset_lt (p : Partition) : p.offset < 2 ^ 34 := by
  have lt := p.shifted_offset.isLt
  rw [Partition.offset]
  omega

theorem partitionDataOffset_lt
    (found : partitionDataOffset disc partition = some partition_data_offset) :
    partition_data_offset < 2 ^ 36 ∧ (partition = none → partition_data_offset = 0) := by
  cases partition with
  | none =>
      cases found
      exact ⟨by decide, fun _ => rfl⟩
  | some p =>
      obtain ⟨data_offset, read, rfl⟩ := Option.map_eq_some_iff.mp found
      have dataLt := readShifted_lt read
      have offsetLt := partitionOffset_lt p
      refine ⟨?_, fun same => absurd same (Option.some_ne_none p)⟩
      rw [u64, Nat.mod_eq_of_lt (by omega)]
      omega

/-- A raw byte that the data of a partition need. -/
def DataRaw (disc : Disc) (partition : Option Partition) (byte : Nat) : Prop :=
  ∃ partition_data_offset offset,
    partitionDataOffset disc partition = some partition_data_offset ∧
    (partition ≠ none → disc.HasWiiHashes = true → partition_data_offset ≠ 0) ∧
    DataByte disc partition offset ∧ RawByte disc partition partition_data_offset offset byte

theorem parsePartitionData_returns (small : disc.GetDataSize ≤ 2 ^ 64 - 0x8000)
    {s : DiscScrubber} (sound : Sound disc s) : Returns (ParsePartitionData disc partition s)
      (Marks disc (DataRaw disc partition) s) := by
  unfold ParsePartitionData
  refine Returns.ofRead.bind fun root readRoot => ?_
  refine Returns.ofRead.bind fun start readStart => ?_
  refine Returns.ofRead.bind fun size readSize => ?_
  refine Returns.ofRead.bind fun trailer readTrailer => ?_
  obtain ⟨startLt, isZero⟩ := partitionDataOffset_lt readStart
  have sumLt : u32 (0x2440 + size.toNat + trailer.toNat) < 2 ^ 32 := Nat.mod_lt _ (by decide)
  refine (markAsUsedE_returns small sound isZero startLt (by omega)).bind fun s₁ apploader => ?_
  refine Returns.ofRead.bind fun dol_offset readDol => ?_
  refine Returns.ofRead.bind fun dol_size readDolSize => ?_
  have dolLt := dolOffset_lt readDol
  have dolSizeLt := dolSize_lt readDolSize
  refine (markAsUsedE_returns small apploader.sound isZero startLt (by omega)).bind
    fun s₂ dol => ?_
  refine Returns.ofRead.bind fun fst_offset readFst => ?_
  refine Returns.ofRead.bind fun fst_size readFstSize => ?_
  have fstLt := readShifted_lt readFst
  have fstSizeLt := readShifted_lt readFstSize
  refine (markAsUsedE_returns small dol.sound isZero startLt (by omega)).bind fun s₃ fst => ?_
  refine (parseFileSystemData_returns small isZero startLt root s₃ fst.sound).mono
    fun s₄ files => (apploader.trans (dol.trans (fst.trans files))).mono ?_
  rintro byte ⟨start', offset, readStart', notFirst, isData, raw⟩
  obtain rfl := Option.some_inj.mp (readStart.symm.trans readStart')
  cases isData with
  | apploader size' trailer' readSize' readTrailer' fits lt =>
      obtain rfl := Option.some_inj.mp (readSize.symm.trans readSize')
      obtain rfl := Option.some_inj.mp (readTrailer.symm.trans readTrailer')
      refine .inl ⟨notFirst, offset, Nat.zero_le _, ?_, raw⟩
      rwa [u32, Nat.mod_eq_of_lt fits, Nat.zero_add]
  | dol dol_offset' dol_size' readOffset readSize' le lt =>
      obtain rfl := Option.some_inj.mp (readDol.symm.trans readOffset)
      obtain rfl := Option.some_inj.mp (readDolSize.symm.trans readSize')
      exact .inr (.inl ⟨notFirst, offset, le, lt, raw⟩)
  | fst fst_offset' fst_size' readOffset readSize' le lt =>
      obtain rfl := Option.some_inj.mp (readFst.symm.trans readOffset)
      obtain rfl := Option.some_inj.mp (readFstSize.symm.trans readSize')
      exact .inr (.inr (.inl ⟨notFirst, offset, le, lt, raw⟩))
  | file root' file_offset file_size readRoot' inTree le lt =>
      obtain rfl := Option.some_inj.mp (readRoot.symm.trans readRoot')
      exact .inr (.inr (.inr ⟨file_offset, file_size, inTree, notFirst, offset, le, lt, raw⟩))

theorem parsePartition_returns (small : disc.GetDataSize ≤ 2 ^ 64 - 0x8000) (p : Partition)
    {s : DiscScrubber} (sound : Sound disc s) : Returns (parsePartition disc p s)
      (Marks disc (fun byte => HeaderByte disc p byte ∨ DataRaw disc (some p) byte) s) := by
  have offsetLt := partitionOffset_lt p
  unfold parsePartition
  refine Returns.ofRead.bind fun tmd_size readTmdSize => ?_
  refine Returns.ofRead.bind fun tmd_offset readTmd => ?_
  refine Returns.ofRead.bind fun cert_size readCertSize => ?_
  refine Returns.ofRead.bind fun cert_offset readCert => ?_
  refine Returns.ofRead.bind fun h3_offset readH3 => ?_
  have tmdLt := readShifted_lt readTmd
  have certLt := readShifted_lt readCert
  have h3Lt := readShifted_lt readH3
  have tmdSizeLt := tmd_size.isLt
  have certSizeLt := cert_size.isLt
  have h3Size : WII_PARTITION_H3_SIZE = 0x18000 := rfl
  have tmdSum : u64 (p.offset + tmd_offset) = p.offset + tmd_offset :=
    Nat.mod_eq_of_lt (by omega)
  have certSum : u64 (p.offset + cert_offset) = p.offset + cert_offset :=
    Nat.mod_eq_of_lt (by omega)
  have h3Sum : u64 (p.offset + h3_offset) = p.offset + h3_offset := Nat.mod_eq_of_lt (by omega)
  refine (markAsUsed_returns small sound (by omega)).bind fun s₁ header => ?_
  rw [tmdSum, certSum, h3Sum]
  refine (markAsUsed_returns small header.sound (by omega)).bind fun s₂ tmd => ?_
  refine (markAsUsed_returns small tmd.sound (by omega)).bind fun s₃ cert => ?_
  refine (markAsUsed_returns small cert.sound (by omega)).bind fun s₄ h3 => ?_
  refine (parsePartitionData_returns small h3.sound).mono fun s₅ data =>
    ((header.trans (tmd.trans (cert.trans h3))).trans data).mono ?_
  rintro byte (isHeader | isData)
  · refine .inl ?_
    cases isHeader with
    | header le lt => exact .inl ⟨le, lt⟩
    | tmd size offset readSize readOffset le lt =>
        obtain rfl := Option.some_inj.mp (readTmdSize.symm.trans readSize)
        obtain rfl := Option.some_inj.mp (readTmd.symm.trans readOffset)
        exact .inr (.inl ⟨le, lt⟩)
    | cert_chain size offset readSize readOffset le lt =>
        obtain rfl := Option.some_inj.mp (readCertSize.symm.trans readSize)
        obtain rfl := Option.some_inj.mp (readCert.symm.trans readOffset)
        exact .inr (.inr (.inl ⟨le, lt⟩))
    | h3 offset readOffset le lt =>
        obtain rfl := Option.some_inj.mp (readH3.symm.trans readOffset)
        exact .inr (.inr (.inr ⟨le, lt⟩))
  · exact .inr isData

theorem parsePartitions_returns (small : disc.GetDataSize ≤ 2 ^ 64 - 0x8000)
    (partitions : List Partition) {s : DiscScrubber} (sound : Sound disc s) :
    Returns (parsePartitions disc partitions s) (Marks disc (fun byte => ∃ p ∈ partitions,
      HeaderByte disc p byte ∨ DataRaw disc (some p) byte) s) := by
  induction partitions generalizing s with
  | nil =>
      refine Returns.pure ((Marks.refl sound).mono ?_)
      rintro byte ⟨p, member, -⟩
      cases member
  | cons p rest ih =>
      refine (parsePartition_returns small p sound).bind fun s₁ first => ?_
      refine (ih first.sound).mono fun s₂ second => (first.trans second).mono ?_
      rintro byte ⟨q, member, isByte⟩
      rcases List.mem_cons.mp member with rfl | later
      · exact .inl isByte
      · exact .inr ⟨q, later, isByte⟩

theorem parseDisc_returns (small : disc.GetDataSize ≤ 2 ^ 64 - 0x8000) {s : DiscScrubber}
    (sound : Sound disc s) : Returns (ParseDisc disc s) (Marks disc (LiveByte disc) s) := by
  unfold ParseDisc
  by_cases empty : disc.GetPartitions = []
  · rw [if_pos empty]
    refine (parsePartitionData_returns small sound).mono fun s' marks => marks.mono ?_
    intro byte live
    cases live with
    | disc_header partitioned => exact absurd empty partitioned
    | header p member =>
        rw [empty] at member
        cases member
    | data partition start offset member readStart notFirst isData raw =>
        rw [parsed, if_pos empty, List.mem_singleton] at member
        subst member
        exact ⟨start, offset, readStart, notFirst, isData, raw⟩
  · rw [if_neg empty]
    refine (markAsUsed_returns small sound (by omega)).bind fun s₁ header => ?_
    refine (parsePartitions_returns small _ header.sound).mono
      fun s₂ marks => (header.trans marks).mono ?_
    intro byte live
    cases live with
    | disc_header _ lt => exact .inl ⟨Nat.zero_le _, by omega⟩
    | header p member isHeader => exact .inr ⟨p, member, .inl isHeader⟩
    | data partition start offset member readStart notFirst isData raw =>
        rw [parsed, if_neg empty] at member
        obtain ⟨p, inPartitions, rfl⟩ := List.mem_map.mp member
        exact .inr ⟨p, inPartitions, .inr ⟨start, offset, readStart, notFirst, isData, raw⟩⟩

theorem length_resize (table : List Bool) (count : Nat) (value : Bool) :
    (resize table count value).length = count := by
  rw [resize, List.length_append, List.length_take, List.length_replicate]
  omega

theorem setupScrub_returns (small : disc.GetDataSize ≤ 2 ^ 64 - 0x8000) (s : DiscScrubber) :
    Returns (SetupScrub disc s) fun s' => s'.m_is_scrubbing = true ∧
      ∀ byte, LiveByte disc byte → byte < disc.GetDataSize → Marked s' byte := by
  have size : CLUSTER_SIZE = 0x8000 := rfl
  have clusters : u64 (disc.GetDataSize + CLUSTER_SIZE - 1) / CLUSTER_SIZE =
      (disc.GetDataSize + 0x7FFF) / 0x8000 := by
    have rounded : disc.GetDataSize + 0x8000 - 1 = disc.GetDataSize + 0x7FFF := by omega
    rw [size, u64, Nat.mod_eq_of_lt (by omega), rounded]
  unfold SetupScrub
  refine (parseDisc_returns small ⟨?_, rfl, rfl⟩).bind fun s' marks => Returns.pure ?_
  · exact (length_resize _ _ _).trans clusters
  · exact ⟨rfl, marks.marks⟩

end

/-- A GameCube disc of one cluster, with a file of one byte after its end. -/
def shortDisc : Disc where
  GetDataSize := 0x8000
  HasWiiHashes := false
  GetPartitions := []
  GetOffsetShift := 0
  shift_le := by decide
  ReadSwapped _ _ := some 0x100
  GetFileSystem _ := some [.file 0x8000 1]

/-- A new scrubber. -/
def fresh : DiscScrubber := ⟨[], 0, false, false⟩

end Phocoena.DiscIO.DiscScrubber
