import Phocoena.DiscIO.SectorReader
import Phocoena.DiscIO.SectorReads

/-! # GCZ files

Opening a GCZ file and reading its blocks. Decompression is a parameter: of `inflate` it is only
known that it writes no more than it has room for. That a block has a wrong hash is only logged.
-/

namespace Phocoena.DiscIO

def GCZ_MAGIC : Nat := 0xB10BC001

def uncompressed_flag : Nat := 2 ^ 63

/-- `offset & ~uncompressed_flag` -/
def withoutFlag (offset : Nat) : Nat := offset &&& (uncompressed_flag - 1)

structure CompressedBlobHeader where
  magic_cookie : BitVec 32
  sub_type : BitVec 32
  compressed_data_size : BitVec 64
  disc_size : BitVec 64
  block_size : BitVec 32
  num_blocks : BitVec 32
deriving DecidableEq

open Codec in
def CompressedBlobHeader.codec : Codec CompressedBlobHeader :=
  (pair le32 <| pair le32 <| pair le64 <| pair le64 <| pair le32 le32).map
  (fun h => (h.magic_cookie, h.sub_type, h.compressed_data_size, h.disc_size, h.block_size,
    h.num_blocks))
  (fun (magic_cookie, sub_type, compressed_data_size, disc_size, block_size, num_blocks) =>
    ⟨magic_cookie, sub_type, compressed_data_size, disc_size, block_size, num_blocks⟩)
  (fun _ => rfl)

/-- `inflate` of one stream into a buffer with room for `avail_out` bytes: the bytes written. -/
structure Inflate where
  run : List Byte → Nat → List Byte
  bounded : ∀ input avail_out, (run input avail_out).length ≤ avail_out

/-- The size of `m_zlib_buffer` stands for it: what is read from it was put there before. -/
structure CompressedBlobReader where
  m_header : CompressedBlobHeader
  m_block_pointers : Vector (BitVec 64) m_header.num_blocks.toNat
  m_hashes : Vector (BitVec 32) m_header.num_blocks.toNat
  m_data_offset : Nat
  m_file : List Byte
  zlib_buffer_size : Nat
  sectors : SectorReader

/-- `DirectIOFile::OffsetRead`: all or nothing, and no offset above that of a signed word. -/
def offsetRead (file : List Byte) (offset size : Nat) : Option (List Byte) :=
  if offset < 2 ^ 63 ∧ (size = 0 ∨ offset + size ≤ file.length) then
    some ((file.drop offset).take size)
  else none

namespace CompressedBlobReader

/-- `m_block_pointers[block_num]` -/
def blockPointer (r : CompressedBlobReader) (block_num : Nat) : Nat :=
  (r.m_block_pointers.toList.getD block_num 0).toNat

def getBlockCompressedSize (block_num : Nat) (r : CompressedBlobReader) : Nat :=
  let start := withoutFlag (r.blockPointer block_num)
  if block_num < r.m_header.num_blocks.toNat - 1 then
    u64 (withoutFlag (r.blockPointer (block_num + 1)) + (2 ^ 64 - start))
  else if block_num = r.m_header.num_blocks.toNat - 1 then
    u64 (r.m_header.compressed_data_size.toNat + (2 ^ 64 - start))
  else 0

/-- What `GetBlock` does with a block at `offset` of the file. -/
def readBlock (inflate : Inflate) (uncompressed : Bool) (offset read_size : Nat)
    (r : CompressedBlobReader) : Except Fault (Bool × List Byte) :=
  let block_size := r.m_header.block_size.toNat
  if r.zlib_buffer_size < read_size then .error .outOfBounds
  else
    match offsetRead r.m_file offset read_size with
    | none => .ok (false, [])
    | some input =>
        if uncompressed then
          if r.zlib_buffer_size < block_size then .error .outOfBounds
          else .ok (true, input.take block_size)
        else
          let written := inflate.run input block_size
          .ok (written.length = block_size, written)

def getBlock (inflate : Inflate) (block_num : Nat) (r : CompressedBlobReader) :
    Except Fault (Bool × List Byte) :=
  if r.m_header.num_blocks.toNat ≤ block_num then .ok (false, [])
  else
    let read_size := r.getBlockCompressedSize block_num
    let offset := u64 (r.blockPointer block_num + r.m_data_offset)
    if offset.testBit 63 then
      if read_size ≠ r.m_header.block_size.toNat then .ok (false, [])
      else r.readBlock inflate true (withoutFlag offset) read_size
    else if r.zlib_buffer_size < read_size then .ok (false, [])
    else r.readBlock inflate false offset read_size

/-- Whether the loop of `ValidateBlockPointers` counts the block. -/
def validPointer (r : CompressedBlobReader) (i : Nat) : Bool :=
  let next :=
    if i + 1 < r.m_header.num_blocks.toNat then withoutFlag (r.blockPointer (i + 1))
    else r.m_header.compressed_data_size.toNat
  let offset := withoutFlag (r.blockPointer i)
  let uncompressed := (r.blockPointer i).testBit 63
  let size := u64 (next + (2 ^ 64 - offset))
  !(r.m_header.compressed_data_size.toNat < next) &&
    !(r.m_header.compressed_data_size.toNat < offset) &&
    !(uncompressed && size ≠ r.m_header.block_size.toNat) &&
    !(!uncompressed && r.zlib_buffer_size < size)

def validateBlockPointers (r : CompressedBlobReader) : Bool :=
  let valid_pointers := (List.range r.m_header.num_blocks.toNat).countP r.validPointer
  let invalid_pointers := r.m_header.num_blocks.toNat - valid_pointers
  invalid_pointers = 0

/-- The reader of a file when `Initialize` returns true. -/
def initializeReader (file : List Byte) : Option CompressedBlobReader := do
  let (m_header, rest) ← CompressedBlobHeader.codec.decode file
  let num_blocks := m_header.num_blocks.toNat
  let header_size := 32 + num_blocks * 8 + num_blocks * 4
  if m_header.magic_cookie.toNat ≠ GCZ_MAGIC then none
  else if file.length < header_size then none
  else if file.length < u64 (header_size + m_header.compressed_data_size.toNat) then none
  else if num_blocks = 0 then none
  else do
    let (m_block_pointers, rest) ← (Codec.le64.array num_blocks).decode rest
    let (m_hashes, _) ← (Codec.le32.array num_blocks).decode rest
    let r : CompressedBlobReader := {
      m_header, m_block_pointers, m_hashes
      m_data_offset := header_size
      m_file := file
      zlib_buffer_size := u32 (m_header.block_size.toNat + 64)
      sectors := SectorReader.setSectorSize m_header.block_size.toInt {} }
    if r.validateBlockPointers then some r else none

def isGCZBlob (file : List Byte) : Bool :=
  (CompressedBlobHeader.codec.decode file).any fun (header, _) =>
    header.magic_cookie.toNat = GCZ_MAGIC

def create (file : List Byte) : Option CompressedBlobReader :=
  if isGCZBlob file then initializeReader file else none

def source (inflate : Inflate) (r : CompressedBlobReader) : BlockSource where
  dataSize := r.m_header.disc_size.toNat
  getBlock block_num := r.getBlock inflate block_num

/-- Calls of `Read` of the reader one after the other. -/
def readAll (inflate : Inflate) (reads : List (Nat × Nat)) (r : CompressedBlobReader) :
    Except Fault (List (Bool × List Byte)) :=
  r.sectors.readAll (r.source inflate) reads

end CompressedBlobReader

end Phocoena.DiscIO

/-! ## Reading from a GCZ file is safe

A file that was accepted is read without a fault if and only if its block size is positive as a
signed word. What it gives then depends on nothing but the file.
-/

namespace Phocoena.DiscIO.CompressedBlobReader

/-- What is right about a read: the bytes of a successful one are those of the blocks, and it gives
what it gives when nothing was read before. -/
def Right (inflate : Inflate) (r : CompressedBlobReader) (read : Nat × Nat)
    (result : Bool × List Byte) : Prop :=
  (result.1 = true → result.2.length = read.2 ∧ ∀ i, i < read.2 → ∃ data,
    r.getBlock inflate ((read.1 + i) / r.m_header.block_size.toNat) = .ok (true, data) ∧
      result.2[i]? = data[(read.1 + i) % r.m_header.block_size.toNat]?) ∧
  ∃ alone, r.readAll inflate [read] = .ok [alone] ∧ alone.1 = result.1 ∧
    (result.1 = true → alone.2 = result.2)

/-- Every sequence of reads ends without a fault, and each of them is right. -/
def Safe (inflate : Inflate) (r : CompressedBlobReader) : Prop :=
  ∀ reads : List (Nat × Nat), (∀ read ∈ reads, read.1 < 2 ^ 64 ∧ read.2 < 2 ^ 64) →
    ∃ results, r.readAll inflate reads = .ok results ∧
      List.Forall₂ (r.Right inflate) reads results

/-- What the reader of an accepted file has. -/
structure Created (file : List Byte) (r : CompressedBlobReader) : Prop where
  zlib_buffer : r.zlib_buffer_size = u32 (r.m_header.block_size.toNat + 64)
  sectors : r.sectors = SectorReader.setSectorSize r.m_header.block_size.toInt {}
  file_eq : r.m_file = file

theorem created_of_create {file : List Byte} {r : CompressedBlobReader}
    (created : create file = some r) : Created file r := by
  unfold create initializeReader at created
  split at created
  · obtain ⟨⟨header, rest⟩, -, created⟩ := Option.bind_eq_some_iff.mp created
    dsimp only at created
    split_ifs at created
    obtain ⟨⟨pointers, rest'⟩, -, created⟩ := Option.bind_eq_some_iff.mp created
    obtain ⟨⟨hashes, rest''⟩, -, created⟩ := Option.bind_eq_some_iff.mp created
    dsimp only at created
    split_ifs at created
    cases created
    exact ⟨rfl, rfl, rfl⟩
  · cases created

section
variable {file : List Byte} {r : CompressedBlobReader} {inflate : Inflate}

/-- A block is read without a fault into a buffer that is large enough. -/
theorem readBlock_answers (room : r.m_header.block_size.toNat ≤ r.zlib_buffer_size)
    {read_size : Nat} (fits : read_size ≤ r.zlib_buffer_size) (uncompressed : Bool)
    (whole : uncompressed = true → read_size = r.m_header.block_size.toNat) (offset : Nat) :
    ∃ read bytes, r.readBlock inflate uncompressed offset read_size = .ok (read, bytes) ∧
      bytes.length ≤ r.m_header.block_size.toNat ∧
      (read = true → bytes.length = r.m_header.block_size.toNat) := by
  unfold readBlock
  dsimp only
  rw [if_neg (Nat.not_lt.mpr fits)]
  cases found : offsetRead r.m_file offset read_size with
  | none => exact ⟨false, [], rfl, Nat.zero_le _, nofun⟩
  | some input =>
      cases uncompressed with
      | false =>
          refine ⟨_, _, rfl, inflate.bounded .., fun done => ?_⟩
          exact of_decide_eq_true done
      | true =>
          have length : input.length = read_size := by
            unfold offsetRead at found
            split at found
            · rename_i inside
              cases found
              rw [List.length_take, List.length_drop]
              omega
            · cases found
          have all := whole rfl
          simp only [↓reduceIte, if_neg (Nat.not_lt.mpr room)]
          refine ⟨true, _, rfl, ?_, fun _ => ?_⟩ <;> rw [List.length_take] <;> omega

theorem sound_source (created : Created file r) (pos : 0 < r.m_header.block_size.toNat)
    (small : r.m_header.block_size.toNat < 2 ^ 31) :
    Sound (r.source inflate) r.m_header.block_size.toNat := by
  refine ⟨pos, small, fun block => ?_⟩
  have room : r.zlib_buffer_size = r.m_header.block_size.toNat + 64 := by
    rw [created.zlib_buffer]
    exact Nat.mod_eq_of_lt (by omega)
  have few := r.m_header.num_blocks.isLt
  unfold source getBlock
  dsimp only
  split
  · exact ⟨false, [], rfl, Nat.zero_le _, nofun⟩
  · rename_i inside
    have numbered : ∀ {read : Bool} {bytes : List Byte},
        (read = true → bytes.length = r.m_header.block_size.toNat) →
        (read = true → bytes.length = r.m_header.block_size.toNat ∧ block < 2 ^ 32) :=
      fun length done => ⟨length done, by omega⟩
    split
    · split
      · exact ⟨false, [], rfl, Nat.zero_le _, nofun⟩
      · rename_i same
        obtain ⟨read, bytes, call, short, length⟩ := @readBlock_answers r inflate (by omega)
          (r.getBlockCompressedSize block) (by omega) true (fun _ => by omega) _
        exact ⟨read, bytes, call, short, numbered length⟩
    · split
      · exact ⟨false, [], rfl, Nat.zero_le _, nofun⟩
      · rename_i fits
        obtain ⟨read, bytes, call, short, length⟩ := @readBlock_answers r inflate (by omega)
          (r.getBlockCompressedSize block) (by omega) false nofun _
        exact ⟨read, bytes, call, short, numbered length⟩

theorem block_size_sectors (created : Created file r) :
    r.sectors.m_block_size = (max r.m_header.block_size.toInt 0).toNat := by
  rw [created.sectors]
  rfl

theorem cached_sectors (created : Created file r) (small : r.m_header.block_size.toNat < 2 ^ 31)
    (source : BlockSource) : Cached source r.m_header.block_size.toNat r.sectors := by
  have positive : r.m_header.block_size.toInt = r.m_header.block_size.toNat :=
    BitVec.toInt_eq_toNat_of_lt (by omega)
  have size := block_size_sectors created
  rw [positive] at size
  refine ⟨by omega, by rw [created.sectors]; rfl, ?_, ?_⟩
  · rw [created.sectors]
    simp [SectorReader.setSectorSize]
  · rw [created.sectors]
    intro c mem
    obtain ⟨c', mem', rfl⟩ := List.mem_map.mp mem
    refine ⟨?_, .inl rfl⟩
    rw [List.eq_of_mem_replicate mem', positive]
    simp [resize, u32]
    omega

theorem right_of_gives (sound : Sound (r.source inflate) r.m_header.block_size.toNat)
    (cached : Cached (r.source inflate) r.m_header.block_size.toNat r.sectors)
    {read : Nat × Nat} (lt : read.1 < 2 ^ 64) {result : Bool × List Byte}
    (gives : Gives result
      (plainRead (r.source inflate) r.m_header.block_size.toNat read.1 read.2)) :
    r.Right inflate read result := by
  refine ⟨fun done => plainRead_spec sound (gives.of_true done), ?_⟩
  obtain ⟨results, run, all⟩ := cached.readAll sound [read] (by simpa using lt)
  obtain ⟨alone, rest, gives', none, rfl⟩ := List.forall₂_cons_left_iff.mp all
  cases none
  exact ⟨alone, run, gives.same gives'⟩

theorem forall₂_of_mem {α β : Type} {P Q : α → β → Prop} {as : List α} {bs : List β}
    (all : List.Forall₂ P as bs) (next : ∀ a ∈ as, ∀ b, P a b → Q a b) :
    List.Forall₂ Q as bs := by
  induction all with
  | nil => exact .nil
  | cons head _ ih =>
      exact .cons (next _ List.mem_cons_self _ head) (ih fun a mem =>
        next a (List.mem_cons_of_mem _ mem))

/-- A file that was accepted can be read safely if and only if its block size is not zero or negative
as a signed word. -/
theorem reads_safe_iff (inflate : Inflate) (accepted : create file = some r) :
    r.Safe inflate ↔ 0 < r.m_header.block_size.toNat ∧ r.m_header.block_size.toNat < 2 ^ 31 := by
  have created := created_of_create accepted
  constructor
  · intro safe
    obtain ⟨results, run, -⟩ := safe [(0, 0)] (by decide)
    by_contra bad
    have zero : r.sectors.m_block_size = 0 := by
      have size := block_size_sectors created
      have lt := r.m_header.block_size.isLt
      have signed := BitVec.toInt_eq_toNat_cond r.m_header.block_size
      split at signed <;> omega
    have nothing : ¬ (r.source inflate).dataSize < u64 (0 + 0) := Nat.not_lt_zero _
    unfold readAll SectorReader.readAll SectorReader.read at run
    rw [if_neg nothing, if_pos zero] at run
    cases run
  · rintro ⟨pos, small⟩ reads lt
    have sound := @sound_source file r inflate created pos small
    have cached := cached_sectors created small (r.source inflate)
    obtain ⟨results, run, gives⟩ := cached.readAll sound reads fun read mem => (lt read mem).1
    exact ⟨results, run, forall₂_of_mem gives fun read mem result given =>
      right_of_gives sound cached (lt read mem).1 given⟩

end

/-- A header with one block table entry for each block, and no stored hashes. -/
def smallFile (header : CompressedBlobHeader) (pointers : List (BitVec 64)) (data : List Byte) :
    List Byte :=
  CompressedBlobHeader.codec.encode header ++ pointers.flatMap Codec.le64.encode ++
    List.replicate (4 * pointers.length) 0 ++ data

/-- Six bytes in two stored blocks of four. -/
def sixBytes : List Byte :=
  smallFile ⟨0xB10BC001, 0, 8, 6, 4, 2⟩ [0x8000000000000000, 0x8000000000000004]
    [1, 2, 3, 4, 5, 6, 0, 0]

/-- One empty block of no bytes. -/
def emptyBlock : List Byte := smallFile ⟨0xB10BC001, 0, 0, 0, 0, 1⟩ [0] []

/-- Nothing is compressed. -/
def noInflate : Inflate := ⟨fun _ _ => [], fun _ _ => Nat.zero_le _⟩

theorem reads_safe_iff_sixBytes :
    ∃ r, create sixBytes = some r ∧ r.Safe noInflate ∧
      r.readAll noInflate [(4, 3), (1, 5)] = .ok [(false, []), (true, [2, 3, 4, 5, 6])] := by
  have accepted : (create sixBytes).any fun r =>
      r.m_header.block_size.toNat = 4 ∧ r.readAll noInflate [(4, 3), (1, 5)] =
        .ok [(false, []), (true, [2, 3, 4, 5, 6])] := by
    decide +kernel
  obtain ⟨r, created, holds⟩ := (Option.any_eq_true ..).mp accepted
  obtain ⟨size, reads⟩ := of_decide_eq_true holds
  exact ⟨r, created, (reads_safe_iff noInflate created).mpr (by rw [size]; decide), reads⟩

/-- A block size of zero is accepted, and the first read divides by it. -/
theorem not_always_safe :
    ¬ ∀ (inflate : Inflate) (file : List Byte) (r : CompressedBlobReader),
      create file = some r → r.Safe inflate := by
  intro safe
  have accepted : (create emptyBlock).any fun r =>
      r.readAll noInflate [(0, 0)] = .error .divideByZero := by
    decide +kernel
  obtain ⟨r, created, fails⟩ := (Option.any_eq_true ..).mp accepted
  obtain ⟨results, run, -⟩ := safe noInflate emptyBlock r created [(0, 0)] (by decide)
  cases run.symm.trans (of_decide_eq_true fails)

end Phocoena.DiscIO.CompressedBlobReader
