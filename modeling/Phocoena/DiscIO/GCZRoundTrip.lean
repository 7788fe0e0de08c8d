import Phocoena.DiscIO.ConvertToGCZ
import Phocoena.DiscIO.CompressedBlob

/-! # The GCZ round trip

The blocks in a converted file are a list of chunks, one after the other. A chunk is found again
through the block table from its place in the list.
-/

namespace Phocoena.DiscIO

/-! ## Flags -/

theorem withoutFlag_eq (offset : Nat) : withoutFlag offset = offset % 2 ^ 63 :=
  Nat.and_two_pow_sub_one_eq_mod offset 63

theorem or_flag {offset : Nat} (lt : offset < 2 ^ 63) :
    offset ||| uncompressed_flag = offset + 2 ^ 63 := by
  have sum := Nat.two_pow_add_eq_or_of_lt lt 1
  rw [Nat.mul_one] at sum
  rw [uncompressed_flag, Nat.or_comm, ← sum, Nat.add_comm]

/-! ## Chunks -/

/-- A chunk holds a block. -/
def Holds (inflate : Inflate) (data : List Byte) (chunk : OutputParameters) : Prop :=
  chunk.data.length ≤ data.length ∧
    if chunk.compressed then inflate.run chunk.data data.length = data else chunk.data = data

/-- The bytes of the chunks. -/
def chunkBytes (chunks : List OutputParameters) : List Byte := chunks.flatMap (·.data)

/-- The entry of the block table for a chunk at a position. -/
def pointer (position : Nat) (chunk : OutputParameters) : Nat :=
  if chunk.compressed then position else position + 2 ^ 63

/-- Each chunk has its entry and holds its block of the disc. -/
def Written (inflate : Inflate) (disc : List Byte) (block_size : Nat) (chunks : List OutputParameters)
    (offsets : List (BitVec 64)) : Prop :=
  ∀ before (chunk : OutputParameters) after, chunks = before ++ chunk :: after →
    offsets[before.length]? = some (.ofNat 64 (pointer (chunkBytes before).length chunk)) ∧
      Holds inflate (inputBlock disc block_size (before.length * block_size)) chunk

theorem length_inputBlock (disc : List Byte) (block_size inpos : Nat) :
    (inputBlock disc block_size inpos).length = block_size := by
  simp only [inputBlock, List.length_append, List.length_take, List.length_drop,
    List.length_replicate]
  omega

theorem chunkBytes_concat (chunks : List OutputParameters) (chunk : OutputParameters) :
    chunkBytes (chunks ++ [chunk]) = chunkBytes chunks ++ chunk.data := by
  simp [chunkBytes]

section
variable {inflate : Inflate} {disc : List Byte} {block_size : Nat}
variable {chunks : List OutputParameters} {offsets : List (BitVec 64)}

theorem Written.concat {chunk : OutputParameters}
    (written : Written inflate disc block_size chunks offsets) (room : chunks.length < offsets.length)
    (holds : Holds inflate (inputBlock disc block_size (chunks.length * block_size)) chunk) :
    Written inflate disc block_size (chunks ++ [chunk])
      (offsets.set chunks.length (.ofNat 64 (pointer (chunkBytes chunks).length chunk))) := by
  intro before other after eq
  rcases List.eq_nil_or_concat after with rfl | ⟨after, last, rfl⟩
  · obtain ⟨rfl, same⟩ := List.append_inj' eq rfl
    cases same
    exact ⟨List.getElem?_set_self room, holds⟩
  · rw [List.concat_eq_append, ← List.cons_append, ← List.append_assoc] at eq
    obtain ⟨split, -⟩ := List.append_inj' eq rfl
    obtain ⟨entry, held⟩ := written before other after split
    refine ⟨?_, held⟩
    rw [List.getElem?_set_ne, entry]
    rw [split, List.length_append, List.length_cons]
    omega

end

/-! ## The output file -/

/-- The file while blocks are written: nothing yet, or a gap and the chunks. -/
structure Filled (header_size : Nat) (data : List Byte) (f : OutFile) : Prop where
  offset : f.m_current_offset = header_size + data.length
  content : f.content = if data = [] then [] else List.replicate header_size 0 ++ data
  small : data = [] ∨ header_size + data.length < 2 ^ 63

theorem Filled.write {header_size : Nat} {data bytes : List Byte} {f : OutFile}
    {fails : Nat → Option Nat} (filled : Filled header_size data f)
    (done : (f.write fails bytes).1 = true) :
    Filled header_size (data ++ bytes) (f.write fails bytes).2 ∧
      (f.write fails bytes).2.writes = f.writes + 1 := by
  unfold OutFile.write at done ⊢
  cases outcome : fails f.writes with
  | some stored =>
      rw [outcome] at done
      cases done
  | none =>
      rw [outcome] at done
      dsimp only at done ⊢
      split at done
      · rename_i fits
        rw [if_pos fits]
        rw [filled.offset] at fits
        refine ⟨⟨?_, ?_, ?_⟩, rfl⟩
        · simp [filled.offset, Nat.add_assoc]
        · dsimp only
          rw [filled.offset, filled.content]
          unfold overwrite
          by_cases none : bytes = []
          · simp [none]
          · by_cases start : data = []
            · simp [none, start]
            · rw [if_neg none, if_neg start, if_neg (by simp [none])]
              simp [List.take_of_length_le]
        · exact .inr (by simpa [Nat.add_assoc] using fits)
      · cases done

/-- Bytes written over others in the file. -/
theorem write_over {before bytes rest : List Byte} {f : OutFile} {fails : Nat → Option Nat}
    (succeeds : fails f.writes = none) (content : f.content = before ++ rest)
    (offset : f.m_current_offset = before.length)
    (fits : before.length + bytes.length < 2 ^ 63) :
    (f.write fails bytes).2 = {
      content := before ++ bytes ++ rest.drop bytes.length
      m_current_offset := before.length + bytes.length
      writes := f.writes + 1 } := by
  unfold OutFile.write
  rw [succeeds, offset]
  dsimp only
  rw [if_pos fits, content]
  unfold overwrite
  by_cases none : bytes = []
  · simp [none]
  · rw [if_neg none]
    simp [List.drop_append]

/-! ## The conversion -/

/-- The conversion after the blocks of `chunks`. -/
structure Converted (inflate : Inflate) (disc : List Byte) (block_size num_blocks : Nat)
    (chunks : List OutputParameters) (c : Conversion) : Prop where
  filled : Filled (32 + (8 + 4) * num_blocks) (chunkBytes chunks) c.outfile
  position : c.position = (chunkBytes chunks).length
  written : Written inflate disc block_size chunks c.offsets
  offsets : c.offsets.length = num_blocks
  hashes : c.hashes.length = num_blocks
  writes : c.outfile.writes = chunks.length

section
variable {inflate : Inflate} {disc : List Byte} {block_size num_blocks : Nat}
variable {chunks : List OutputParameters} {c c' : Conversion}

/-- What is stored for a block holds it. -/
theorem compress_holds (deflate : Deflate inflate) {thread block_number : Nat} {data : List Byte}
    {parameters : OutputParameters}
    (call : compress deflate thread data block_number c = some (parameters, c')) :
    Holds inflate data parameters ∧ parameters.block_number = block_number ∧
      c' = { c with hashes := c.hashes.set block_number (hashAdler32 parameters.data) } := by
  unfold compress at call
  dsimp only at call
  split at call
  · cases call
  · cases call
    split
    · exact ⟨⟨Nat.le_refl _, rfl⟩, rfl, rfl⟩
    · rename_i completed
      rw [not_or] at completed
      refine ⟨⟨deflate.bounded .., ?_⟩, rfl, rfl⟩
      simpa using deflate.undone thread data (by simpa using completed.1)

theorem Converted.output {outside : Outside} {progress_monitor : Nat}
    {chunk : OutputParameters} (converted : Converted inflate disc block_size num_blocks chunks c)
    (more : chunks.length < num_blocks) (number : chunk.block_number = chunks.length)
    (holds : Holds inflate (inputBlock disc block_size (chunks.length * block_size)) chunk)
    (call : output outside progress_monitor chunk c = some c') :
    Converted inflate disc block_size num_blocks (chunks ++ [chunk]) c' := by
  unfold DiscIO.output at call
  dsimp only at call
  split at call
  · cases call
  · rename_i stored
    split at call
    · cases call
    · cases call
      obtain ⟨filled, writes⟩ := converted.filled.write (Bool.eq_true_of_not_eq_false stored)
      have small : c.position < 2 ^ 63 := by
        rw [converted.position]
        rcases converted.filled.small with none | small
        · rw [none]
          exact Nat.two_pow_pos 63
        · omega
      rw [← chunkBytes_concat] at filled
      refine ⟨filled, ?_, ?_, ?_, converted.hashes, ?_⟩
      · have whole : (chunkBytes (chunks ++ [chunk])).length < 2 ^ 64 := by
          rcases filled.small with none | small
          · rw [none]
            exact Nat.two_pow_pos 64
          · omega
        rw [chunkBytes_concat, List.length_append] at whole
        rw [chunkBytes_concat, List.length_append, converted.position, u64_of_lt whole]
      · have entry : (if chunk.compressed = true then c.position
            else c.position ||| uncompressed_flag) =
              pointer (chunkBytes chunks).length chunk := by
          rw [or_flag small, converted.position]
          rfl
        rw [number, entry]
        exact converted.written.concat (by rw [converted.offsets]; exact more) holds
      · rw [List.length_set, converted.offsets]
      · rw [writes, converted.writes, List.length_append]
        rfl

theorem converted_of_convertBlocks {deflate : Deflate inflate} {split : Nat → Nat}
    {outside : Outside} {progress_monitor : Nat} (count : Nat)
    (converted : Converted inflate disc block_size num_blocks chunks c)
    (rest : chunks.length + count = num_blocks)
    (call : convertBlocks deflate split outside disc block_size progress_monitor count
      chunks.length c = some c') :
    ∃ chunks', chunks'.length = num_blocks ∧
      Converted inflate disc block_size num_blocks chunks' c' := by
  induction count generalizing chunks c with
  | zero =>
      cases call
      exact ⟨chunks, rest, converted⟩
  | succ count ih =>
      rw [convertBlocks] at call
      split at call
      · cases call
      · obtain ⟨⟨chunk, c₁⟩, compressed, rest_call⟩ := Option.bind_eq_some_iff.mp call
        dsimp only at rest_call
        obtain ⟨c₂, written, more⟩ := Option.bind_eq_some_iff.mp rest_call
        obtain ⟨holds, number, rfl⟩ := compress_holds deflate compressed
        have hashed : Converted inflate disc block_size num_blocks chunks
            { c with hashes := c.hashes.set chunks.length (hashAdler32 chunk.data) } :=
          ⟨converted.filled, converted.position, converted.written, converted.offsets,
            by rw [List.length_set]; exact converted.hashes, converted.writes⟩
        have next := hashed.output (by omega) number holds written
        refine ih next ?_ ?_
        · rw [List.length_append, List.length_singleton]
          omega
        · rw [List.length_append, List.length_singleton]
          exact more

theorem converted_start :
    Converted inflate disc block_size num_blocks [] {
      outfile := OutFile.seek (32 + (8 + 4) * num_blocks) {}
      offsets := List.replicate num_blocks 0
      hashes := List.replicate num_blocks 0 } where
  filled := ⟨rfl, rfl, .inl rfl⟩
  position := rfl
  written before chunk after eq := by simp at eq
  offsets := List.length_replicate
  hashes := List.length_replicate
  writes := rfl

end

/-! ## The converted file -/

/-- What a reader of the converted file has: its chunks behind tables that lead to them. -/
structure Reads (inflate : Inflate) (disc : List Byte) (block_size : Nat)
    (chunks : List OutputParameters) (tables : List Byte) (r : CompressedBlobReader) : Prop where
  disc_size : r.m_header.disc_size.toNat = disc.length
  block_size_eq : r.m_header.block_size.toNat = block_size
  num_blocks : r.m_header.num_blocks.toNat = chunks.length
  compressed : r.m_header.compressed_data_size.toNat = (chunkBytes chunks).length
  data_offset : r.m_data_offset = tables.length
  file : r.m_file = tables ++ chunkBytes chunks
  zlib_buffer : block_size ≤ r.zlib_buffer_size
  small : tables.length + (chunkBytes chunks).length < 2 ^ 63
  pos : 0 < block_size
  count : chunks.length = (disc.length + block_size - 1) / block_size
  disc_small : disc.length + block_size ≤ 2 ^ 64
  chunk : ∀ before chunk after, chunks = before ++ chunk :: after →
    r.blockPointer before.length = pointer (chunkBytes before).length chunk ∧
      Holds inflate (inputBlock disc block_size (before.length * block_size)) chunk

section
variable {inflate : Inflate} {disc : List Byte} {block_size : Nat} {tables : List Byte}
variable {chunks before after : List OutputParameters} {chunk : OutputParameters}
variable {r : CompressedBlobReader}

theorem chunkBytes_split (before after : List OutputParameters) (chunk : OutputParameters) :
    chunkBytes (before ++ chunk :: after) =
      chunkBytes before ++ chunk.data ++ chunkBytes after := by
  simp [chunkBytes]

theorem pointer_withoutFlag {position : Nat} (lt : position < 2 ^ 63) (chunk : OutputParameters) :
    withoutFlag (pointer position chunk) = position := by
  rw [withoutFlag_eq]
  unfold pointer
  split <;> omega

theorem pointer_testBit {position : Nat} (lt : position < 2 ^ 63) (chunk : OutputParameters) :
    (pointer position chunk).testBit 63 = !chunk.compressed := by
  unfold pointer
  cases chunk.compressed with
  | true => simpa using Nat.testBit_lt_two_pow lt
  | false =>
      simp only [Bool.false_eq_true, ↓reduceIte, Bool.not_false]
      rw [Nat.add_comm, Nat.testBit_two_pow_add_eq, Nat.testBit_lt_two_pow lt]
      rfl

/-- The position after a chunk, which the next entry or the size of the data gives. -/
theorem Reads.next (reads : Reads inflate disc block_size chunks tables r)
    (split : chunks = before ++ chunk :: after) :
    (if before.length + 1 < r.m_header.num_blocks.toNat then
        withoutFlag (r.blockPointer (before.length + 1))
      else r.m_header.compressed_data_size.toNat) =
      (chunkBytes before).length + chunk.data.length := by
  have small := reads.small
  rw [reads.num_blocks, reads.compressed, split, chunkBytes_split]
  cases after with
  | nil =>
      rw [if_neg (by simp)]
      simp [chunkBytes]
  | cons second after =>
      have place : chunks = (before ++ [chunk]) ++ second :: after := by simp [split]
      have entry := (reads.chunk _ _ _ place).1
      rw [List.length_append, List.length_singleton] at entry
      rw [split, chunkBytes_split, List.length_append, List.length_append] at small
      rw [if_pos (by simp), entry, pointer_withoutFlag, chunkBytes_concat, List.length_append]
      rw [chunkBytes_concat, List.length_append]
      omega

theorem Reads.small_before (reads : Reads inflate disc block_size chunks tables r)
    (split : chunks = before ++ chunk :: after) :
    tables.length + (chunkBytes before).length + chunk.data.length < 2 ^ 63 := by
  have small := reads.small
  rw [split, chunkBytes_split, List.length_append, List.length_append] at small
  omega

theorem Reads.compressedSize (reads : Reads inflate disc block_size chunks tables r)
    (split : chunks = before ++ chunk :: after) :
    r.getBlockCompressedSize before.length = chunk.data.length := by
  have small := reads.small_before split
  have next := reads.next split
  have start : withoutFlag (r.blockPointer before.length) = (chunkBytes before).length := by
    rw [(reads.chunk _ _ _ split).1, pointer_withoutFlag (by omega)]
  have inside : before.length < r.m_header.num_blocks.toNat := by
    rw [reads.num_blocks, split]
    simp
  have size : u64 ((chunkBytes before).length + chunk.data.length +
      (2 ^ 64 - (chunkBytes before).length)) = chunk.data.length := by
    unfold u64
    omega
  unfold CompressedBlobReader.getBlockCompressedSize
  dsimp only
  rw [start]
  split_ifs at next ⊢ <;> first | omega | rw [next, size]

/-- A chunk takes no more room than its block, and as much when it is stored. -/
theorem Reads.chunk_length (reads : Reads inflate disc block_size chunks tables r)
    (split : chunks = before ++ chunk :: after) : chunk.data.length ≤ block_size ∧
      (chunk.compressed = false → chunk.data.length = block_size) := by
  obtain ⟨short, same⟩ := (reads.chunk _ _ _ split).2
  rw [length_inputBlock] at short
  refine ⟨short, fun stored => ?_⟩
  rw [stored, if_neg Bool.false_ne_true] at same
  rw [same, length_inputBlock]

theorem split_at {i : Nat} (lt : i < chunks.length) :
    ∃ before chunk after, chunks = before ++ chunk :: after ∧ List.length before = i := by
  refine ⟨chunks.take i, chunks[i], chunks.drop (i + 1), ?_, ?_⟩
  · rw [← List.drop_eq_getElem_cons lt, List.take_append_drop]
  · rw [List.length_take]
    omega

theorem Reads.validateBlockPointers (reads : Reads inflate disc block_size chunks tables r) :
    r.validateBlockPointers = true := by
  have valid : ∀ i ∈ List.range r.m_header.num_blocks.toNat, r.validPointer i = true := by
    intro i mem
    have lt := List.mem_range.mp mem
    rw [reads.num_blocks] at lt
    obtain ⟨before, chunk, after, split, rfl⟩ := split_at lt
    have small := reads.small_before split
    have next := reads.next split
    have whole := reads.compressed
    rw [split, chunkBytes_split, List.length_append, List.length_append] at whole
    have size : u64 ((chunkBytes before).length + chunk.data.length +
        (2 ^ 64 - (chunkBytes before).length)) = chunk.data.length := by
      unfold u64
      omega
    obtain ⟨short, stored⟩ := reads.chunk_length split
    have room := reads.zlib_buffer
    unfold CompressedBlobReader.validPointer
    dsimp only
    rw [next, (reads.chunk _ _ _ split).1, pointer_withoutFlag (by omega),
      pointer_testBit (by omega), size, whole, reads.block_size_eq]
    cases compressed : chunk.compressed with
    | true =>
        simp only [Bool.not_true, Bool.false_and, Bool.not_false, Bool.true_and, Bool.and_true,
          Bool.and_eq_true, Bool.not_eq_true', decide_eq_false_iff_not, Nat.not_lt]
        omega
    | false =>
        have same := stored compressed
        simp only [Bool.not_true, Bool.false_and, Bool.not_false, Bool.true_and, Bool.and_true,
          Bool.and_eq_true, Bool.not_eq_true', decide_eq_false_iff_not, Nat.not_lt, ne_eq,
          Decidable.not_not]
        omega
  unfold CompressedBlobReader.validateBlockPointers
  dsimp only
  rw [List.countP_eq_length.mpr valid, List.length_range, Nat.sub_self]
  rfl

/-- A block of the disc is read from its chunk. -/
theorem Reads.getBlock (reads : Reads inflate disc block_size chunks tables r)
    (split : chunks = before ++ chunk :: after) :
    r.getBlock inflate before.length =
      .ok (true, inputBlock disc block_size (before.length * block_size)) := by
  have small := reads.small_before split
  obtain ⟨entry, holds⟩ := reads.chunk _ _ _ split
  obtain ⟨short, stored⟩ := reads.chunk_length split
  have room := reads.zlib_buffer
  have length := length_inputBlock disc block_size (before.length * block_size)
  have inside : ¬ r.m_header.num_blocks.toNat ≤ before.length := by
    rw [reads.num_blocks, split]
    simp
  have offset : u64 (r.blockPointer before.length + r.m_data_offset) =
      pointer (tables.length + (chunkBytes before).length) chunk := by
    rw [entry, reads.data_offset]
    unfold pointer u64
    split <;> omega
  have input : offsetRead r.m_file (tables.length + (chunkBytes before).length)
      chunk.data.length = some chunk.data := by
    rw [reads.file, split, chunkBytes_split]
    unfold offsetRead
    rw [if_pos]
    · simp [List.drop_append, List.drop_eq_nil_of_le]
    · simp only [List.length_append]
      omega
  unfold CompressedBlobReader.getBlock
  dsimp only
  rw [if_neg inside, reads.compressedSize split, offset, pointer_testBit (by omega),
    pointer_withoutFlag (by omega), reads.block_size_eq]
  unfold CompressedBlobReader.readBlock
  dsimp only
  rw [input, reads.block_size_eq, if_neg (by omega : ¬ r.zlib_buffer_size < chunk.data.length)]
  unfold Holds at holds
  rw [length] at holds
  cases compressed : chunk.compressed with
  | true =>
      rw [compressed, if_pos rfl] at holds
      have compressed' : pointer (tables.length + (chunkBytes before).length) chunk =
          tables.length + (chunkBytes before).length := by
        rw [pointer, compressed, if_pos rfl]
      simp only [Bool.not_true, Bool.false_eq_true, ↓reduceIte, compressed',
        if_neg (by omega : ¬ r.zlib_buffer_size < chunk.data.length), input, holds.2, length,
        decide_true]
  | false =>
      rw [compressed, if_neg Bool.false_ne_true] at holds
      simp only [Bool.not_false, ↓reduceIte, holds.2, length, ne_eq, not_true_eq_false,
        if_neg (by omega : ¬ r.zlib_buffer_size < block_size)]
      rw [List.take_of_length_le (by omega)]

/-- A byte of the disc is that byte of its block. -/
theorem inputBlock_getElem {offset : Nat} (pos : 0 < block_size) (lt : offset < disc.length) :
    (inputBlock disc block_size (offset / block_size * block_size))[offset % block_size]? =
      disc[offset]? := by
  have place : offset / block_size * block_size + offset % block_size = offset :=
    Nat.div_add_mod' ..
  have inside := Nat.mod_lt offset pos
  unfold inputBlock
  rw [List.getElem?_append_left, List.getElem?_take_of_lt, List.getElem?_drop, place]
  · omega
  · simp only [List.length_take, List.length_drop]
    omega

theorem Reads.byteAt (reads : Reads inflate disc block_size chunks tables r) {offset : Nat}
    (lt : offset < disc.length) : byteAt (r.source inflate) block_size offset = disc[offset]? := by
  have pos := reads.pos
  have below : offset / block_size < chunks.length := by
    rw [reads.count, Nat.lt_iff_add_one_le, Nat.le_div_iff_mul_le pos, Nat.succ_mul]
    have := Nat.div_mul_le_self offset block_size
    omega
  obtain ⟨before, chunk, after, split, index⟩ := split_at below
  have last : SectorReader.endBlock (r.source inflate) block_size = chunks.length := by
    have small := reads.disc_small
    unfold SectorReader.endBlock CompressedBlobReader.source
    dsimp only
    rw [reads.disc_size, u64_of_lt (by omega), reads.count]
  have call : (r.source inflate).getBlock (offset / block_size) =
      .ok (true, inputBlock disc block_size (offset / block_size * block_size)) := by
    rw [← index]
    exact reads.getBlock split
  unfold DiscIO.byteAt uncached
  rw [last, if_neg (by omega), call]
  exact inputBlock_getElem pos lt

theorem mapM_range'_some {α : Type} {f : Nat → Option α} {as : List α} {first count : Nat}
    (length : as.length = count) (each : ∀ i, i < count → f (first + i) = as[i]?) :
    (List.range' first count).mapM f = some as := by
  induction count generalizing first as with
  | zero =>
      rw [List.length_eq_zero_iff.mp length]
      rfl
  | succ count ih =>
      cases as with
      | nil => cases length
      | cons a rest =>
          have head := each 0 (Nat.succ_pos count)
          have tail := @ih rest (first + 1) (Nat.succ.inj length) fun i lt => by
            have := each (i + 1) (Nat.succ_lt_succ lt)
            rwa [List.getElem?_cons_succ, ← Nat.add_assoc, Nat.add_right_comm] at this
          rw [Nat.add_zero, List.getElem?_cons_zero] at head
          rw [List.range'_succ, List.mapM_cons, head, tail]
          rfl

/-- Reading inside of the disc gives its bytes. -/
theorem Reads.plainRead (reads : Reads inflate disc block_size chunks tables r) {offset size : Nat}
    (inside : offset + size ≤ disc.length) :
    plainRead (r.source inflate) block_size offset size =
      some ((disc.drop offset).take size) := by
  have small := reads.disc_small
  have pos := reads.pos
  have fits : ¬ (r.source inflate).dataSize < u64 (offset + size) := by
    rw [u64_of_lt (by omega), CompressedBlobReader.source]
    dsimp only
    rw [reads.disc_size]
    omega
  unfold DiscIO.plainRead
  rw [if_neg fits]
  refine mapM_range'_some ?_ fun i lt => ?_
  · rw [List.length_take, List.length_drop]
    omega
  · rw [reads.byteAt (by omega), List.getElem?_take_of_lt lt, List.getElem?_drop]

/-- Any reads inside of the disc give its bytes. -/
theorem Reads.readAll (reads : Reads inflate disc block_size chunks tables r) {file : List Byte}
    (created : CompressedBlobReader.Created file r) (signed : block_size < 2 ^ 31)
    (ranges : List (Nat × Nat)) (inside : ∀ range ∈ ranges, range.1 + range.2 ≤ disc.length) :
    r.readAll inflate ranges =
      .ok (ranges.map fun range => (true, (disc.drop range.1).take range.2)) := by
  have small := reads.disc_small
  have pos := reads.pos
  have size := reads.block_size_eq
  have sound : Sound (r.source inflate) r.m_header.block_size.toNat :=
    CompressedBlobReader.sound_source created (by omega) (by omega)
  have cached := CompressedBlobReader.cached_sectors created (by omega) (r.source inflate)
  obtain ⟨results, run, gives⟩ := cached.readAll sound ranges fun range mem => by
    have := inside range mem
    omega
  rw [size] at gives
  have same : results = ranges.map fun range => (true, (disc.drop range.1).take range.2) := by
    clear run
    induction gives with
    | nil => rfl
    | @cons range result _ _ given _ ih =>
        rw [reads.plainRead (inside range List.mem_cons_self)] at given
        rw [List.map_cons, ih fun range mem => inside range (List.mem_cons_of_mem _ mem)]
        exact congrArg (· :: _) given
  rw [CompressedBlobReader.readAll, run, same]

end

/-- Behind a header and tables that fit it, the reader has what they say. -/
theorem create_of_tables {header : CompressedBlobHeader} {offsets : List (BitVec 64)}
    {hashes : List (BitVec 32)} {data : List Byte}
    (magic : header.magic_cookie.toNat = GCZ_MAGIC)
    (offsets_length : offsets.length = header.num_blocks.toNat)
    (hashes_length : hashes.length = header.num_blocks.toNat) (pos : 0 < header.num_blocks.toNat)
    (data_size : header.compressed_data_size.toNat = data.length)
    (small : 32 + header.num_blocks.toNat * 8 + header.num_blocks.toNat * 4 + data.length < 2 ^ 64) :
    let file := CompressedBlobHeader.codec.encode header ++ offsets.flatMap Codec.le64.encode ++
      hashes.flatMap Codec.le32.encode ++ data
    ∃ r : CompressedBlobReader, r.m_header = header ∧ r.m_file = file ∧
      r.m_data_offset = 32 + header.num_blocks.toNat * 8 + header.num_blocks.toNat * 4 ∧
      r.zlib_buffer_size = u32 (header.block_size.toNat + 64) ∧
      (∀ i, r.blockPointer i = (offsets.getD i 0).toNat) ∧
      (r.validateBlockPointers = true → CompressedBlobReader.create file = some r) := by
  intro file
  have sizes : file.length =
      32 + header.num_blocks.toNat * 8 + header.num_blocks.toNat * 4 + data.length := by
    simp only [file, List.length_append, Codec.length_flatMap_encode, Codec.length_encode,
      hashes_length, offsets_length]
    rfl
  have decoded : CompressedBlobHeader.codec.decode file =
      some (header, offsets.flatMap Codec.le64.encode ++ (hashes.flatMap Codec.le32.encode ++
        data)) := by
    simp only [file, List.append_assoc, Codec.decode_encode]
  have pointers := Codec.decodeArray_encode Codec.le64 (⟨offsets.toArray, offsets_length⟩ :
    Vector (BitVec 64) header.num_blocks.toNat) (hashes.flatMap Codec.le32.encode ++ data)
  have sums := Codec.decodeArray_encode Codec.le32 (⟨hashes.toArray, hashes_length⟩ :
    Vector (BitVec 32) header.num_blocks.toNat) data
  refine ⟨{
    m_header := header
    m_block_pointers := ⟨offsets.toArray, offsets_length⟩
    m_hashes := ⟨hashes.toArray, hashes_length⟩
    m_data_offset := 32 + header.num_blocks.toNat * 8 + header.num_blocks.toNat * 4
    m_file := file
    zlib_buffer_size := u32 (header.block_size.toNat + 64)
    sectors := SectorReader.setSectorSize header.block_size.toInt {} },
    rfl, rfl, rfl, rfl, fun _ => rfl, fun valid => ?_⟩
  have recognized : CompressedBlobReader.isGCZBlob file = true := by
    simp [CompressedBlobReader.isGCZBlob, decoded, magic]
  have inside : ¬ file.length < u64 (32 + header.num_blocks.toNat * 8 +
      header.num_blocks.toNat * 4 + header.compressed_data_size.toNat) := by
    rw [data_size, u64_of_lt small, sizes]
    exact Nat.lt_irrefl _
  have tables : ¬ file.length < 32 + header.num_blocks.toNat * 8 + header.num_blocks.toNat * 4 := by
    rw [sizes]
    omega
  unfold CompressedBlobReader.create CompressedBlobReader.initializeReader
  rw [if_pos recognized, decoded]
  simp only [bind, Option.bind_some, ne_eq, magic, not_true_eq_false, ↓reduceIte, if_neg tables,
    if_neg inside, if_neg (Nat.ne_of_gt pos)]
  rw [show (Codec.le64.array header.num_blocks.toNat).decode
      (offsets.flatMap Codec.le64.encode ++ (hashes.flatMap Codec.le32.encode ++ data)) = _
    from pointers, Option.bind_some]
  dsimp only
  rw [show (Codec.le32.array header.num_blocks.toNat).decode
      (hashes.flatMap Codec.le32.encode ++ data) = _ from sums, Option.bind_some]
  exact if_pos valid

theorem numBlocks_eq {disc_size block_size : Nat} (pos : 0 < block_size)
    (signed : block_size < 2 ^ 31) (fits : (disc_size + block_size - 1) / block_size < 2 ^ 32) :
    numBlocks disc_size block_size = (disc_size + block_size - 1) / block_size ∧
      disc_size + block_size ≤ 2 ^ 64 := by
  have bound := (Nat.div_lt_iff_lt_mul pos).mp fits
  have most : 2 ^ 32 * block_size ≤ 2 ^ 32 * 2 ^ 31 := Nat.mul_le_mul_left _ (Nat.le_of_lt signed)
  have same : disc_size + (block_size - 1) = disc_size + block_size - 1 := by omega
  refine ⟨?_, by omega⟩
  unfold numBlocks
  rw [same, u64_of_lt (by omega)]
  exact Nat.mod_eq_of_lt fits

/-- The tables written over the gap before the chunks. -/
theorem write_tables {fails : Nat → Option Nat} {header sums offsets data : List Byte} {f : OutFile}
    {num_blocks : Nat} (filled : Filled (32 + (8 + 4) * num_blocks) data f)
    (few : num_blocks < 2 ^ 32) (header_length : header.length = 32)
    (offsets_length : offsets.length = num_blocks * 8) (sums_length : sums.length = num_blocks * 4)
    (succeed : ∀ i, i < 3 → fails (f.writes + i) = none) :
    (((((f.seek 0).write fails header).2.write fails offsets).2.write fails sums).2).content =
      header ++ offsets ++ sums ++ data := by
  have rest : f.content.drop (32 + num_blocks * 8 + num_blocks * 4) = data := by
    rw [filled.content]
    split
    · rename_i none
      rw [none, List.drop_nil]
    · rw [List.drop_append, List.drop_replicate, List.length_replicate]
      rw [show 32 + (8 + 4) * num_blocks - (32 + num_blocks * 8 + num_blocks * 4) = 0 by omega,
        show 32 + num_blocks * 8 + num_blocks * 4 - (32 + (8 + 4) * num_blocks) = 0 by omega]
      rfl
  have first : ((f.seek 0).write fails header).2 =
      ⟨header ++ f.content.drop header.length, header.length, f.writes + 1⟩ := by
    have raw := @write_over [] header f.content (f.seek 0) fails (succeed 0 (by decide)) rfl rfl
      (by rw [header_length]; decide)
    rwa [List.nil_append, List.length_nil, Nat.zero_add] at raw
  have second : ((OutFile.mk (header ++ f.content.drop header.length) header.length
      (f.writes + 1)).write fails offsets).2 =
      ⟨header ++ offsets ++ (f.content.drop header.length).drop offsets.length,
        header.length + offsets.length, f.writes + 2⟩ :=
    @write_over header offsets (f.content.drop header.length) ⟨_, header.length, f.writes + 1⟩ fails
      (succeed 1 (by decide)) rfl rfl (by omega)
  have third := @write_over (header ++ offsets) sums
    ((f.content.drop header.length).drop offsets.length)
    ⟨header ++ offsets ++ (f.content.drop header.length).drop offsets.length,
      header.length + offsets.length, f.writes + 2⟩ fails
    (succeed 2 (by decide)) rfl (List.length_append ..).symm (by rw [List.length_append]; omega)
  rw [first, second, third]
  dsimp only
  rw [List.drop_drop, List.drop_drop, header_length, offsets_length, sums_length]
  rw [show 32 + (num_blocks * 8 + num_blocks * 4) = 32 + num_blocks * 8 + num_blocks * 4 by omega,
    rest]

/-- When the three writes of the header and the tables succeed, a conversion that returns true left a
file that is accepted, and any reads inside of the disc give its bytes. -/
theorem converted_reads {inflate : Inflate} (deflate : Deflate inflate) (split : Nat → Nat)
    (outside : Outside) {disc : List Byte} (sub_type : BitVec 32) {block_size : Nat}
    (some_disc : 0 < disc.length) (pos : 0 < block_size) (signed : block_size < 2 ^ 31)
    (fits : (disc.length + block_size - 1) / block_size < 2 ^ 32) {f : OutFile}
    (converted : convertToGCZ deflate split outside disc sub_type block_size = some f)
    (tables : ∀ i, i < 3 → outside.fails (numBlocks disc.length block_size + i) = none) :
    ∃ r, CompressedBlobReader.create f.content = some r ∧
      ∀ ranges : List (Nat × Nat), (∀ range ∈ ranges, range.1 + range.2 ≤ disc.length) →
        r.readAll inflate ranges =
          .ok (ranges.map fun range => (true, (disc.drop range.1).take range.2)) := by
  obtain ⟨count, disc_small⟩ := numBlocks_eq pos signed fits
  unfold convertToGCZ at converted
  obtain ⟨c, blocks, done⟩ := Option.bind_eq_some_iff.mp converted
  dsimp only at blocks done
  clear converted
  have some_block : 0 < numBlocks disc.length block_size := by
    rw [count]
    exact Nat.div_pos (by omega) pos
  have few : numBlocks disc.length block_size < 2 ^ 32 := by rw [count]; exact fits
  generalize numBlocks disc.length block_size = num_blocks at count blocks tables some_block few done
  obtain ⟨chunks, length, after⟩ := converted_of_convertBlocks num_blocks
    (@converted_start inflate disc block_size num_blocks) (Nat.zero_add _) blocks
  have data_small : 32 + (8 + 4) * num_blocks + (chunkBytes chunks).length < 2 ^ 63 := by
    rcases after.filled.small with none | small
    · rw [none, List.length_nil]
      omega
    · exact small
  have header_num : (BitVec.ofNat 32 num_blocks).toNat = num_blocks := Nat.mod_eq_of_lt few
  have position : (BitVec.ofNat 64 c.position).toNat = (chunkBytes chunks).length := by
    rw [BitVec.toNat_ofNat, after.position]
    exact Nat.mod_eq_of_lt (by omega)
  let header : CompressedBlobHeader := ⟨.ofNat 32 GCZ_MAGIC, sub_type, .ofNat 64 c.position,
    .ofNat 64 disc.length, .ofNat 32 block_size, .ofNat 32 num_blocks⟩
  have content : f.content = CompressedBlobHeader.codec.encode header ++
      c.offsets.flatMap Codec.le64.encode ++ c.hashes.flatMap Codec.le32.encode ++
      chunkBytes chunks := by
    rw [← Option.some.inj done]
    refine write_tables after.filled few (CompressedBlobHeader.codec.length_encode header) ?_ ?_ ?_
    · rw [Codec.length_flatMap_encode, after.offsets]
      rfl
    · rw [Codec.length_flatMap_encode, after.hashes]
      rfl
    · rw [after.writes, length]
      exact tables
  obtain ⟨r, header_eq, file, data_offset, zlib_buffer, pointers, create⟩ := @create_of_tables
    header c.offsets c.hashes (chunkBytes chunks) rfl (after.offsets.trans header_num.symm)
    (after.hashes.trans header_num.symm) (by rw [header_num]; exact some_block) position
    (by rw [header_num]; omega)
  rw [← content] at file create
  have block_size_eq : r.m_header.block_size.toNat = block_size := by
    rw [header_eq]
    exact Nat.mod_eq_of_lt (by omega)
  have num_blocks_eq : r.m_header.num_blocks.toNat = num_blocks := by
    rw [header_eq]
    exact header_num
  have tables_length : (CompressedBlobHeader.codec.encode header ++
      c.offsets.flatMap Codec.le64.encode ++ c.hashes.flatMap Codec.le32.encode).length =
      32 + num_blocks * 8 + num_blocks * 4 := by
    simp only [List.length_append, Codec.length_flatMap_encode, Codec.length_encode, after.offsets,
      after.hashes]
    rfl
  have reads : Reads inflate disc block_size chunks (CompressedBlobHeader.codec.encode header ++
      c.offsets.flatMap Codec.le64.encode ++ c.hashes.flatMap Codec.le32.encode) r := by
    refine ⟨?_, block_size_eq, num_blocks_eq.trans length.symm, ?_, ?_, file.trans content, ?_,
      ?_, pos, length.trans count, disc_small, fun before chunk after_chunk place => ?_⟩
    · rw [header_eq]
      exact Nat.mod_eq_of_lt (by omega)
    · rw [header_eq]
      exact position
    · rw [data_offset, tables_length, header_num]
    · rw [zlib_buffer, ← header_eq, block_size_eq, u32, Nat.mod_eq_of_lt (by omega)]
      omega
    · rw [tables_length]
      omega
    · obtain ⟨entry, holds⟩ := after.written before chunk after_chunk place
      refine ⟨?_, holds⟩
      have below : pointer (chunkBytes before).length chunk < 2 ^ 64 := by
        rw [place, chunkBytes_split, List.length_append, List.length_append] at data_small
        unfold pointer
        split <;> omega
      rw [pointers, List.getD_eq_getElem?_getD, entry, Option.getD_some, BitVec.toNat_ofNat,
        Nat.mod_eq_of_lt below]
  have accepted := create reads.validateBlockPointers
  exact ⟨r, accepted, fun ranges inside =>
    reads.readAll (CompressedBlobReader.created_of_create accepted) signed ranges inside⟩

/-- Blocks of a few bytes fill the room for the output before the stream ends. -/
def shortBlocks : Deflate CompressedBlobReader.noInflate where
  run _ data := ⟨true, false, data⟩
  bounded _ _ := Nat.le_refl _
  undone _ _ ended := by cases ended

theorem converted_reads_sixBytes :
    ∃ f r, convertToGCZ shortBlocks id ⟨fun _ => true, fun _ => none, fun _ => true⟩
        [1, 2, 3, 4, 5, 6] 0 4 = some f ∧
      CompressedBlobReader.create f.content = some r ∧
      r.readAll CompressedBlobReader.noInflate [(1, 5)] = .ok [(true, [2, 3, 4, 5, 6])] := by
  have converts : (convertToGCZ shortBlocks id ⟨fun _ => true, fun _ => none, fun _ => true⟩
      [1, 2, 3, 4, 5, 6] 0 4).isSome := by
    decide +kernel
  obtain ⟨f, converted⟩ := Option.isSome_iff_exists.mp converts
  obtain ⟨r, accepted, reads⟩ := converted_reads shortBlocks id _ 0 (by decide) (by decide)
    (by decide) (by decide) converted fun _ _ => rfl
  exact ⟨f, r, converted, accepted, reads [(1, 5)] (by decide)⟩

/-- When the write of the header fails, the conversion still returns true, and the file is not
accepted. -/
theorem converted_not_always_accepted :
    ¬ ∀ (inflate : Inflate) (deflate : Deflate inflate) (split : Nat → Nat) (outside : Outside)
      (disc : List Byte) (sub_type : BitVec 32) (block_size : Nat) (f : OutFile),
      0 < disc.length → 0 < block_size → block_size < 2 ^ 31 →
      (disc.length + block_size - 1) / block_size < 2 ^ 32 →
      convertToGCZ deflate split outside disc sub_type block_size = some f →
      ∃ r, CompressedBlobReader.create f.content = some r ∧
        ∀ ranges : List (Nat × Nat), (∀ range ∈ ranges, range.1 + range.2 ≤ disc.length) →
          r.readAll inflate ranges =
            .ok (ranges.map fun range => (true, (disc.drop range.1).take range.2)) := by
  intro always
  have fails : (convertToGCZ shortBlocks id
      ⟨fun _ => true, fun n => if n = 1 then some 0 else none, fun _ => true⟩ [1] 0 1).any
        fun f => (CompressedBlobReader.create f.content).isNone := by
    decide +kernel
  obtain ⟨f, converted, rejected⟩ := (Option.any_eq_true ..).mp fails
  obtain ⟨r, accepted, -⟩ := always _ shortBlocks id _ [1] 0 1 f (by decide) (by decide) (by decide)
    (by decide) converted
  rw [accepted] at rejected
  cases rejected

end Phocoena.DiscIO
