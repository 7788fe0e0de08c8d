import Phocoena.DiscIO.SectorReader
import Phocoena.Lib.Fallible
import Mathlib.Data.List.Basic

/-! # Reads are those of the blocks

With chunks of one block, a line of the cache holds nothing or the block that reading it anew would
give, so that what was read before never shows.
-/

namespace Phocoena.DiscIO

open SectorReader

theorem forall_mem_modify {α : Type} {P : α → Prop} {f : α → α} {i : Nat} {l : List α}
    (all : ∀ a ∈ l, P a) (changed : ∀ a, l[i]? = some a → P (f a)) : ∀ a ∈ l.modify i f, P a := by
  intro a mem
  obtain ⟨j, at_j⟩ := List.mem_iff_getElem?.mp mem
  rw [List.getElem?_modify] at at_j
  split at at_j
  · rename_i same
    obtain ⟨b, at_i, rfl⟩ := Option.map_eq_some_iff.mp at_j
    exact changed b (same ▸ at_i)
  · obtain ⟨b, at_j', rfl⟩ := Option.map_eq_some_iff.mp at_j
    exact all _ (List.mem_of_getElem? at_j')

theorem storeAt_eq {position : Nat} {bytes buffer : List Byte}
    (fits : position + bytes.length ≤ buffer.length) :
    storeAt position bytes buffer =
      .ok (buffer.take position ++ bytes ++ buffer.drop (position + bytes.length)) :=
  if_pos fits

theorem storeAt_zero {bytes buffer : List Byte} (fits : bytes.length ≤ buffer.length) :
    ∃ buffer', storeAt 0 bytes buffer = .ok buffer' ∧ buffer'.length = buffer.length ∧
      (bytes.length = buffer.length → buffer' = bytes) := by
  refine ⟨_, storeAt_eq (by omega), ?_, fun all => ?_⟩
  · simp
    omega
  · simp [all]

/-- Blocks are read without a fault, whole when at all, and only up to a 32-bit number. -/
structure Sound (source : BlockSource) (block_size : Nat) : Prop where
  pos : 0 < block_size
  small : block_size < 2 ^ 31
  answers : ∀ block, ∃ read bytes, source.getBlock block = .ok (read, bytes) ∧
    bytes.length ≤ block_size ∧ (read = true → bytes.length = block_size ∧ block < 2 ^ 32)

/-- The bytes of a block as it is read without a cache. -/
def uncached (source : BlockSource) (block_size block : Nat) : Option (List Byte) :=
  if endBlock source block_size ≠ 0 ∧ endBlock source block_size = block then none
  else
    match source.getBlock block with
    | .ok (true, bytes) => some bytes
    | _ => none

/-- The line holds nothing or a block. -/
def Line (source : BlockSource) (block_size : Nat) (c : Cache) : Prop :=
  c.data.length = block_size ∧ (c.num_blocks = 0 ∨
    c.num_blocks = 1 ∧ uncached source block_size c.block_idx = some c.data)

structure Cached (source : BlockSource) (block_size : Nat) (s : SectorReader) : Prop where
  block_size_eq : s.m_block_size = block_size
  chunk : s.m_chunk_blocks = 1
  count : s.m_cache.length = CACHE_LINES
  lines : ∀ c ∈ s.m_cache, Line source block_size c

section
variable {source : BlockSource} {block_size block : Nat} {s : SectorReader}

theorem uncached_spec (sound : Sound source block_size) {bytes : List Byte}
    (found : uncached source block_size block = some bytes) :
    source.getBlock block = .ok (true, bytes) ∧ bytes.length = block_size ∧ block < 2 ^ 32 := by
  obtain ⟨read, bytes', call, -, whole⟩ := sound.answers block
  unfold uncached at found
  split at found
  · cases found
  · rw [call] at found
    cases read with
    | false => cases found
    | true =>
        cases found
        exact ⟨call, whole rfl⟩

/-! ## Chunks -/

theorem u64_of_lt {n : Nat} (lt : n < 2 ^ 64) : u64 n = n := Nat.mod_eq_of_lt lt

theorem u64_lt (n : Nat) : u64 n < 2 ^ 64 := Nat.mod_lt _ (Nat.two_pow_pos 64)

theorem endBlock_lt (source : BlockSource) (block_size : Nat) :
    endBlock source block_size < 2 ^ 64 := by
  unfold endBlock
  exact Nat.lt_of_le_of_lt (Nat.div_le_self _ _) (u64_lt _)

theorem clampedCount_one {end_block : Nat} (lt : block < 2 ^ 64) (end_lt : end_block < 2 ^ 64) :
    clampedCount 1 end_block block = if end_block ≠ 0 ∧ end_block = block then 0 else 1 := by
  unfold clampedCount u32 u64
  split <;> split <;> omega

/-- One block is read into a line, if there is one. -/
theorem readChunk_some (sound : Sound source block_size) (size : s.m_block_size = block_size)
    (chunk : s.m_chunk_blocks = 1) (lt : block < 2 ^ 64) {buffer bytes : List Byte}
    (room : buffer.length = block_size) (found : uncached source block_size block = some bytes) :
    s.readChunk source buffer block = .ok (1, bytes) := by
  have pos := sound.pos
  obtain ⟨call, whole, -⟩ := uncached_spec sound found
  have number : u64 (block * 1) = block := by rw [Nat.mul_one, u64_of_lt lt]
  have count := clampedCount_one lt (endBlock_lt source block_size)
  have inside : ¬ (endBlock source block_size ≠ 0 ∧ endBlock source block_size = block) := by
    intro last
    rw [uncached, if_pos last] at found
    cases found
  rw [if_neg inside] at count
  have stored : storeAt 0 bytes buffer = .ok bytes := by
    rw [storeAt_eq (by omega)]
    simp [whole, room]
  have nothing : storeAt (1 * block_size) (List.replicate ((1 - 1) * block_size) 0) bytes =
      .ok bytes := by
    rw [storeAt_eq (by simp [whole])]
    simp
  unfold SectorReader.readChunk
  rw [size, if_neg (Nat.ne_of_gt pos), chunk, number]
  simp only [count, readMultipleAlignedBlocks, call, stored, bind, Except.bind, ↓reduceIte, nothing]

/-- When there is none, nothing was read, and the line keeps its size. -/
theorem readChunk_none (sound : Sound source block_size) (size : s.m_block_size = block_size)
    (chunk : s.m_chunk_blocks = 1) (lt : block < 2 ^ 64) {buffer : List Byte}
    (room : buffer.length = block_size) (missing : uncached source block_size block = none) :
    ∃ buffer', s.readChunk source buffer block = .ok (0, buffer') ∧
      buffer'.length = block_size := by
  have pos := sound.pos
  have number : u64 (block * 1) = block := by rw [Nat.mul_one, u64_of_lt lt]
  have count := clampedCount_one lt (endBlock_lt source block_size)
  unfold SectorReader.readChunk
  rw [size, if_neg (Nat.ne_of_gt pos), chunk, number]
  by_cases last : endBlock source block_size ≠ 0 ∧ endBlock source block_size = block
  · rw [if_pos last] at count
    obtain ⟨zeros, cleared, length_zeros, -⟩ :=
      @storeAt_zero (List.replicate block_size 0) buffer (by simp [room])
    simp only [count, readMultipleAlignedBlocks, bind, Except.bind, ↓reduceIte, Nat.sub_zero,
      Nat.one_mul, Nat.zero_mul, cleared]
    exact ⟨zeros, rfl, length_zeros.trans room⟩
  · rw [if_neg last] at count
    obtain ⟨read, bytes, call, short, -⟩ := sound.answers block
    obtain ⟨buffer₁, stored, length₁, -⟩ := storeAt_zero (short.trans room.ge)
    obtain ⟨buffer₂, again, length₂, -⟩ := storeAt_zero (short.trans (length₁.trans room).ge)
    obtain ⟨zeros, cleared, length_zeros, -⟩ :=
      @storeAt_zero (List.replicate ((0 + 1) * block_size) 0) buffer₂ (by simp [length₂, length₁, room])
    rw [uncached, if_neg last, call] at missing
    cases read with
    | true => cases missing
    | false =>
        simp only [count, readMultipleAlignedBlocks, call, stored, bind, Except.bind,
          Bool.false_eq_true, ↓reduceIte]
        split
        · simp only [probe, call, again, cleared, bind, Except.bind, Bool.false_eq_true,
            ↓reduceIte]
          exact ⟨zeros, rfl, by omega⟩
        · exact ⟨buffer₁, rfl, length₁.trans room⟩

/-! ## Cache lines -/

theorem Line.same {c c' : Cache} (line : Line source block_size c) (data : c'.data = c.data)
    (index : c'.block_idx = c.block_idx) (count : c'.num_blocks = c.num_blocks) :
    Line source block_size c' := by
  unfold Line
  rw [data, index, count]
  exact line

/-- The search for the oldest line does not change what the lines hold. -/
theorem compareLine_foldl (l : List Nat) {lines : List Cache} {oldest : Nat}
    (inside : ∀ i ∈ l, i < lines.length) (lt : oldest < lines.length)
    (all : ∀ c ∈ lines, Line source block_size c) :
    (l.foldl compareLine (lines, oldest)).1.length = lines.length ∧
      (l.foldl compareLine (lines, oldest)).2 < lines.length ∧
      ∀ c ∈ (l.foldl compareLine (lines, oldest)).1, Line source block_size c := by
  induction l generalizing lines oldest with
  | nil => exact ⟨rfl, lt, all⟩
  | cons i rest ih =>
      have shifted : ∀ j, ∀ c ∈ lines.modify j Cache.shiftLRU, Line source block_size c :=
        fun j => forall_mem_modify all fun c at_j =>
          (all c (List.mem_of_getElem? at_j)).same rfl rfl rfl
      rw [List.foldl_cons, compareLine]
      split
      · obtain ⟨length, last, still⟩ := @ih (lines.modify oldest Cache.shiftLRU) i
          (fun j mem => by simpa using inside j (List.mem_cons_of_mem _ mem))
          (by simpa using inside i List.mem_cons_self) (shifted oldest)
        exact ⟨length.trans (List.length_modify ..), by simpa using last, still⟩
      · obtain ⟨length, last, still⟩ := @ih (lines.modify i Cache.shiftLRU) oldest
          (fun j mem => by simpa using inside j (List.mem_cons_of_mem _ mem))
          (by simpa using lt) (shifted i)
        exact ⟨length.trans (List.length_modify ..), by simpa using last, still⟩

theorem Cached.getEmptyCacheLine (cached : Cached source block_size s) :
    Cached source block_size s.getEmptyCacheLine.2 ∧ s.getEmptyCacheLine.1 < CACHE_LINES ∧
      (s.getEmptyCacheLine.2.m_cache.getD s.getEmptyCacheLine.1 {}).num_blocks = 0 := by
  have count := cached.count
  obtain ⟨length, lt, lines⟩ := compareLine_foldl (List.range' 1 (s.m_cache.length - 1))
    (fun i mem => by have := List.mem_range'_1.mp mem; omega)
    (by rw [count]; decide : 0 < s.m_cache.length) cached.lines
  refine ⟨⟨cached.block_size_eq, cached.chunk, ?_, ?_⟩, count ▸ lt, ?_⟩
  · exact (List.length_modify ..).trans (length.trans count)
  · exact forall_mem_modify lines fun c at_i =>
      ⟨(lines c (List.mem_of_getElem? at_i)).1, .inl rfl⟩
  · unfold SectorReader.getEmptyCacheLine
    simp [List.getD_eq_getElem?_getD, length, lt, Cache.reset]

/-- A line that contains a block holds it. -/
theorem Line.of_contains {c : Cache} (line : Line source block_size c)
    (contains : c.contains block = true) :
    c.block_idx = block ∧ c.num_blocks = 1 ∧ uncached source block_size block = some c.data := by
  simp only [Cache.contains, Bool.and_eq_true, decide_eq_true_eq] at contains
  rcases line.2 with none | ⟨one, holds⟩
  · omega
  · obtain rfl : c.block_idx = block := by omega
    exact ⟨rfl, one, holds⟩

/-- A line is found for a block if and only if the block can be read, and it holds the block. -/
theorem Cached.getCacheLine (sound : Sound source block_size)
    (cached : Cached source block_size s) (lt : block < 2 ^ 64) :
    ∃ found s', s.getCacheLine source block = .ok (found, s') ∧ Cached source block_size s' ∧
      match uncached source block_size block with
      | none => found = none
      | some bytes => ∃ line c, found = some line ∧ s'.m_cache.getD line {} = c ∧
          c.block_idx = block ∧ c.num_blocks = 1 ∧ c.data = bytes := by
  unfold SectorReader.getCacheLine SectorReader.findCacheLine
  cases search : s.m_cache.findIdx? (·.contains block) with
  | some line =>
      obtain ⟨inside, contains, -⟩ := List.findIdx?_eq_some_iff_getElem.mp search
      obtain ⟨index, one, holds⟩ :=
        (cached.lines _ (List.getElem_mem inside)).of_contains contains
      refine ⟨some line, _, rfl, ⟨cached.block_size_eq, cached.chunk, ?_, ?_⟩, ?_⟩
      · exact (List.length_modify ..).trans cached.count
      · exact forall_mem_modify cached.lines fun c at_i =>
          (cached.lines c (List.mem_of_getElem? at_i)).same rfl rfl rfl
      · rw [holds]
        refine ⟨line, _, rfl, rfl, ?_⟩
        simp [List.getD_eq_getElem?_getD, inside, Cache.markUsed, index, one]
  | none =>
      obtain ⟨cached₁, line_lt, empty⟩ := cached.getEmptyCacheLine
      dsimp only
      generalize s.getEmptyCacheLine = taken at cached₁ line_lt empty ⊢
      obtain ⟨line, s₁⟩ := taken
      dsimp only at cached₁ line_lt empty ⊢
      have inside : line < s₁.m_cache.length := by rw [cached₁.count]; exact line_lt
      obtain ⟨c, at_line⟩ : ∃ c, s₁.m_cache[line]? = some c := ⟨_, List.getElem?_eq_getElem inside⟩
      have old := cached₁.lines c (List.mem_of_getElem? at_line)
      rw [List.getD_eq_getElem?_getD, at_line, Option.getD_some] at empty
      rw [cached₁.chunk, Nat.div_one, List.getD_eq_getElem?_getD, at_line, Option.getD_some]
      cases known : uncached source block_size block with
      | none =>
          obtain ⟨data, call, length⟩ :=
            readChunk_none sound cached₁.block_size_eq cached₁.chunk lt old.1 known
          rw [call]
          refine ⟨none, _, rfl, ⟨cached₁.block_size_eq, rfl, ?_, ?_⟩, rfl⟩
          · exact (List.length_modify ..).trans cached₁.count
          · refine forall_mem_modify cached₁.lines fun c' at_line' => ?_
            cases at_line.symm.trans at_line'
            exact ⟨length, .inl empty⟩
      | some bytes =>
          have filled : ∀ c' : Cache, Cache.contains (Cache.fill block 1 c') block = true := by
            simp [Cache.contains, Cache.fill, Cache.markUsed]
          rw [readChunk_some sound cached₁.block_size_eq cached₁.chunk lt old.1 known]
          have length := (uncached_spec sound known).2.1
          simp only [bind, Except.bind, Nat.one_ne_zero, ↓reduceIte, Nat.mul_one,
            List.getD_eq_getElem?_getD, List.getElem?_modify_eq, at_line, Option.map_eq_map,
            Option.map_some, Option.getD_some, filled]
          refine ⟨some line, _, rfl, ⟨cached₁.block_size_eq, rfl, ?_, ?_⟩, line, _, rfl, rfl, ?_⟩
          · exact (List.length_modify ..).trans ((List.length_modify ..).trans cached₁.count)
          · refine forall_mem_modify (forall_mem_modify cached₁.lines fun c' at_line' => ?_)
              fun c' at_line' => ?_
            · cases at_line.symm.trans at_line'
              exact ⟨length, .inl empty⟩
            · rw [List.getElem?_modify_eq, at_line] at at_line'
              cases at_line'
              exact ⟨length, .inr ⟨rfl, known⟩⟩
          · simp [at_line, Cache.fill, Cache.markUsed]

/-! ## Bytes -/

/-- A byte of the disc as it is read without a cache. -/
def byteAt (source : BlockSource) (block_size offset : Nat) : Option Byte :=
  (uncached source block_size (offset / block_size)).bind (·[offset % block_size]?)

/-- Some bytes of one block. -/
theorem bytes_of_block (sound : Sound source block_size) {offset : Nat} {bytes : List Byte}
    (found : uncached source block_size (offset / block_size) = some bytes) (count : Nat)
    (fits : offset % block_size + count ≤ block_size) :
    (List.range' offset count).mapM (byteAt source block_size) =
      some ((bytes.drop (offset % block_size)).take count) := by
  have length := (uncached_spec sound found).2.1
  induction count with
  | zero => simp
  | succ count ih =>
      have here : byteAt source block_size (offset + count) =
          (bytes.drop (offset % block_size))[count]? := by
        have split := Nat.div_add_mod offset block_size
        have same : offset + count = offset % block_size + count +
            block_size * (offset / block_size) := by omega
        have quotient : (offset + count) / block_size = offset / block_size := by
          rw [same, Nat.add_mul_div_left _ _ sound.pos, Nat.div_eq_of_lt (by omega), Nat.zero_add]
        have remainder : (offset + count) % block_size = offset % block_size + count := by
          rw [same, Nat.add_mul_mod_self_left, Nat.mod_eq_of_lt (by omega)]
        rw [byteAt, quotient, found, Option.bind_some, remainder, List.getElem?_drop]
      have inside : count < (bytes.drop (offset % block_size)).length := by
        rw [List.length_drop]
        omega
      rw [List.range'_1_concat, List.mapM_append, ih (by omega), List.take_add_one]
      simp [here, List.getElem?_eq_getElem inside]

theorem Cached.readLoop (sound : Sound source block_size) (fuel : Nat) {offset remain position : Nat}
    (out : List Byte) (cached : Cached source block_size s) (enough : remain ≤ fuel)
    (lt : offset < 2 ^ 64) (aligned : remain = 0 ∨ position = offset % block_size) :
    ∃ done bytes s', s.readLoop source fuel offset remain position out = .ok (done, bytes, s') ∧
      Cached source block_size s' ∧
      match (List.range' offset remain).mapM (byteAt source block_size) with
      | some got => done = true ∧ bytes = out ++ got
      | none => done = false := by
  have pos := sound.pos
  have small := sound.small
  induction fuel generalizing offset remain position out s with
  | zero =>
      obtain rfl : remain = 0 := by omega
      exact ⟨true, out, s, rfl, cached, by simp⟩
  | succ fuel ih =>
      cases remain with
      | zero => exact ⟨true, out, s, by rw [SectorReader.readLoop], cached, by simp⟩
      | succ rest =>
          obtain rfl : position = offset % block_size := by omega
          have block_lt : offset / block_size < 2 ^ 64 :=
            Nat.lt_of_le_of_lt (Nat.div_le_self ..) lt
          obtain ⟨found, s₁, call, cached₁, holds⟩ := cached.getCacheLine sound block_lt
          rw [SectorReader.readLoop, cached.block_size_eq, if_neg (Nat.ne_of_gt pos)]
          swap
          · exact Nat.succ_ne_zero rest
          dsimp only
          rw [call]
          cases known : uncached source block_size (offset / block_size) with
          | none =>
              rw [known] at holds
              obtain rfl : found = none := holds
              have nothing : byteAt source block_size offset = none := by
                rw [byteAt, known, Option.bind_none]
              refine ⟨false, out, s₁, rfl, cached₁, ?_⟩
              simp [List.range'_succ, nothing]
          | some bytes =>
              rw [known] at holds
              obtain ⟨line, c, rfl, entry, index, one, data⟩ := holds
              obtain ⟨-, length, few⟩ := uncached_spec sound known
              have in_block := Nat.mod_lt offset pos
              have read_offset : u32 (u32 (offset / block_size - c.block_idx) * block_size +
                  offset % block_size) = offset % block_size := by
                rw [index, Nat.sub_self, show u32 0 = 0 from rfl, Nat.zero_mul, Nat.zero_add]
                exact Nat.mod_eq_of_lt (by omega)
              have can_read : u32 (block_size * c.num_blocks + (2 ^ 32 - offset % block_size)) =
                  block_size - offset % block_size := by
                unfold u32
                rw [one]
                omega
              simp only [bind, Except.bind, entry, cached₁.block_size_eq, read_offset, can_read, data]
              generalize was : min (block_size - offset % block_size) (rest + 1) = was_read
              have below : offset + was_read < 2 ^ 64 := by
                have := Nat.div_add_mod offset block_size
                have := Nat.mul_lt_mul_of_lt_of_lt small few
                have : offset / block_size * block_size = block_size * (offset / block_size) :=
                  Nat.mul_comm ..
                omega
              rw [if_pos (by omega), u64_of_lt below]
              have next : rest + 1 - was_read = 0 ∨ 0 = (offset + was_read) % block_size := by
                by_cases last : rest + 1 - was_read = 0
                · exact .inl last
                · refine .inr ?_
                  have whole : offset + was_read = block_size * (offset / block_size + 1) := by
                    have := Nat.div_add_mod offset block_size
                    rw [Nat.mul_succ]
                    omega
                  rw [whole, Nat.mul_mod_right]
              obtain ⟨done, all, s', run, cached', rest_holds⟩ :=
                ih (out ++ (bytes.drop (offset % block_size)).take was_read) cached₁ (by omega)
                  below next
              refine ⟨done, all, s', run, cached', ?_⟩
              have split : List.range' offset (rest + 1) =
                  List.range' offset was_read ++
                    List.range' (offset + was_read) (rest + 1 - was_read) := by
                rw [List.range'_append_1]
                congr 1
                omega
              rw [split, List.mapM_append, bytes_of_block sound known was_read (by omega)]
              cases more : (List.range' (offset + was_read) (rest + 1 - was_read)).mapM
                  (byteAt source block_size) with
              | none =>
                  rw [more] at rest_holds
                  simpa using rest_holds
              | some got =>
                  rw [more] at rest_holds
                  obtain ⟨rfl, rfl⟩ := rest_holds
                  simp

/-- The bytes that a read must give, or nothing when it must fail: nothing of the reader but its
blocks matters. -/
def plainRead (source : BlockSource) (block_size offset size : Nat) : Option (List Byte) :=
  if source.dataSize < u64 (offset + size) then none
  else (List.range' offset size).mapM (byteAt source block_size)

/-- The outcome of a read: whether it succeeded, and the bytes then. -/
def Gives (result : Bool × List Byte) (plain : Option (List Byte)) : Prop :=
  match plain with
  | some bytes => result = (true, bytes)
  | none => result.1 = false

theorem Gives.of_true {result : Bool × List Byte} {plain : Option (List Byte)}
    (gives : Gives result plain) (done : result.1 = true) : plain = some result.2 := by
  cases plain with
  | none => cases done.symm.trans gives
  | some bytes => rw [show result = (true, bytes) from gives]

/-- Two reads that must give the same have the same outcome. -/
theorem Gives.same {result result' : Bool × List Byte} {plain : Option (List Byte)}
    (gives : Gives result plain) (gives' : Gives result' plain) :
    result'.1 = result.1 ∧ (result.1 = true → result'.2 = result.2) := by
  cases plain with
  | none => exact ⟨gives'.trans gives.symm, fun done => by cases done.symm.trans gives⟩
  | some bytes =>
      rw [show result = (true, bytes) from gives, show result' = (true, bytes) from gives']
      exact ⟨rfl, fun _ => rfl⟩

theorem Cached.read (sound : Sound source block_size) (cached : Cached source block_size s)
    {offset : Nat} (lt : offset < 2 ^ 64) (size : Nat) :
    ∃ done bytes s', s.read source offset size = .ok (done, bytes, s') ∧
      Cached source block_size s' ∧
      Gives (done, bytes) (plainRead source block_size offset size) := by
  unfold SectorReader.read plainRead
  split
  · exact ⟨false, [], s, rfl, cached, rfl⟩
  · have position : u32 (offset % s.m_block_size) = offset % block_size := by
      have := Nat.mod_lt offset sound.pos
      have := sound.small
      rw [cached.block_size_eq]
      exact Nat.mod_eq_of_lt (by omega)
    rw [if_neg (by rw [cached.block_size_eq]; exact Nat.ne_of_gt sound.pos), position]
    obtain ⟨done, bytes, s', run, cached', holds⟩ :=
      cached.readLoop sound size [] (Nat.le_refl size) lt (.inr rfl)
    refine ⟨done, bytes, s', run, cached', ?_⟩
    unfold Gives
    split at holds
    · obtain ⟨rfl, rfl⟩ := holds
      rfl
    · exact holds

/-- Every read of a sequence gives what it must give, whatever was read before. -/
theorem Cached.readAll (sound : Sound source block_size) (cached : Cached source block_size s)
    (reads : List (Nat × Nat)) (lt : ∀ read ∈ reads, read.1 < 2 ^ 64) :
    ∃ results, s.readAll source reads = .ok results ∧
      List.Forall₂ (fun read result => Gives result (plainRead source block_size read.1 read.2))
        reads results := by
  induction reads generalizing s with
  | nil => exact ⟨[], rfl, .nil⟩
  | cons head rest ih =>
      obtain ⟨done, bytes, s', call, cached', gives⟩ :=
        cached.read sound (lt head List.mem_cons_self) head.2
      obtain ⟨results, run, all⟩ := ih cached' fun read mem => lt read (List.mem_cons_of_mem _ mem)
      refine ⟨(done, bytes) :: results, ?_, .cons gives all⟩
      rw [SectorReader.readAll, call]
      simp only [bind, Except.bind, run]

theorem mapM_range'_spec {α : Type} {f : Nat → Option α} {first count : Nat} {as : List α}
    (all : (List.range' first count).mapM f = some as) :
    as.length = count ∧ ∀ i, i < count → f (first + i) = as[i]? := by
  induction count generalizing first as with
  | zero =>
      cases all
      exact ⟨rfl, fun i lt => absurd lt (Nat.not_lt_zero i)⟩
  | succ count ih =>
      rw [List.range'_succ, List.mapM_cons] at all
      obtain ⟨a, head, more⟩ := Option.bind_eq_some_iff.mp all
      obtain ⟨rest, tail, done⟩ := Option.bind_eq_some_iff.mp more
      cases done
      obtain ⟨length, each⟩ := ih tail
      refine ⟨by rw [List.length_cons, length], fun i lt => ?_⟩
      cases i with
      | zero => exact head
      | succ i =>
          rw [List.getElem?_cons_succ, ← each i (Nat.lt_of_succ_lt_succ lt)]
          congr 1
          omega

/-- The bytes of a read are those of the blocks. -/
theorem plainRead_spec (sound : Sound source block_size) {offset size : Nat} {bytes : List Byte}
    (read : plainRead source block_size offset size = some bytes) :
    bytes.length = size ∧ ∀ i, i < size → ∃ data,
      source.getBlock ((offset + i) / block_size) = .ok (true, data) ∧
      bytes[i]? = data[(offset + i) % block_size]? := by
  unfold plainRead at read
  split at read
  · cases read
  · obtain ⟨length, each⟩ := mapM_range'_spec read
    refine ⟨length, fun i lt => ?_⟩
    have here := each i lt
    have inside : i < bytes.length := by rw [length]; exact lt
    rw [List.getElem?_eq_getElem inside, byteAt] at here
    obtain ⟨data, known, at_offset⟩ := Option.bind_eq_some_iff.mp here
    exact ⟨data, (uncached_spec sound known).1, by rw [List.getElem?_eq_getElem inside, at_offset]⟩

end

end Phocoena.DiscIO
