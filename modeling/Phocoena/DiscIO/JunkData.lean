import Phocoena.DiscIO.LaggedFibonacciGenerator
import Phocoena.Lib.Fallible

/-! # Junk data

The bytes a seed generates, counted from where `SetSeed` leaves the generator, and what
`GetSeed` says about the bytes of its input: which of them the seed that it finds generates.
-/

namespace Phocoena.DiscIO

@[simp] theorem swap32_swap32 (x : BitVec 32) : swap32 (swap32 x) = x := by
  apply BitVec.eq_of_getLsbD_eq
  intro i hi
  simp only [swap32, BitVec.getLsbD_append, BitVec.getLsbD_extractLsb']
  grind

@[simp] theorem swap32_zero : swap32 0 = 0 := by decide

namespace LaggedFibonacciGenerator

/-! ## Buffers -/

theorem word_setIfInBounds (b : Buffer) (i j : Nat) (x : BitVec 32) (lt : i < LFG_K) :
    word (b.setIfInBounds i x) j = if j = i then x else word b j := by
  simp only [word, Vector.getElem?_setIfInBounds]
  split
  · next same => rw [if_pos same.symm]; rfl
  · next other => rw [if_neg (Ne.symm other)]

theorem buffer_ext {b c : Buffer} (same : ∀ i < LFG_K, word b i = word c i) : b = c := by
  apply Vector.ext
  intro i hi
  have := same i hi
  simpa [word, hi] using this

/-! ## Initialization -/

theorem initializeWord_false (b : Buffer) (i : Nat) : ∃ c, initializeWord false b i = some c := by
  simp [initializeWord]

theorem initializeWord_spec {check : Bool} {b c : Buffer} {i : Nat}
    (h : initializeWord check b i = some c) :
    c = b.setIfInBounds i (word b (i - 17) <<< 23 ^^^ word b (i - 16) >>> 9 ^^^ word b (i - 1)) := by
  unfold initializeWord at h
  dsimp only at h
  split at h
  · cases h
  · cases h
    rfl

/-- The words from `start` on are calculated from the ones before it, whatever they were. -/
theorem initializeWords_congr {start n : Nat} (first : 17 ≤ start) (last : start + n ≤ LFG_K)
    {check : Bool} {b c b' : Buffer}
    (h : (List.range' start n).foldlM (initializeWord check) b = some c)
    (same : ∀ i < start, word b i = word b' i) :
    ∃ c', (List.range' start n).foldlM (initializeWord false) b' = some c' ∧
      ∀ i < start + n, word c i = word c' i := by
  induction n generalizing start b b' with
  | zero =>
      cases h
      exact ⟨b', rfl, same⟩
  | succ n ih =>
      rw [List.range'_succ, List.foldlM_cons] at h
      obtain ⟨b₁, step, rest⟩ := Option.bind_eq_some_iff.mp h
      obtain ⟨b₁', step'⟩ := initializeWord_false b' start
      have next := initializeWord_spec step
      have next' := initializeWord_spec step'
      have lt : start < LFG_K := by omega
      have same' : ∀ i < start + 1, word b₁ i = word b₁' i := by
        intro i hi
        rw [next, next', word_setIfInBounds _ _ _ _ lt, word_setIfInBounds _ _ _ _ lt,
          same (start - 17) (by omega), same (start - 16) (by omega), same (start - 1) (by omega)]
        split
        · rfl
        · next other => exact same i (by omega)
      obtain ⟨c', done, equal⟩ := ih (by omega) (by omega) rest same'
      refine ⟨c', ?_, fun i hi => equal i (by omega)⟩
      rw [List.range'_succ, List.foldlM_cons, step']
      exact done

/-- Only the first words count, also for a check that the others pass. -/
theorem initializeBuffer_congr {check : Bool} {b b' c : Buffer}
    (h : initializeBuffer check b = some c)
    (same : ∀ i < SEED_SIZE, word b i = word b' i) : initializeBuffer false b' = some c := by
  unfold initializeBuffer at h ⊢
  obtain ⟨d, words, rfl⟩ := Option.map_eq_some_iff.mp h
  obtain ⟨d', words', equal⟩ := initializeWords_congr (by decide) (by decide) words same
  rw [words']
  have : d = d' := buffer_ext equal
  rw [this]
  rfl

/-! ## Seeds -/

theorem initializeBuffer_false (b : Buffer) : ∃ c, initializeBuffer false b = some c := by
  have words : ∀ (l : List Nat) (b : Buffer), ∃ c, l.foldlM (initializeWord false) b = some c := by
    intro l
    induction l with
    | nil => exact fun b => ⟨b, rfl⟩
    | cons i l ih =>
        intro b
        obtain ⟨b', step⟩ := initializeWord_false b i
        obtain ⟨c, rest⟩ := ih b'
        exact ⟨c, by rw [List.foldlM_cons, step]; exact rest⟩
  obtain ⟨c, done⟩ := words (List.range' SEED_SIZE (LFG_K - SEED_SIZE)) b
  exact ⟨_, by rw [initializeBuffer, done]; rfl⟩

theorem word_setSeedWords (seed : Seed) (b : Buffer) {n i : Nat} (le : n ≤ LFG_K) (lt : i < n) :
    word ((List.range n).foldl
      (fun b i => b.setIfInBounds i (swap32 (seed[i]?.getD 0))) b) i =
      swap32 (seed[i]?.getD 0) := by
  induction n with
  | zero => omega
  | succ n ih =>
      rw [List.range_succ, List.foldl_append, List.foldl_cons, List.foldl_nil,
        word_setIfInBounds _ _ _ _ (by omega)]
      split
      · next same => rw [same]
      · next other => exact ih (by omega) (by omega)

/-- The buffer after `SetSeed`. -/
def seeded (seed : Seed) : Buffer := (setSeed ⟨Vector.replicate _ 0, 0⟩ seed).m_buffer

theorem setSeed_eq (lfg : LaggedFibonacciGenerator) (seed : Seed) :
    lfg.setSeed seed = ⟨seeded seed, 0⟩ := by
  unfold seeded setSeed
  dsimp only
  obtain ⟨c, done⟩ := initializeBuffer_false ((List.range SEED_SIZE).foldl
    (fun b i => b.setIfInBounds i (swap32 (seed[i]?.getD 0))) lfg.m_buffer)
  rw [done, initializeBuffer_congr done fun i lt => ?_]
  · rw [Option.getD_some, Option.getD_some]
  · rw [word_setSeedWords _ _ (by decide) lt, word_setSeedWords _ _ (by decide) lt]

theorem reinitialize_seeded {b c : Buffer} {seed : Seed}
    (h : reinitialize b = some (c, seed)) : seeded seed = c := by
  unfold reinitialize at h
  dsimp only at h
  obtain ⟨d, done, same⟩ := Option.map_eq_some_iff.mp h
  obtain ⟨rfl, rfl⟩ := Prod.mk.inj same
  unfold seeded setSeed
  dsimp only
  rw [initializeBuffer_congr done fun i lt => ?_, Option.getD_some]
  rw [word_setSeedWords _ _ (by decide) lt, Vector.getElem?_ofFn, dif_pos lt, Option.getD_some,
    swap32_swap32]

/-! ## The bytes of a seed -/

/-- The generator `i` bytes after the buffer was `b`. -/
def after (b : Buffer) (i : Nat) : LaggedFibonacciGenerator :=
  ⟨forward^[i / BUFFER_BYTES] b, i % BUFFER_BYTES⟩

def stream (b : Buffer) (i : Nat) : Byte := byteAt (forward^[i / BUFFER_BYTES] b) (i % BUFFER_BYTES)

/-- The byte that a generator outputs `i` bytes after `SetSeed`. -/
def junk (seed : Seed) (i : Nat) : Byte := stream (seeded seed) i

theorem BUFFER_BYTES_eq : BUFFER_BYTES = 2084 := rfl

theorem after_of_lt (b : Buffer) (q : Nat) {p : Nat} (lt : p < BUFFER_BYTES) :
    after b (q * BUFFER_BYTES + p) = ⟨forward^[q] b, p⟩ := by
  unfold after
  rw [BUFFER_BYTES_eq] at lt ⊢
  rw [show (q * 2084 + p) / 2084 = q by omega, show (q * 2084 + p) % 2084 = p by omega]

/-- Going on by `n` bytes that stay in the buffer, up to its end. -/
theorem after_add (b : Buffer) (i : Nat) {n : Nat} (le : i % BUFFER_BYTES + n ≤ BUFFER_BYTES) :
    after b (i + n) = if i % BUFFER_BYTES + n = BUFFER_BYTES then
      ⟨forward (forward^[i / BUFFER_BYTES] b), 0⟩
    else ⟨forward^[i / BUFFER_BYTES] b, i % BUFFER_BYTES + n⟩ := by
  rw [BUFFER_BYTES_eq] at le ⊢
  split
  · next full =>
    rw [← Function.iterate_succ_apply' forward, show i + n = (i / 2084).succ * BUFFER_BYTES + 0 by
      rw [BUFFER_BYTES_eq]; omega]
    exact after_of_lt b _ (by decide)
  · next inside =>
    rw [show i + n = i / 2084 * BUFFER_BYTES + (i % 2084 + n) by rw [BUFFER_BYTES_eq]; omega]
    exact after_of_lt b _ (by rw [BUFFER_BYTES_eq]; omega)

theorem getByte_after (b : Buffer) (i : Nat) :
    (after b i).getByte = (stream b i, after b (i + 1)) := by
  have lt : i % BUFFER_BYTES < BUFFER_BYTES := Nat.mod_lt _ (by decide)
  rw [after_add b i lt]
  rfl

theorem getBytesLoop_after (b : Buffer) (i : Nat) {fuel count : Nat} (le : count ≤ fuel) :
    getBytesLoop fuel (after b i) count =
      ((List.range' i count).map (stream b), after b (i + count)) := by
  induction fuel generalizing i count with
  | zero =>
      obtain rfl : count = 0 := by omega
      rfl
  | succ fuel ih =>
      unfold getBytesLoop
      split
      · next none =>
        subst none
        rfl
      · next some =>
        have lt : i % BUFFER_BYTES < BUFFER_BYTES := Nat.mod_lt _ (by decide)
        have position : (after b i).m_position_bytes = i % BUFFER_BYTES := rfl
        have buffer : (after b i).m_buffer = forward^[i / BUFFER_BYTES] b := rfl
        dsimp only
        rw [position, buffer]
        obtain ⟨n, hn⟩ : ∃ n, n = min count (BUFFER_BYTES - i % BUFFER_BYTES) := ⟨_, rfl⟩
        rw [← hn]
        have inside : i % BUFFER_BYTES + n ≤ BUFFER_BYTES := by omega
        rw [← after_add b i inside, ih (i + n) (by omega)]
        have output : (List.range' (i % BUFFER_BYTES) n).map
            (byteAt (forward^[i / BUFFER_BYTES] b)) = (List.range' i n).map (stream b) := by
          rw [List.range'_eq_map_range, List.range'_eq_map_range, List.map_map, List.map_map]
          refine List.map_congr_left fun j hj => ?_
          rw [List.mem_range] at hj
          unfold stream
          simp only [Function.comp_apply]
          rw [BUFFER_BYTES_eq] at inside ⊢
          rw [show (i + j) / 2084 = i / 2084 by omega, show (i + j) % 2084 = i % 2084 + j by omega]
        rw [output, ← List.map_append, List.range'_append_1]
        rw [show n + (count - n) = count by omega, show i + n + (count - n) = i + count by omega]

theorem forwardLoop_after (b : Buffer) (q : Nat) {fuel p : Nat} (le : p ≤ fuel) :
    forwardLoop fuel ⟨forward^[q] b, p⟩ = after b (q * BUFFER_BYTES + p) := by
  induction fuel generalizing q p with
  | zero =>
      obtain rfl : p = 0 := by omega
      exact (after_of_lt b q (by decide)).symm
  | succ fuel ih =>
      unfold forwardLoop
      dsimp only
      split
      · next ge =>
        rw [BUFFER_BYTES_eq] at ge
        have same : q.succ * BUFFER_BYTES + (p - BUFFER_BYTES) = q * BUFFER_BYTES + p := by
          rw [BUFFER_BYTES_eq]
          omega
        rw [← Function.iterate_succ_apply' forward,
          ih q.succ (by rw [BUFFER_BYTES_eq]; omega), same]
      · next lt => exact (after_of_lt b q (by omega)).symm

theorem div_mul_add_mod_add (i n count : Nat) : i / n * n + (i % n + count) = i + count := by
  rw [← Nat.add_assoc, Nat.mul_comm, Nat.div_add_mod]

theorem forwardBytes_after (b : Buffer) (i count : Nat) :
    (after b i).forwardBytes count = after b (i + count) := by
  have position : (after b i).m_position_bytes = i % BUFFER_BYTES := rfl
  have buffer : (after b i).m_buffer = forward^[i / BUFFER_BYTES] b := rfl
  unfold forwardBytes
  rw [position, buffer, forwardLoop_after b _ (Nat.le_refl _), div_mul_add_mod_add]

/-! ## GetSeed -/

/-- What the comparison of `GetSeed` counts is a run of bytes of the generator. -/
theorem reconstructedBytes_spec (b : Buffer) (i : Nat) (data : List Byte) :
    reconstructedBytes (after b i) data ≤ data.length ∧
      ∀ j < reconstructedBytes (after b i) data, data[j]? = some (stream b (i + j)) := by
  induction data generalizing i with
  | nil => simp [reconstructedBytes]
  | cons x data ih =>
      unfold reconstructedBytes
      rw [getByte_after]
      split
      · next same =>
        obtain ⟨le, equal⟩ := ih (i + 1)
        refine ⟨Nat.succ_le_succ le, fun j hj => ?_⟩
        cases j with
        | zero => exact congrArg some same.symm
        | succ j =>
            rw [List.getElem?_cons_succ, equal j (Nat.lt_of_succ_lt_succ hj), Nat.add_assoc,
              Nat.add_comm 1 j]
      · simp

/-- The reads of `GetSeed` start in front of a group of words, not behind its last byte: the
bytes it skips to come to a whole word belong to the same 2084 bytes as that word. -/
def SameGroup (data_offset : Nat) : Prop :=
  alignUp data_offset 4 / BUFFER_BYTES = data_offset / BUFFER_BYTES

theorem getSeedWords_ok {data : List Byte} {i size data_offset : Nat} {b : Buffer} {seed : Seed}
    (h : getSeedWords data i size data_offset = .ok (some (b, seed))) :
    b = forward^[data_offset / LFG_K] (seeded seed) := by
  unfold getSeedWords at h
  split at h
  · cases h
  · obtain ⟨fits, -, h⟩ := bind_eq_ok.mp h
    split at h
    · obtain ⟨c, -, h⟩ := bind_eq_ok.mp h
      obtain ⟨⟨d, seed'⟩, found, same⟩ := Option.map_eq_some_iff.mp (Except.ok.inj h)
      obtain ⟨rfl, rfl⟩ := Prod.mk.inj same
      rw [reinitialize_seeded found]
    · cases h

theorem getSeed_ok {data : List Byte} {position size data_offset n : Nat} {seed : Option Seed}
    (h : getSeed data position size data_offset = .ok (n, seed)) :
    n = 0 ∨ ∃ s, seed = some s ∧ n = reconstructedBytes
      ⟨forward^[alignUp data_offset 4 / BUFFER_BYTES] (seeded s), data_offset % BUFFER_BYTES⟩
      ((data.drop position).take size) := by
  unfold getSeed at h
  split at h
  · cases h
    exact .inl rfl
  · obtain ⟨found, words, h⟩ := bind_eq_ok.mp h
    split at h
    · cases h
      exact .inl rfl
    · next b s =>
      cases h
      refine .inr ⟨s, rfl, ?_⟩
      have le : data_offset ≤ alignUp data_offset 4 := by
        unfold alignUp
        omega
      have group : (data_offset + (alignUp data_offset 4 - data_offset)) / 4 / LFG_K =
          alignUp data_offset 4 / BUFFER_BYTES := by
        rw [Nat.add_sub_cancel' le, Nat.div_div_eq_div_mul, Nat.mul_comm]
        rfl
      rw [getSeedWords_ok words, group]

theorem getSeed_le {data : List Byte} {position size data_offset n : Nat} {seed : Option Seed}
    (h : getSeed data position size data_offset = .ok (n, seed)) : n ≤ size := by
  obtain rfl | ⟨s, -, rfl⟩ := getSeed_ok h
  · exact Nat.zero_le _
  · have lt : data_offset % BUFFER_BYTES < BUFFER_BYTES := Nat.mod_lt _ (by decide)
    rw [← after_of_lt _ _ lt]
    refine Nat.le_trans (reconstructedBytes_spec _ _ _).1 ?_
    rw [List.length_take]
    exact Nat.min_le_left _ _

/-- Where the skipped bytes do not lead into the next group, the seed that `GetSeed` returns
generates the bytes that it counts. -/
theorem getSeed_generates {data : List Byte} {position size data_offset n : Nat}
    {seed : Option Seed} (h : getSeed data position size data_offset = .ok (n, seed))
    (group : SameGroup data_offset) (some : 0 < n) :
    ∃ s, seed = .some s ∧ ∀ j < n, data[position + j]? = .some (junk s (data_offset + j)) := by
  obtain rfl | ⟨s, rfl, rfl⟩ := getSeed_ok h
  · omega
  · refine ⟨s, rfl, fun j hj => ?_⟩
    rw [group] at hj
    have equal := (reconstructedBytes_spec (seeded s) data_offset _).2 j hj
    rw [List.getElem?_take] at equal
    split at equal
    · rw [List.getElem?_drop] at equal
      exact equal
    · cases equal

/-! ## Reads past the end -/

theorem readWord_ok {data : List Byte} {i : Nat} (inside : i + 4 ≤ data.length) :
    ∃ x, readWord data i = .ok x := by
  obtain ⟨a, b, c, d, rest, h⟩ : ∃ a b c d rest, data.drop i = a :: b :: c :: d :: rest := by
    have length : 4 ≤ (data.drop i).length := by
      rw [List.length_drop]
      omega
    match h : data.drop i with
    | a :: b :: c :: d :: rest => exact ⟨a, b, c, d, rest, rfl⟩
    | [] | [_] | [_, _] | [_, _, _] => simp [h] at length
  exact ⟨_, by rw [readWord, h]; rfl⟩

theorem readWord_error {data : List Byte} {i : Nat} (outside : data.length ≤ i) :
    readWord data i = .error .readPastEnd := by
  rw [readWord, List.drop_eq_nil_of_le outside]
  rfl

theorem allLookGenerated_ok {data : List Byte} {i n : Nat} (inside : i + 4 * n ≤ data.length) :
    ∃ fits, allLookGenerated data i n = .ok fits := by
  induction n generalizing i with
  | zero => exact ⟨true, rfl⟩
  | succ n ih =>
      obtain ⟨x, read⟩ := @readWord_ok data i (by omega)
      unfold allLookGenerated
      rw [read]
      simp only [bind, Except.bind]
      split
      · exact ih (by omega)
      · exact ⟨false, rfl⟩

theorem mapM_ok {α β ε : Type} {f : α → Except ε β} {l : List α}
    (each : ∀ a ∈ l, ∃ b, f a = .ok b) : ∃ bs, l.mapM f = .ok bs := by
  induction l with
  | nil => exact ⟨[], rfl⟩
  | cons a l ih =>
      obtain ⟨b, first⟩ := each a (by simp)
      obtain ⟨bs, rest⟩ := ih fun c hc => each c (by simp [hc])
      exact ⟨b :: bs, by rw [List.mapM_cons, first, rest]; rfl⟩

theorem getSeedWords_total {data : List Byte} {i size data_offset : Nat}
    (inside : i + 4 * size ≤ data.length) : ∃ r, getSeedWords data i size data_offset = .ok r := by
  unfold getSeedWords
  split
  · exact ⟨none, rfl⟩
  · next enough =>
    obtain ⟨fits, all⟩ := @allLookGenerated_ok data i LFG_K (by omega)
    rw [all]
    simp only [bind, Except.bind]
    split
    · obtain ⟨words, read⟩ := @mapM_ok _ _ _ (fun k => readWord data (i + 4 * k))
        (List.range LFG_K) fun k hk => readWord_ok (by rw [List.mem_range] at hk; omega)
      unfold copyWords
      rw [read]
      exact ⟨_, rfl⟩
    · exact ⟨none, rfl⟩

/-- `GetSeed` stays in the input where the bytes it skips are there. -/
theorem getSeed_total {data : List Byte} {position size data_offset : Nat}
    (enough : alignUp data_offset 4 - data_offset ≤ size)
    (inside : position + size ≤ data.length) (small : size < 2 ^ 64) :
    ∃ r, getSeed data position size data_offset = .ok r := by
  unfold getSeed
  split
  · exact ⟨_, rfl⟩
  · dsimp only
    generalize alignUp data_offset 4 - data_offset = skip at enough
    have words : (size + 2 ^ 64 - skip) % 2 ^ 64 / 4 = (size - skip) / 4 := by omega
    rw [words]
    obtain ⟨r, found⟩ := @getSeedWords_total data (position + skip) ((size - skip) / 4)
      ((data_offset + skip) / 4) (by omega)
    rw [found]
    cases r with
    | none => exact ⟨_, rfl⟩
    | some found => exact ⟨_, rfl⟩

/-- Where they are not, the number of words wraps around. -/
theorem getSeed_error {data : List Byte} {position size data_offset : Nat}
    (short : size < alignUp data_offset 4 - data_offset) (last : position + size = data.length)
    (aligned : position % 4 = data_offset % 4) :
    getSeed data position size data_offset = .error .readPastEnd := by
  unfold getSeed
  rw [if_neg (not_not_intro aligned)]
  dsimp only
  have few : alignUp data_offset 4 - data_offset < 4 := by
    unfold alignUp
    omega
  generalize alignUp data_offset 4 - data_offset = skip at short few
  have words : ¬ (size + 2 ^ 64 - skip) % 2 ^ 64 / 4 < LFG_K := by
    unfold LFG_K
    omega
  have first : allLookGenerated data (position + skip) LFG_K = .error .readPastEnd := by
    rw [show LFG_K = 520 + 1 from rfl, allLookGenerated, readWord_error (by omega)]
    rfl
  rw [getSeedWords, if_neg words, first]
  rfl

/-! ## The zero seed -/

/-- A buffer of zeros. -/
def zeros : Buffer := Vector.replicate LFG_K 0

theorem word_zeros (i : Nat) : word zeros i = 0 := by
  unfold word zeros
  rw [Vector.getElem?_replicate]
  split <;> rfl

theorem zeros_set (i : Nat) : zeros.setIfInBounds i 0 = zeros := by
  apply buffer_ext
  intro j hj
  by_cases lt : i < LFG_K
  · rw [word_setIfInBounds _ _ _ _ lt, word_zeros]
    exact ite_self 0
  · rw [word, Vector.getElem?_setIfInBounds]
    split
    · next same => exact absurd (same ▸ hj) lt
    · rfl

theorem xorAssign_zeros (i j : Nat) : xorAssign zeros i j = zeros := by
  rw [xorAssign, word_zeros, word_zeros, BitVec.xor_self]
  exact zeros_set i

theorem xorAssigns_zeros (source : Nat → Nat) (l : List Nat) :
    l.foldl (fun b i => xorAssign b i (source i)) zeros = zeros := by
  induction l with
  | nil => rfl
  | cons i l ih => rw [List.foldl_cons, xorAssign_zeros, ih]

theorem forward_zeros : forward zeros = zeros := by
  unfold forward
  dsimp only
  rw [xorAssigns_zeros (fun i => i + LFG_K - LFG_J), xorAssigns_zeros (fun i => i - LFG_J)]

theorem initializeBuffer_zeros : initializeBuffer false zeros = some zeros := by
  have words : ∀ l : List Nat, l.foldlM (initializeWord false) zeros = some zeros := by
    intro l
    induction l with
    | nil => rfl
    | cons i l ih =>
        have step : initializeWord false zeros i = some zeros := by
          obtain ⟨c, done⟩ := initializeWord_false zeros i
          rw [done, initializeWord_spec done]
          simp only [word_zeros]
          exact congrArg some (zeros_set i)
        rw [List.foldlM_cons, step]
        exact ih
  have output : zeros.map outputWord = zeros := by
    unfold zeros
    rw [Vector.map_replicate]
    rfl
  rw [initializeBuffer, words, Option.map_some, output, Function.iterate_fixed forward_zeros]

theorem seeded_zero : seeded (Vector.replicate SEED_SIZE 0) = zeros := by
  have start : (List.range SEED_SIZE).foldl (fun b i => b.setIfInBounds i
      (swap32 ((Vector.replicate SEED_SIZE (0 : BitVec 32))[i]?.getD 0))) zeros = zeros := by
    refine List.foldl_fixed' (fun i => ?_) _
    rw [Vector.getElem?_replicate]
    split <;> exact zeros_set i
  unfold seeded setSeed
  dsimp only
  rw [show (Vector.replicate LFG_K 0 : Buffer) = zeros from rfl, start, initializeBuffer_zeros]
  rfl

/-- The zero seed generates zeros, from wherever it is started. -/
theorem junk_zero (i : Nat) : junk (Vector.replicate SEED_SIZE 0) i = 0 := by
  unfold junk stream byteAt
  rw [seeded_zero, Function.iterate_fixed forward_zeros, word_zeros]
  exact BitVec.extractLsb'_zero

end LaggedFibonacciGenerator

end Phocoena.DiscIO
