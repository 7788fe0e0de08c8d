import Phocoena.DiscIO.SeedRecovery

/-! # Where `GetSeed` is exact

For which lengths and offsets `GetSeed` finds the seed of whatever a generator put out, and says
nothing else about what it did not. The bits of the generator, taken from the highest of each word
to the lowest, are one sequence with the recurrence of the words; for every offset behind the last
whole word of a group, one of these sequences tells the group from the next.
-/

namespace Phocoena.DiscIO.LaggedFibonacciGenerator

/-! ## Sequences of bits -/

/-- Each bit is the sum of the ones 521 and 32 before it. -/
def Recurs (y : Nat → Bool) : Prop := ∀ t, y (t + 521) = (y t ^^ y (t + 489))

/-- The sequence that begins with one set bit. -/
def impulse (t : Nat) : Bool :=
  if t < 521 then t == 0 else impulse (t - 521) ^^ impulse (t - 32)

theorem recurs_impulse : Recurs impulse := by
  intro t
  rw [impulse, if_neg (by omega), Nat.add_sub_cancel, show t + 521 - 32 = t + 489 by omega]

/-- The sequence that goes on with `y` after one more bit. -/
def ledBack (y : Nat → Bool) : Nat → Bool
  | 0 => y 520 ^^ y 488
  | t + 1 => y t

/-- Every place has a sequence with a set bit there: one that begins later, led back. -/
theorem Recurs.exists_set (t : Nat) : ∃ y, Recurs y ∧ y t = true := by
  induction t with
  | zero => exact ⟨impulse, recurs_impulse, by simp [impulse]⟩
  | succ t ih =>
      obtain ⟨y, recurs, set⟩ := ih
      refine ⟨ledBack y, fun t => ?_, set⟩
      cases t with
      | zero =>
          show y 520 = ((y 520 ^^ y 488) ^^ y 488)
          rw [Bool.xor_assoc, Bool.xor_self, Bool.xor_false]
      | succ t => exact recurs t

theorem Recurs.doubled {y : Nat → Bool} {a b : Nat} (recurs : ∀ t, y (t + a) = (y t ^^ y (t + b))) :
    ∀ t, y (t + (a + a)) = (y t ^^ y (t + (b + b))) := by
  intro t
  have far := recurs (t + a)
  have near := recurs (t + b)
  rw [show t + a + b = t + b + a by omega, near, recurs t] at far
  rw [← Nat.add_assoc, far, ← Nat.add_assoc]
  cases y t <;> cases y (t + b) <;> cases y (t + b + b) <;> rfl

/-- Word `n` of the sequence, from its highest bit to its lowest. -/
def wordAt (y : Nat → Bool) (n : Nat) : BitVec 32 :=
  (BitVec.ofBoolListLE ((List.range 32).map fun k => y (32 * n + 31 - k))).setWidth 32

section
variable {y : Nat → Bool}

theorem getLsbD_wordAt (n : Nat) {k : Nat} (lt : k < 32) :
    (wordAt y n).getLsbD k = y (32 * n + 31 - k) := by
  rw [wordAt, BitVec.getLsbD_setWidth, decide_eq_true lt, Bool.true_and,
    BitVec.getLsbD_ofBoolListLE, List.getD_eq_getElem?_getD, List.getElem?_map,
    List.getElem?_range lt, Option.map_some, Option.getD_some]

theorem wordAt_initialized (recurs : Recurs y) (n : Nat) :
    wordAt y (n + 17) = wordAt y n <<< 23 ^^^ wordAt y (n + 1) >>> 9 ^^^ wordAt y (n + 16) := by
  refine BitVec.eq_of_getLsbD_eq fun k lt => ?_
  have bit := recurs (32 * n + 54 - k)
  simp only [BitVec.getLsbD_xor, BitVec.getLsbD_shiftLeft, BitVec.getLsbD_ushiftRight]
  rw [getLsbD_wordAt _ lt, getLsbD_wordAt _ lt,
    show 32 * (n + 17) + 31 - k = 32 * n + 54 - k + 521 by omega,
    show 32 * (n + 16) + 31 - k = 32 * n + 54 - k + 489 by omega, bit]
  by_cases high : 23 ≤ k
  · rw [getLsbD_wordAt n (by omega), BitVec.getLsbD_of_ge _ (9 + k) (by omega),
      show 32 * n + 31 - (k - 23) = 32 * n + 54 - k by omega]
    simp [lt, high]
  · rw [getLsbD_wordAt (n + 1) (show 9 + k < 32 by omega),
      show 32 * (n + 1) + 31 - (9 + k) = 32 * n + 54 - k by omega]
    simp [show k < 23 by omega]

theorem wordAt_recurs (recurs : Recurs y) (n : Nat) :
    wordAt y (n + 521) = wordAt y n ^^^ wordAt y (n + 489) := by
  have twice := Recurs.doubled (Recurs.doubled (Recurs.doubled (Recurs.doubled
    (Recurs.doubled recurs))))
  refine BitVec.eq_of_getLsbD_eq fun k lt => ?_
  rw [BitVec.getLsbD_xor, getLsbD_wordAt _ lt, getLsbD_wordAt _ lt, getLsbD_wordAt _ lt]
  have bit := twice (32 * n + 31 - k)
  rw [show 32 * (n + 521) + 31 - k = 32 * n + 31 - k + 32 * 521 by omega,
    show 32 * (n + 489) + 31 - k = 32 * n + 31 - k + 32 * 489 by omega]
  exact bit

/-- The seed of a sequence of bits. -/
def seedOf (y : Nat → Bool) : Seed := Vector.ofFn fun i => swap32 (wordAt y i)

theorem streamWord_seedOf (recurs : Recurs y) (n : Nat) :
    streamWord (seeded (seedOf y)) n = outputWord (wordAt y (n + 2084)) := by
  have K := LFG_K_eq
  have J := LFG_J_eq
  have S : SEED_SIZE = 17 := rfl
  obtain ⟨b, init, seed, same⟩ := seeded_initialized (seedOf y)
  have words : ∀ i < LFG_K, word b i = wordAt y i := by
    intro i
    induction i using Nat.strongRecOn with
    | ind i ih =>
        intro lt
        by_cases first : i < SEED_SIZE
        · rw [seed i first, seedOf, Vector.getElem?_ofFn, dif_pos first, Option.getD_some,
            swap32_swap32]
        · obtain ⟨n, rfl⟩ : ∃ n, i = n + 17 := ⟨i - 17, by omega⟩
          rw [init _ (by omega) lt, ih _ (by omega) (by omega), ih _ (by omega) (by omega),
            ih _ (by omega) (by omega), wordAt_initialized recurs]
          rfl
  have groups : ∀ m, ∀ i < LFG_K,
      word (forward^[m] (b.map outputWord)) i = outputWord (wordAt y (521 * m + i)) := by
    intro m
    induction m with
    | zero =>
        intro i lt
        rw [Function.iterate_zero_apply, word_map _ _ lt, words i lt, Nat.mul_zero, Nat.zero_add]
    | succ m before =>
        intro i
        rw [Function.iterate_succ_apply']
        induction i using Nat.strongRecOn with
        | ind i ih =>
            intro lt
            have next : wordAt y (521 * (m + 1) + i) =
                wordAt y (521 * m + i) ^^^ wordAt y (521 * m + i + 489) := by
              rw [← wordAt_recurs recurs, Nat.mul_succ, Nat.add_right_comm]
            rw [word_forward _ lt, before i lt, next, outputWord_xor]
            refine congrArg _ ?_
            split
            · rw [before _ (by omega), K, J, Nat.add_assoc]
            · rw [ih _ (by omega) (by omega), J]
              refine congrArg (fun n => outputWord (wordAt y n)) ?_
              omega
  rw [streamWord, same, ← Function.iterate_add_apply, groups _ _ (Nat.mod_lt _ (by decide)), K]
  refine congrArg (fun n => outputWord (wordAt y n)) ?_
  omega

end

theorem getLsbD_swap32 (x : BitVec 32) {j : Nat} (lt : j < 4) :
    (swap32 x).getLsbD (8 * j) = x.getLsbD (8 * (3 - j)) := by
  rw [swap32]
  simp only [BitVec.getLsbD_append, BitVec.getLsbD_extractLsb']
  obtain rfl | rfl | rfl | rfl : j = 0 ∨ j = 1 ∨ j = 2 ∨ j = 3 := by omega
  all_goals rfl

/-- No byte of the output is the same for all seeds. -/
theorem exists_byte_ne (n : Nat) {j : Nat} (lt : j < 4) :
    ∃ seed, (streamWord (seeded seed) n).extractLsb' (8 * j) 8 ≠ 0 := by
  obtain ⟨k, small, bit⟩ : ∃ k < 32, ∀ x, (outputWord x).getLsbD (8 * j) = x.getLsbD k := by
    refine ⟨if 16 ≤ 8 * (3 - j) ∧ 8 * (3 - j) < 24 then 8 * (3 - j) + 2 else 8 * (3 - j),
      by split <;> omega, fun x => ?_⟩
    rw [show outputWord x = swap32 (outputBits x) from rfl, getLsbD_swap32 _ lt,
      getLsbD_outputBits _ (by omega)]
  obtain ⟨y, recurs, set⟩ := Recurs.exists_set (32 * (n + 2084) + 31 - k)
  refine ⟨seedOf y, fun zero => ?_⟩
  have clear := congrArg (BitVec.getLsbD · 0) zero
  rw [streamWord_seedOf recurs] at clear
  simp only [BitVec.getLsbD_extractLsb', Nat.add_zero, bit, getLsbD_wordAt _ small, set] at clear
  cases clear

theorem streamWord_recurs (b : Buffer) (n : Nat) :
    streamWord b (n + LFG_K) = streamWord b n ^^^ streamWord b (n + (LFG_K - LFG_J)) := by
  have K := LFG_K_eq
  have J := LFG_J_eq
  have below := Nat.mod_lt n (show 0 < LFG_K by decide)
  have parts := Nat.div_add_mod' n LFG_K
  have here := streamWord_group b (n / LFG_K) below
  have next := streamWord_group b (n / LFG_K + 1) below
  rw [parts] at here
  rw [Nat.succ_mul, Nat.add_right_comm, parts, Function.iterate_succ_apply',
    word_forward _ below] at next
  rw [next, here]
  refine congrArg _ ?_
  split
  · rw [← streamWord_group b (n / LFG_K) (by omega), ← Nat.add_assoc, parts]
  · rw [← Function.iterate_succ_apply' forward, ← streamWord_group b _ (by omega)]
    refine congrArg (streamWord b) ?_
    rw [Nat.succ_mul]
    omega

/-- Each offset has a seed that puts out another byte there than one group later. -/
theorem exists_group_ne (i : Nat) : ∃ seed, junk seed (i + BUFFER_BYTES) ≠ junk seed i := by
  have lt := Nat.mod_lt i (show 0 < 4 by decide)
  obtain ⟨seed, differs⟩ := exists_byte_ne (i / 4 + 489) lt
  refine ⟨seed, fun same => differs ?_⟩
  rw [junk, junk, BUFFER_BYTES_eq, show i + 2084 = 4 * (i / 4 + LFG_K) + i % 4 by
    rw [LFG_K_eq]; omega, stream_byte _ _ lt, streamWord_recurs] at same
  have here : stream (seeded seed) i = stream (seeded seed) (4 * (i / 4) + i % 4) :=
    congrArg _ (Nat.div_add_mod i 4).symm
  rw [here, stream_byte _ _ lt] at same
  refine BitVec.eq_of_getLsbD_eq fun k small => ?_
  have bit := congrArg (BitVec.getLsbD · k) same
  simp only [BitVec.getLsbD_extractLsb', BitVec.getLsbD_xor, decide_eq_true small,
    Bool.true_and] at bit
  rw [BitVec.getLsbD_extractLsb', decide_eq_true small, Bool.true_and]
  refine Eq.trans ?_ BitVec.getLsbD_zero.symm
  have lag : i / 4 + (LFG_K - LFG_J) = i / 4 + 489 := rfl
  rw [lag] at bit
  cases h : (streamWord (seeded seed) (i / 4 + 489)).getLsbD (8 * (i % 4) + k) with
  | false => rfl
  | true =>
      rw [h] at bit
      cases h' : (streamWord (seeded seed) (i / 4)).getLsbD (8 * (i % 4) + k) <;>
        rw [h'] at bit <;> cases bit

/-! ## The comparison -/

theorem reconstructedBytes_stops (b : Buffer) (i : Nat) (data : List Byte) :
    reconstructedBytes (after b i) data = data.length ∨
      data[reconstructedBytes (after b i) data]? ≠
        some (stream b (i + reconstructedBytes (after b i) data)) := by
  induction data generalizing i with
  | nil => exact .inl rfl
  | cons x data ih =>
      unfold reconstructedBytes
      rw [getByte_after]
      split
      · next same =>
        refine (ih (i + 1)).imp (congrArg Nat.succ) fun differs => ?_
        rw [List.getElem?_cons_succ, ← Nat.add_assoc, Nat.add_right_comm i _ 1]
        exact differs
      · next differs => exact .inr fun same => differs (Option.some.inj same).symm

theorem getElem?_output (b : Buffer) (i : Nat) {n size : Nat} (lt : n < size) :
    (output b i size)[n]? = some (stream b (i + n)) := by
  rw [output, List.getElem?_map, List.getElem?_range' lt, Option.map_some, Nat.one_mul]

theorem length_output (b : Buffer) (i size : Nat) : (output b i size).length = size := by
  rw [output, List.length_map, List.length_range']

theorem reconstructedBytes_output (b : Buffer) (i size : Nat) :
    reconstructedBytes (after b i) (output b i size) = size := by
  obtain ⟨le, -⟩ := reconstructedBytes_spec b i (output b i size)
  rw [length_output] at le
  rcases reconstructedBytes_stops b i (output b i size) with all | differs
  · rw [all, length_output]
  · rcases Nat.lt_or_eq_of_le le with lt | all
    · exact absurd (getElem?_output b i lt) differs
    · exact all

/-! ## Calls of `GetSeed` -/

theorem readWord_drop (data : List Byte) (position i : Nat) :
    readWord data (position + i) = readWord (data.drop position) i := by
  rw [readWord, readWord, List.drop_drop]

theorem allLookGenerated_drop (data : List Byte) (position i n : Nat) :
    allLookGenerated data (position + i) n = allLookGenerated (data.drop position) i n := by
  induction n generalizing i with
  | zero => rfl
  | succ n ih => rw [allLookGenerated, allLookGenerated, readWord_drop, Nat.add_assoc, ih]

theorem getSeedWords_drop (data : List Byte) (position i size data_offset : Nat) :
    getSeedWords data (position + i) size data_offset =
      getSeedWords (data.drop position) i size data_offset := by
  unfold getSeedWords copyWords
  simp only [allLookGenerated_drop, Nat.add_assoc, readWord_drop]

/-- How many bytes `GetSeed` skips to come to a whole word. -/
def bytesToSkip (data_offset : Nat) : Nat := alignUp data_offset 4 - data_offset

/-- The whole words that are left. -/
def wholeWords (size data_offset : Nat) : Nat := (size - bytesToSkip data_offset) / 4

theorem alignUp_eq (data_offset : Nat) :
    data_offset ≤ alignUp data_offset 4 ∧ alignUp data_offset 4 % 4 = 0 := by
  unfold alignUp
  omega

/-- What a call returns for output of the generator. -/
theorem getSeed_output {input : List Byte} {position size data_offset : Nat}
    (aligned : position % 4 = data_offset % 4) (small : size < 2 ^ 64)
    (enough : LFG_K ≤ wholeWords size data_offset) (seed : Seed)
    (generated : input.drop position = output (seeded seed) data_offset size) :
    ∃ seed', getSeed input position size data_offset = .ok (reconstructedBytes
      ⟨forward^[alignUp data_offset 4 / BUFFER_BYTES] (seeded seed), data_offset % BUFFER_BYTES⟩
      (output (seeded seed) data_offset size), some seed') := by
  obtain ⟨seed', found⟩ := reinitialize_output seed
  obtain ⟨b, -, -, same⟩ := seeded_initialized seed
  obtain ⟨le, multiple⟩ := alignUp_eq data_offset
  have looks : ∀ i < LFG_K, looksGenerated (word (seeded seed) i) = true := by
    rw [same]
    refine looksGenerated_iterate 4 fun i lt => ?_
    rw [word_map _ _ lt]
    exact looksGenerated_outputWord _
  have length : (output (seeded seed) data_offset size).take size =
      output (seeded seed) data_offset size :=
    List.take_of_length_le (Nat.le_of_eq (length_output _ _ _))
  have K := LFG_K_eq
  have skip : data_offset + bytesToSkip data_offset = alignUp data_offset 4 :=
    Nat.add_sub_cancel' le
  have words : (size + 2 ^ 64 - bytesToSkip data_offset) % 2 ^ 64 / 4 =
      wholeWords size data_offset := by
    unfold wholeWords at enough ⊢
    omega
  have group : alignUp data_offset 4 / 4 / LFG_K = alignUp data_offset 4 / BUFFER_BYTES := by
    rw [Nat.div_div_eq_div_mul, Nat.mul_comm]
    rfl
  have call := @getSeedWords_output _ looks data_offset size (bytesToSkip data_offset)
    (wholeWords size data_offset) enough (by unfold wholeWords at enough ⊢; omega)
    (by rw [skip, multiple])
  rw [skip, group] at call
  refine ⟨seed', ?_⟩
  rw [getSeed, if_neg (not_not_intro aligned)]
  show (getSeedWords input (position + bytesToSkip data_offset)
    ((size + 2 ^ 64 - bytesToSkip data_offset) % 2 ^ 64 / 4)
    ((data_offset + bytesToSkip data_offset) / 4) >>= _) = _
  rw [words, skip, getSeedWords_drop, generated, call, found, Option.map_some]
  simp only [bind, Except.bind, length]

/-- What is promised of a call for the `size` bytes of the input from `position` on: it reads
nothing else; the bytes it counts, and no more, are the ones that its seed puts out; and it counts
all of them when the generator put them out and enough whole words are among them. -/
structure Exact (input : List Byte) (position size data_offset : Nat) : Prop where
  inside : ∃ r, getSeed input position size data_offset = .ok r
  sound : ∀ n seed, getSeed input position size data_offset = .ok (n, seed) → 0 < n →
    ∃ s, seed = some s ∧ (∀ j < n, input[position + j]? = some (junk s (data_offset + j))) ∧
      (n = size ∨ input[position + n]? ≠ some (junk s (data_offset + n)))
  complete : position % 4 = data_offset % 4 → LFG_K ≤ wholeWords size data_offset → ∀ seed,
    (∀ j < size, input[position + j]? = some (junk seed (data_offset + j))) →
      ∃ seed', getSeed input position size data_offset = .ok (size, seed')

theorem drop_eq_output {input : List Byte} {position size data_offset : Nat} {seed : Seed}
    (length : input.length = position + size)
    (generated : ∀ j < size, input[position + j]? = some (junk seed (data_offset + j))) :
    input.drop position = output (seeded seed) data_offset size := by
  refine List.ext_getElem? fun j => ?_
  rw [List.getElem?_drop]
  rcases Nat.lt_or_ge j size with lt | ge
  · rw [generated j lt, getElem?_output _ _ lt]
    rfl
  · rw [List.getElem?_eq_none (by omega), List.getElem?_eq_none (by rw [length_output]; exact ge)]

/-- With few words nothing is found. -/
theorem getSeed_few {input : List Byte} {position size data_offset n : Nat} {seed : Option Seed}
    (returned : getSeed input position size data_offset = .ok (n, seed))
    (skips : bytesToSkip data_offset ≤ size) (small : size < 2 ^ 64)
    (few : wholeWords size data_offset < LFG_K) : n = 0 := by
  have words : (size + 2 ^ 64 - bytesToSkip data_offset) % 2 ^ 64 / 4 =
      wholeWords size data_offset := by
    unfold wholeWords
    omega
  unfold getSeed at returned
  split at returned
  · cases returned
    rfl
  · obtain ⟨found, call, rest⟩ := bind_eq_ok.mp returned
    rw [← bytesToSkip, words, getSeedWords, if_pos few] at call
    cases call
    cases rest
    rfl

theorem exact_of {input : List Byte} {position size data_offset : Nat}
    (length : input.length = position + size) (small : size < 2 ^ 64)
    (skips : bytesToSkip data_offset ≤ size)
    (group : SameGroup data_offset ∨ wholeWords size data_offset < LFG_K) :
    Exact input position size data_offset := by
  refine ⟨getSeed_total skips (Nat.le_of_eq length.symm) small, fun n seed returned positive => ?_,
    fun aligned enough seed generated => ?_⟩
  · rcases group with group | few
    · obtain ⟨s, rfl, equal⟩ := getSeed_generates returned group positive
      refine ⟨s, rfl, equal, ?_⟩
      obtain rfl | ⟨s', same, count⟩ := getSeed_ok returned
      · omega
      · cases same
        rw [group] at count
        have stops := reconstructedBytes_stops (seeded s) data_offset
          ((input.drop position).take size)
        rw [after, ← count, List.length_take, List.length_drop, length, Nat.add_sub_cancel_left,
          Nat.min_self] at stops
        refine stops.imp_right fun differs => ?_
        have le := getSeed_le returned
        rcases Nat.lt_or_eq_of_le le with lt | all
        · rw [List.getElem?_take_of_lt lt, List.getElem?_drop] at differs
          exact differs
        · intro same
          rw [List.getElem?_eq_none (by omega)] at same
          cases same
    · exact absurd (getSeed_few returned skips small few) (by omega)
  · obtain ⟨seed', returned⟩ := getSeed_output aligned small enough seed
      (drop_eq_output length generated)
    rcases group with group | few
    · rw [group] at returned
      exact ⟨_, returned.trans (by rw [← after, reconstructedBytes_output])⟩
    · omega

/-- Behind the last whole word of a group `GetSeed` goes on with the next one: for some seed it
finds none of what the generator put out. -/
theorem exists_not_exact {position size data_offset : Nat}
    (aligned : position % 4 = data_offset % 4) (small : size < 2 ^ 64)
    (enough : LFG_K ≤ wholeWords size data_offset) (other : ¬ SameGroup data_offset) :
    ∃ input : List Byte, input.length = position + size ∧
      ¬ Exact input position size data_offset := by
  obtain ⟨seed, differs⟩ := exists_group_ne data_offset
  have length : (List.replicate position (0 : Byte)).length = position := List.length_replicate
  refine ⟨List.replicate position 0 ++ output (seeded seed) data_offset size,
    by rw [List.length_append, length, length_output], fun exact => ?_⟩
  have dropped : (List.replicate position 0 ++
      output (seeded seed) data_offset size).drop position =
      output (seeded seed) data_offset size := List.drop_left' length
  obtain ⟨seed', returned⟩ := getSeed_output aligned small enough seed dropped
  obtain ⟨seed'', all⟩ := exact.complete aligned enough seed fun j lt => by
    rw [← List.getElem?_drop, dropped, getElem?_output _ _ lt]
    rfl
  have none : reconstructedBytes ⟨forward^[alignUp data_offset 4 / BUFFER_BYTES] (seeded seed),
      data_offset % BUFFER_BYTES⟩ (output (seeded seed) data_offset size) = 0 := by
    have later : (⟨forward^[alignUp data_offset 4 / BUFFER_BYTES] (seeded seed),
        data_offset % BUFFER_BYTES⟩ : LaggedFibonacciGenerator) =
          after (seeded seed) (data_offset + BUFFER_BYTES) := by
      have group : alignUp data_offset 4 / BUFFER_BYTES =
          (data_offset + BUFFER_BYTES) / BUFFER_BYTES := by
        rw [Nat.add_div_right _ (by decide)]
        unfold SameGroup at other
        rw [BUFFER_BYTES_eq] at other ⊢
        unfold alignUp at other ⊢
        omega
      rw [after, group, Nat.add_mod_right]
    obtain ⟨n, rfl⟩ : ∃ n, size = n + 1 :=
      ⟨size - 1, by unfold wholeWords at enough; rw [LFG_K_eq] at enough; omega⟩
    rw [later, output, List.range'_succ, List.map_cons, reconstructedBytes, getByte_after]
    exact if_neg differs
  rw [none, all] at returned
  have sizes : size = 0 := congrArg Prod.fst (Except.ok.inj returned)
  unfold wholeWords at enough
  rw [LFG_K_eq] at enough
  omega

/-- `GetSeed` is exact on every input of a length at an offset when it is not shorter than the
bytes skipped to come to a whole word, and these belong to the group of that word or there are too
few words anyway; and on no other aligned input of that length at that offset. -/
theorem exact_iff (position size data_offset : Nat) (small : size < 2 ^ 64) :
    (∀ input : List Byte, input.length = position + size →
      Exact input position size data_offset) ↔
    (position % 4 = data_offset % 4 → bytesToSkip data_offset ≤ size ∧
      (SameGroup data_offset ∨ wholeWords size data_offset < LFG_K)) := by
  constructor
  · intro exact aligned
    have skips : bytesToSkip data_offset ≤ size := by
      by_contra short
      obtain ⟨r, returned⟩ := (exact (List.replicate (position + size) 0)
        List.length_replicate).inside
      rw [getSeed_error (Nat.lt_of_not_le short) List.length_replicate.symm aligned] at returned
      cases returned
    refine ⟨skips, ?_⟩
    by_contra fails
    rw [not_or, Nat.not_lt] at fails
    obtain ⟨input, length, bad⟩ := exists_not_exact aligned small fails.2 fails.1
    exact bad (exact input length)
  · intro condition input length
    by_cases aligned : position % 4 = data_offset % 4
    · exact exact_of length small (condition aligned).1 (condition aligned).2
    · have zero : getSeed input position size data_offset = .ok (0, none) := by
        rw [getSeed, if_pos aligned]
      refine ⟨⟨_, zero⟩, fun n seed returned positive => ?_, fun same => absurd same aligned⟩
      rw [zero] at returned
      cases returned
      omega

/-- At the start of the stream there is nothing to skip. -/
theorem exact_at_start : Exact (List.replicate 2084 0) 0 2084 0 :=
  (exact_iff 0 2084 0 (by decide)).mpr (fun _ => ⟨by decide, .inl rfl⟩) _ List.length_replicate

/-- Two bytes at an offset where three are skipped, and a group of words behind its last whole
word. -/
theorem getSeed_inexact : ¬ Exact [0, 0, 0] 1 2 1 ∧
    ∃ input : List Byte, input.length = 1 + 2087 ∧ ¬ Exact input 1 2087 2081 := by
  constructor
  · intro exact
    obtain ⟨r, returned⟩ := exact.inside
    rw [getSeed_error (by decide) rfl rfl] at returned
    cases returned
  · exact exists_not_exact rfl (by decide) (by decide) (by unfold SameGroup; decide)

end Phocoena.DiscIO.LaggedFibonacciGenerator
