import Phocoena.DiscIO.JunkData

/-! # Recovery of the seed

`GetSeed` on the output of the generator. The loops of `Forward` and `Backward` are inverse, also
where only a first part of the buffer has gone forward; the bits the output drops are computed
again from the words around them; so the buffer that `Initialize` left is found again, except for
two bits of the first word that no output depends on.
-/

namespace Phocoena.DiscIO.LaggedFibonacciGenerator

theorem LFG_K_eq : LFG_K = 521 := rfl

theorem LFG_J_eq : LFG_J = 32 := rfl

/-! ## The loops of the generator -/

theorem word_xorAssign (b : Buffer) {i : Nat} (j k : Nat) (lt : i < LFG_K) :
    word (xorAssign b i j) k = if k = i then word b i ^^^ word b j else word b k :=
  word_setIfInBounds b i k _ lt

section
variable {b : Buffer} {source : Nat → Nat} {stop : Nat}

/-- A loop upwards, in which each word takes a word that the loop is done with or does not
reach. -/
theorem word_xorAssigns {start n : Nat} (le : start + n ≤ stop) (inside : stop ≤ LFG_K)
    (reads : ∀ i, start ≤ i → i < stop → source i < i ∨ stop ≤ source i) (i : Nat) :
    word ((List.range' start n).foldl (fun b i => xorAssign b i (source i)) b) i =
      if start ≤ i ∧ i < start + n then word b i ^^^
        word ((List.range' start n).foldl (fun b i => xorAssign b i (source i)) b) (source i)
      else word b i := by
  induction n generalizing i with
  | zero => rw [if_neg (by omega)]; rfl
  | succ n ih =>
      have before := ih (by omega)
      rw [List.range'_1_concat, List.foldl_append, List.foldl_cons, List.foldl_nil]
      generalize (List.range' start n).foldl (fun b i => xorAssign b i (source i)) b = c at *
      have lt : start + n < LFG_K := by omega
      have last := reads (start + n) (by omega) (by omega)
      rw [word_xorAssign c _ _ lt, word_xorAssign c _ _ lt]
      by_cases here : i = start + n
      · subst here
        rw [if_pos rfl, if_pos (by omega), if_neg (by omega), before (start + n), if_neg (by omega)]
      · rw [if_neg here, before i]
        split
        · next done =>
          have read := reads i done.1 (by omega)
          rw [if_pos (by omega), if_neg (by omega)]
        · rw [if_neg (by omega)]

/-- A loop downwards, in which each word takes a word the loop has not changed. -/
theorem word_xorAssigns_reverse {start n : Nat} (le : start + n ≤ stop) (inside : stop ≤ LFG_K)
    (reads : ∀ i, start ≤ i → i < stop → source i < i ∨ stop ≤ source i) (i : Nat) :
    word ((List.range' start n).reverse.foldl (fun b i => xorAssign b i (source i)) b) i =
      if start ≤ i ∧ i < start + n then word b i ^^^ word b (source i) else word b i := by
  induction n generalizing start i with
  | zero => rw [if_neg (by omega)]; rfl
  | succ n ih =>
      have before := @ih (start + 1) (by omega) fun i lo hi => reads i (by omega) hi
      rw [List.range'_succ, List.reverse_cons, List.foldl_append, List.foldl_cons, List.foldl_nil]
      generalize (List.range' (start + 1) n).reverse.foldl
        (fun b i => xorAssign b i (source i)) b = c at *
      have last := reads start (by omega) (by omega)
      rw [word_xorAssign c _ _ (by omega)]
      by_cases here : i = start
      · subst here
        rw [if_pos rfl, if_pos (by omega), before i, if_neg (by omega), before (source i),
          if_neg (by omega)]
      · rw [if_neg here, before i]
        split
        · rw [if_pos (by omega)]
        · rw [if_neg (by omega)]

end

/-- The recurrence of the generator. -/
theorem word_forward (b : Buffer) {i : Nat} (lt : i < LFG_K) :
    word (forward b) i = word b i ^^^
      if i < LFG_J then word b (i + (LFG_K - LFG_J)) else word (forward b) (i - LFG_J) := by
  have K := LFG_K_eq
  have J := LFG_J_eq
  have low := @word_xorAssigns b (fun i => i + LFG_K - LFG_J) LFG_J 0 LFG_J (by omega) (by omega)
    (by intro i _ _; omega)
  rw [forward, List.range_eq_range']
  generalize (List.range' 0 LFG_J).foldl (fun b i => xorAssign b i (i + LFG_K - LFG_J)) b = c at *
  have high := @word_xorAssigns c (fun i => i - LFG_J) LFG_K LFG_J (LFG_K - LFG_J) (by omega)
    (by omega) (by intro i _ _; omega)
  generalize (List.range' LFG_J (LFG_K - LFG_J)).foldl
    (fun b i => xorAssign b i (i - LFG_J)) c = d at *
  by_cases first : i < LFG_J
  · rw [if_pos first, high i, if_neg (by omega), low i, if_pos (by omega), low (i + LFG_K - LFG_J),
      if_neg (by omega), Nat.add_sub_assoc (by omega)]
  · rw [if_neg first, high i, if_pos (by omega), low i, if_neg (by omega)]

/-- `Backward` takes back the part of the buffer that has gone forward. -/
theorem backward_mixed {b c : Buffer} {stop : Nat} (le : stop ≤ LFG_K)
    (mixed : ∀ i < LFG_K, word c i = if i < stop then word (forward b) i else word b i) :
    backward c 0 stop = b := by
  have K := LFG_K_eq
  have J := LFG_J_eq
  rw [backward, Nat.max_eq_left (Nat.zero_le LFG_J), Nat.min_eq_left le, Nat.sub_zero]
  have high := @word_xorAssigns_reverse c (fun i => i - LFG_J) LFG_K LFG_J (stop - LFG_J)
    (by omega) (by omega) (by intro i _ _; omega)
  generalize (List.range' LFG_J (stop - LFG_J)).reverse.foldl
    (fun b i => xorAssign b i (i - LFG_J)) c = d at *
  have low := @word_xorAssigns_reverse d (fun i => i + LFG_K - LFG_J) LFG_J 0 (min stop LFG_J)
    (by omega) (by omega) (by intro i _ _; omega)
  refine buffer_ext fun i lt => ?_
  have restored : ∀ j, LFG_J ≤ j → j < LFG_K → word d j = word b j := by
    intro j ge lt
    rw [high, mixed j lt]
    split
    · next within =>
      rw [if_pos (by omega), mixed (j - LFG_J) (by omega), if_pos (by omega),
        word_forward b lt, if_neg (by omega), BitVec.xor_assoc, BitVec.xor_self, BitVec.xor_zero]
    · rw [if_neg (by omega)]
  rw [low]
  split
  · next within =>
    rw [high, if_neg (by omega), mixed i lt, if_pos (by omega), restored _ (by omega) (by omega),
      word_forward b lt, if_pos (by omega), Nat.add_sub_assoc (by omega), BitVec.xor_assoc,
      BitVec.xor_self, BitVec.xor_zero]
  · by_cases ge : LFG_J ≤ i
    · exact restored i ge lt
    · rw [high, if_neg (by omega), mixed i lt, if_neg (by omega)]

theorem backward_forward (b : Buffer) : backward (forward b) 0 LFG_K = b :=
  backward_mixed (Nat.le_refl _) fun _ lt => (if_pos lt).symm

theorem backward_iterate (b : Buffer) (n : Nat) :
    (fun b => backward b 0 LFG_K)^[n] (forward^[n] b) = b :=
  @Function.LeftInverse.iterate _ forward (fun b => backward b 0 LFG_K) backward_forward n b

/-! ## The words of the stream -/

/-- Word `n` of the output. -/
def streamWord (b : Buffer) (n : Nat) : BitVec 32 := word (forward^[n / LFG_K] b) (n % LFG_K)

theorem stream_byte (b : Buffer) (n : Nat) {j : Nat} (lt : j < 4) :
    stream b (4 * n + j) = (streamWord b n).extractLsb' (8 * j) 8 := by
  rw [stream, streamWord, byteAt, BUFFER_BYTES_eq, LFG_K_eq]
  rw [show (4 * n + j) / 2084 = n / 521 by omega,
    show (4 * n + j) % 2084 / 4 = n % 521 by omega, show (4 * n + j) % 2084 % 4 = j by omega]

/-- The output of the generator from `data_offset` on. -/
def output (b : Buffer) (data_offset size : Nat) : List Byte :=
  (List.range' data_offset size).map (stream b)

theorem encode_le32 (x : BitVec 32) : Codec.le32.encode x =
    [x.extractLsb' 0 8, x.extractLsb' 8 8, x.extractLsb' 16 8, x.extractLsb' 24 8] := by
  have nested : ∀ i j, i < 4 → j < 4 → i % 2 = 0 → j < 2 →
      (x.extractLsb' (8 * i) 16).extractLsb' (8 * j) 8 = x.extractLsb' (8 * i + 8 * j) 8 := by
    intro i j _ _ _ _
    refine BitVec.eq_of_getLsbD_eq fun k lt => ?_
    simp only [BitVec.getLsbD_extractLsb']
    rw [decide_eq_true (show 8 * j + k < 16 by omega), Bool.true_and, ← Nat.add_assoc]
  have h₀ := nested 0 0 (by decide) (by decide) rfl (by decide)
  have h₁ := nested 0 1 (by decide) (by decide) rfl (by decide)
  have h₂ := nested 2 0 (by decide) (by decide) rfl (by decide)
  have h₃ := nested 2 1 (by decide) (by decide) rfl (by decide)
  show [(x.extractLsb' 0 16).extractLsb' 0 8, (x.extractLsb' 0 16).extractLsb' 8 8,
    (x.extractLsb' 16 16).extractLsb' 0 8, (x.extractLsb' 16 16).extractLsb' 8 8] = _
  rw [h₀, h₁, h₂, h₃]

theorem readWord_output (b : Buffer) {data_offset size i : Nat} (inside : i + 4 ≤ size)
    (aligned : (data_offset + i) % 4 = 0) :
    readWord (output b data_offset size) i = .ok (streamWord b ((data_offset + i) / 4)) := by
  obtain ⟨n, at_⟩ : ∃ n, data_offset + i = 4 * n := ⟨(data_offset + i) / 4, by omega⟩
  obtain ⟨rest, bytes⟩ : ∃ rest, (output b data_offset size).drop i =
      Codec.le32.encode (streamWord b n) ++ rest := by
    obtain ⟨m, left⟩ : ∃ m, size - i = 4 + m := ⟨size - i - 4, by omega⟩
    refine ⟨(List.range' (4 * n + 4) m).map (stream b), ?_⟩
    rw [output, ← List.map_drop, List.drop_range', Nat.mul_one, at_, left, ← List.range'_append_1,
      List.map_append, encode_le32]
    congr 1
    show [stream b (4 * n + 0), stream b (4 * n + 1), stream b (4 * n + 2),
      stream b (4 * n + 3)] = _
    rw [stream_byte b n (by decide), stream_byte b n (by decide), stream_byte b n (by decide),
      stream_byte b n (by decide)]
  rw [readWord, bytes, Codec.decode_encode, at_, Nat.mul_div_cancel_left _ (by decide)]

theorem mapM_eq {α β ε : Type} {f : α → Except ε β} {g : α → β} {l : List α}
    (each : ∀ a ∈ l, f a = .ok (g a)) : l.mapM f = .ok (l.map g) := by
  induction l with
  | nil => rfl
  | cons a l ih =>
      rw [List.mapM_cons, each a (by simp), ih fun c hc => each c (by simp [hc])]
      rfl

theorem streamWord_group (b : Buffer) (d : Nat) {k : Nat} (lt : k < LFG_K) :
    streamWord b (d * LFG_K + k) = word (forward^[d] b) k := by
  rw [LFG_K_eq] at lt
  rw [streamWord, LFG_K_eq, show (d * 521 + k) / 521 = d by omega,
    show (d * 521 + k) % 521 = k by omega]

/-- The copy is a buffer of which the first words have gone forward. -/
theorem copyWords_output (b : Buffer) {data_offset size i : Nat} (inside : i + 4 * LFG_K ≤ size)
    (aligned : (data_offset + i) % 4 = 0) :
    ∃ c, copyWords (output b data_offset size) i ((data_offset + i) / 4 % LFG_K) = .ok c ∧
      backward c 0 ((data_offset + i) / 4 % LFG_K) = forward^[(data_offset + i) / 4 / LFG_K] b := by
  obtain ⟨n, at_⟩ : ∃ n, data_offset + i = 4 * n := ⟨(data_offset + i) / 4, by omega⟩
  have words : (List.range LFG_K).mapM
      (fun k => readWord (output b data_offset size) (i + 4 * k)) =
        .ok ((List.range LFG_K).map fun k => streamWord b (n + k)) := by
    refine mapM_eq fun k hk => ?_
    rw [List.mem_range] at hk
    rw [readWord_output b (by omega) (by omega),
      show (data_offset + (i + 4 * k)) / 4 = n + k by omega]
  rw [at_, Nat.mul_div_cancel_left _ (by decide), copyWords, words]
  refine ⟨_, rfl, backward_mixed (Nat.le_of_lt (Nat.mod_lt _ (by decide))) fun k lt => ?_⟩
  have K := LFG_K_eq
  have parts := Nat.div_add_mod n LFG_K
  have below := Nat.mod_lt n (show 0 < LFG_K by decide)
  have word_at : ∀ j < LFG_K, ((List.range LFG_K).map fun k => streamWord b (n + k)).getD j 0 =
      streamWord b (n + j) := by
    intro j lt
    simp [List.getD, lt]
  rw [word, Vector.getElem?_ofFn, dif_pos lt, Option.getD_some]
  dsimp only
  split
  · next ge =>
    rw [word_at _ (by omega), if_neg (by omega), ← streamWord_group b _ lt]
    refine congrArg (streamWord b) ?_
    rw [Nat.mul_comm]
    omega
  · next before =>
    rw [word_at _ (by omega), if_pos (by omega), ← Function.iterate_succ_apply' forward,
      ← streamWord_group b _ lt]
    refine congrArg (streamWord b) ?_
    rw [Nat.succ_mul, Nat.mul_comm]
    omega

/-! ## Bits of the output -/

theorem swap32_xor (x y : BitVec 32) : swap32 (x ^^^ y) = swap32 x ^^^ swap32 y := by
  apply BitVec.eq_of_getLsbD_eq
  intro i hi
  simp only [swap32, BitVec.getLsbD_append, BitVec.getLsbD_extractLsb', BitVec.getLsbD_xor]
  grind

/-- The bits of a word that are output: 16 and 17 are lost. -/
def outputBits (x : BitVec 32) : BitVec 32 := x &&& 0xFF00FFFF#32 ||| x >>> 2 &&& 0x00FF0000#32

theorem swap32_outputWord (x : BitVec 32) : swap32 (outputWord x) = outputBits x := swap32_swap32 _

theorem getLsbD_outputBits (x : BitVec 32) {i : Nat} (lt : i < 32) :
    (outputBits x).getLsbD i = x.getLsbD (if 16 ≤ i ∧ i < 24 then i + 2 else i) := by
  have keep : ∀ i < 32, (0xFF00FFFF#32).getLsbD i = decide (¬ (16 ≤ i ∧ i < 24)) := by decide
  have move : ∀ i < 32, (0x00FF0000#32).getLsbD i = decide (16 ≤ i ∧ i < 24) := by decide
  simp only [outputBits, BitVec.getLsbD_or, BitVec.getLsbD_and, BitVec.getLsbD_ushiftRight,
    keep i lt, move i lt]
  split
  · next inside => simp [inside, Nat.add_comm]
  · next outside => simp [outside]

theorem outputWord_xor (x y : BitVec 32) :
    outputWord (x ^^^ y) = outputWord x ^^^ outputWord y := by
  have bits : outputBits (x ^^^ y) = outputBits x ^^^ outputBits y := by
    refine BitVec.eq_of_getLsbD_eq fun i lt => ?_
    simp only [BitVec.getLsbD_xor, getLsbD_outputBits _ lt]
  show swap32 (outputBits (x ^^^ y)) = swap32 (outputBits x) ^^^ swap32 (outputBits y)
  rw [bits, swap32_xor]

theorem looksGenerated_iff (x : BitVec 32) : looksGenerated x = true ↔
    (swap32 x).getLsbD 22 = (swap32 x).getLsbD 24 ∧
      (swap32 x).getLsbD 23 = (swap32 x).getLsbD 25 := by
  have mask : ∀ i < 32, (0x00C00000#32).getLsbD i = decide (i = 22 ∨ i = 23) := by decide
  rw [looksGenerated, beq_iff_eq]
  constructor
  · intro same
    have at22 := congrArg (BitVec.getLsbD · 22) same
    have at23 := congrArg (BitVec.getLsbD · 23) same
    simpa [mask 22 (by decide), mask 23 (by decide)] using And.intro at22 at23
  · rintro ⟨at22, at23⟩
    refine BitVec.eq_of_getLsbD_eq fun i lt => ?_
    simp only [BitVec.getLsbD_and, BitVec.getLsbD_ushiftRight, mask i lt]
    rcases Decidable.em (i = 22 ∨ i = 23) with (rfl | rfl) | other
    · rw [at22]
    · rw [at23]
    · simp [other]

theorem looksGenerated_outputWord (x : BitVec 32) : looksGenerated (outputWord x) = true := by
  rw [looksGenerated_iff, swap32_outputWord]
  constructor <;> rw [getLsbD_outputBits _ (by decide), getLsbD_outputBits _ (by decide)] <;> rfl

theorem looksGenerated_xor {x y : BitVec 32} (hx : looksGenerated x = true)
    (hy : looksGenerated y = true) : looksGenerated (x ^^^ y) = true := by
  rw [looksGenerated_iff] at *
  rw [swap32_xor]
  simp only [BitVec.getLsbD_xor, hx, hy, and_self]

theorem looksGenerated_forward {b : Buffer}
    (looks : ∀ i < LFG_K, looksGenerated (word b i) = true) :
    ∀ i < LFG_K, looksGenerated (word (forward b) i) = true := by
  have K := LFG_K_eq
  have J := LFG_J_eq
  intro i
  induction i using Nat.strongRecOn with
  | ind i ih =>
      intro lt
      rw [word_forward b lt]
      split
      · exact looksGenerated_xor (looks i lt) (looks _ (by omega))
      · exact looksGenerated_xor (looks i lt) (ih _ (by omega) (by omega))

theorem looksGenerated_iterate {b : Buffer} (n : Nat)
    (looks : ∀ i < LFG_K, looksGenerated (word b i) = true) :
    ∀ i < LFG_K, looksGenerated (word (forward^[n] b) i) = true := by
  induction n with
  | zero => exact looks
  | succ n ih =>
      rw [Function.iterate_succ_apply']
      exact looksGenerated_forward ih

theorem allLookGenerated_output {b : Buffer} (looks : ∀ i < LFG_K, looksGenerated (word b i) = true)
    {data_offset size i n : Nat} (inside : i + 4 * n ≤ size) (aligned : (data_offset + i) % 4 = 0) :
    allLookGenerated (output b data_offset size) i n = .ok true := by
  induction n generalizing i with
  | zero => rfl
  | succ n ih =>
      have fits : looksGenerated (streamWord b ((data_offset + i) / 4)) = true :=
        looksGenerated_iterate _ looks _ (Nat.mod_lt _ (by decide))
      rw [allLookGenerated, readWord_output b (by omega) aligned]
      simp only [bind, Except.bind, fits, if_true]
      exact ih (by omega) (by omega)

/-- `GetSeed` of words that the generator put out comes back to the buffer it started with. -/
theorem getSeedWords_output {b : Buffer} (looks : ∀ i < LFG_K, looksGenerated (word b i) = true)
    {data_offset size i words : Nat} (enough : LFG_K ≤ words) (inside : i + 4 * words ≤ size)
    (aligned : (data_offset + i) % 4 = 0) :
    getSeedWords (output b data_offset size) i words ((data_offset + i) / 4) =
      .ok (( reinitialize b).map fun p =>
        (forward^[(data_offset + i) / 4 / LFG_K] p.1, p.2)) := by
  obtain ⟨c, copied, back⟩ := copyWords_output b (show i + 4 * LFG_K ≤ size by omega) aligned
  rw [getSeedWords, if_neg (by omega), allLookGenerated_output looks (by omega) aligned]
  simp only [bind, Except.bind, if_true]
  rw [copied]
  dsimp only
  rw [back, backward_iterate]

/-! ## Initialization from the output -/

/-- Every word behind the seed is calculated from the ones before it. -/
def Initialized (b : Buffer) : Prop := ∀ i, SEED_SIZE ≤ i → i < LFG_K →
  word b i = word b (i - 17) <<< 23 ^^^ word b (i - 16) >>> 9 ^^^ word b (i - 1)

theorem initializeWords_initialized {b c : Buffer} {n : Nat} (le : SEED_SIZE + n ≤ LFG_K)
    (done : (List.range' SEED_SIZE n).foldlM (initializeWord false) b = some c) :
    (∀ i, i < SEED_SIZE ∨ SEED_SIZE + n ≤ i → word c i = word b i) ∧
      ∀ i, SEED_SIZE ≤ i → i < SEED_SIZE + n →
        word c i = word c (i - 17) <<< 23 ^^^ word c (i - 16) >>> 9 ^^^ word c (i - 1) := by
  have S : SEED_SIZE = 17 := rfl
  induction n generalizing c with
  | zero =>
      cases done
      exact ⟨fun _ _ => rfl, fun i lo hi => by omega⟩
  | succ n ih =>
      rw [List.range'_1_concat, List.foldlM_append] at done
      obtain ⟨d, before, last⟩ := Option.bind_eq_some_iff.mp done
      obtain ⟨outside, calculated⟩ := ih (by omega) before
      have step : initializeWord false d (SEED_SIZE + n) = some c := by
        simpa using last
      have set : ∀ j, word c j = if j = SEED_SIZE + n then _ else word d j := fun j => by
        rw [initializeWord_spec step]
        exact word_setIfInBounds d (SEED_SIZE + n) j _ (by omega)
      refine ⟨fun i hi => ?_, fun i lo hi => ?_⟩
      · rw [set i, if_neg (by omega), outside i (by omega)]
      · rw [set (i - 17), set (i - 16), set (i - 1), if_neg (by omega), if_neg (by omega),
          if_neg (by omega), set i]
        split
        · next same => rw [same]
        · exact calculated i lo (by omega)

theorem seeded_initialized (seed : Seed) : ∃ b : Buffer, Initialized b ∧
    (∀ i < SEED_SIZE, word b i = swap32 (seed[i]?.getD 0)) ∧
    seeded seed = forward^[4] (b.map outputWord) := by
  rw [seeded, setSeed]
  dsimp only
  obtain ⟨c, done⟩ := initializeBuffer_false ((List.range SEED_SIZE).foldl
    (fun b i => b.setIfInBounds i (swap32 (seed[i]?.getD 0))) (Vector.replicate _ 0))
  rw [done, Option.getD_some]
  obtain ⟨b, words, rfl⟩ := Option.map_eq_some_iff.mp done
  obtain ⟨outside, calculated⟩ := initializeWords_initialized (by decide) words
  refine ⟨b, calculated, fun i lt => ?_, rfl⟩
  rw [outside i (.inl lt), word_setSeedWords _ _ (by decide) lt]

theorem word_map (f : BitVec 32 → BitVec 32) (b : Buffer) {i : Nat} (lt : i < LFG_K) :
    word (b.map f) i = f (word b i) := by
  simp [word, lt]

/-- The bits other than 16 and 17 are the same. -/
def Near (x y : BitVec 32) : Prop := ∀ k, k ≠ 16 → k ≠ 17 → x.getLsbD k = y.getLsbD k

theorem Near.outputWord {x y : BitVec 32} (near : Near x y) : outputWord x = outputWord y := by
  refine congrArg swap32 (show outputBits x = outputBits y from ?_)
  refine BitVec.eq_of_getLsbD_eq fun i lt => ?_
  rw [getLsbD_outputBits _ lt, getLsbD_outputBits _ lt]
  exact near _ (by split <;> omega) (by split <;> omega)

theorem Near.shiftLeft {x y : BitVec 32} (near : Near x y) : x <<< 23 = y <<< 23 := by
  refine BitVec.eq_of_getLsbD_eq fun i lt => ?_
  simp only [BitVec.getLsbD_shiftLeft]
  rw [near (i - 23) (by omega) (by omega)]

/-- What the output keeps of a word. -/
theorem kept_outputBits (x : BitVec 32) :
    outputBits x &&& 0xFF00FFFF#32 ||| outputBits x <<< 2 &&& 0x00FC0000#32 =
      x &&& 0xFFFCFFFF#32 := by
  have low : ∀ i < 32, (0xFF00FFFF#32).getLsbD i = decide (¬ (16 ≤ i ∧ i < 24)) := by decide
  have high : ∀ i < 32, (0x00FC0000#32).getLsbD i = decide (18 ≤ i ∧ i < 24) := by decide
  have all : ∀ i < 32, (0xFFFCFFFF#32).getLsbD i = decide (i ≠ 16 ∧ i ≠ 17) := by decide
  refine BitVec.eq_of_getLsbD_eq fun i lt => ?_
  simp only [BitVec.getLsbD_or, BitVec.getLsbD_and, BitVec.getLsbD_shiftLeft, low i lt, high i lt,
    all i lt, getLsbD_outputBits x lt, getLsbD_outputBits x (show i - 2 < 32 by omega)]
  by_cases inside : 16 ≤ i ∧ i < 24
  · by_cases lost : i < 18
    · rw [decide_eq_false (not_not.mpr inside), decide_eq_false (show ¬ (18 ≤ i ∧ i < 24) by omega),
        decide_eq_false (show ¬ (i ≠ 16 ∧ i ≠ 17) by omega)]
      simp
    · rw [decide_eq_false (not_not.mpr inside), decide_eq_true (show 18 ≤ i ∧ i < 24 by omega),
        decide_eq_true (show i ≠ 16 ∧ i ≠ 17 by omega),
        if_pos (show 16 ≤ i - 2 ∧ i - 2 < 24 by omega), show i - 2 + 2 = i by omega]
      simp [lt, show ¬ i < 2 by omega]
  · rw [if_neg inside, decide_eq_true inside, decide_eq_false (show ¬ (18 ≤ i ∧ i < 24) by omega),
      decide_eq_true (show i ≠ 16 ∧ i ≠ 17 by omega)]
    simp

theorem word_reconstructSeed (b : Buffer) (i : Nat) : word (reconstructSeed b) i =
    if i < SEED_SIZE then word b i &&& 0xFF00FFFF#32 ||| word b i <<< 2 &&& 0x00FC0000#32 |||
      (word b (i + 16) ^^^ word b (i + 15)) <<< 9 &&& 0x00030000#32 else word b i := by
  have all : ∀ n ≤ SEED_SIZE, ∀ i, word ((List.range n).foldl (fun b i => b.setIfInBounds i
      (word b i &&& 0xFF00FFFF#32 ||| word b i <<< 2 &&& 0x00FC0000#32 |||
        (word b (i + 16) ^^^ word b (i + 15)) <<< 9 &&& 0x00030000#32)) b) i =
      if i < n then word b i &&& 0xFF00FFFF#32 ||| word b i <<< 2 &&& 0x00FC0000#32 |||
        (word b (i + 16) ^^^ word b (i + 15)) <<< 9 &&& 0x00030000#32 else word b i := by
    have S : SEED_SIZE = 17 := rfl
    have K := LFG_K_eq
    intro n le
    induction n with
    | zero => exact fun i => (if_neg (Nat.not_lt_zero i)).symm
    | succ n ih =>
        intro i
        have before := ih (by omega)
        rw [List.range_succ, List.foldl_append, List.foldl_cons, List.foldl_nil]
        rw [word_setIfInBounds _ _ _ _ (by omega)]
        by_cases here : i = n
        -- The words it reads have not been changed.
        · rw [if_pos here, if_pos (by omega), before n, if_neg (by omega), before (n + 16),
            if_neg (by omega), before (n + 15), if_neg (by omega), here]
        · rw [if_neg here, before i]
          by_cases done : i < n
          · rw [if_pos done, if_pos (by omega)]
          · rw [if_neg done, if_neg (by omega)]
  exact all SEED_SIZE (Nat.le_refl _) i

/-- The seed reconstructed from the output: only bits 16 and 17 of its first word may differ. -/
theorem reconstructSeed_near {b : Buffer} (init : Initialized b) {i : Nat} (lt : i < SEED_SIZE) :
    Near (word (reconstructSeed (b.map outputBits)) i) (word b i) ∧
      (0 < i → word (reconstructSeed (b.map outputBits)) i = word b i) := by
  have S : SEED_SIZE = 17 := rfl
  have K := LFG_K_eq
  have all : ∀ k < 32, (0xFFFCFFFF#32).getLsbD k = decide (k ≠ 16 ∧ k ≠ 17) := by decide
  have lost : ∀ k < 32, (0x00030000#32).getLsbD k = decide (k = 16 ∨ k = 17) := by decide
  have value : word (reconstructSeed (b.map outputBits)) i = word b i &&& 0xFFFCFFFF#32 |||
      (outputBits (word b (i + 16)) ^^^ outputBits (word b (i + 15))) <<< 9 &&& 0x00030000#32 := by
    rw [word_reconstructSeed, if_pos lt, word_map _ _ (by omega), word_map _ _ (by omega),
      word_map _ _ (by omega), kept_outputBits]
  have near : Near (word (reconstructSeed (b.map outputBits)) i) (word b i) := by
    intro k ne16 ne17
    by_cases small : k < 32
    · rw [value, BitVec.getLsbD_or, BitVec.getLsbD_and, BitVec.getLsbD_and, all k small,
        lost k small, decide_eq_true ⟨ne16, ne17⟩, decide_eq_false (by omega)]
      simp
    · rw [BitVec.getLsbD_of_ge _ _ (by omega), BitVec.getLsbD_of_ge _ _ (by omega)]
  refine ⟨near, fun above => BitVec.eq_of_getLsbD_eq fun k small => ?_⟩
  by_cases missing : k = 16 ∨ k = 17
  · have next := init (i + 16) (by omega) (by omega)
    rw [show i + 16 - 17 = i - 1 by omega, show i + 16 - 16 = i by omega,
      show i + 16 - 1 = i + 15 by omega] at next
    rw [value, BitVec.getLsbD_or, BitVec.getLsbD_and, BitVec.getLsbD_and, all k small, lost k small,
      decide_eq_true missing, decide_eq_false (by omega), BitVec.getLsbD_shiftLeft,
      BitVec.getLsbD_xor, getLsbD_outputBits _ (by omega), getLsbD_outputBits _ (by omega),
      if_neg (by omega), next, BitVec.getLsbD_xor, BitVec.getLsbD_xor, BitVec.getLsbD_shiftLeft,
      BitVec.getLsbD_ushiftRight, decide_eq_true (show k - 9 < 23 by omega),
      show 9 + (k - 9) = k by omega]
    simp [small]
    omega
  · rw [near k (by omega) (by omega)]

/-- The check of the existing data passes on the output, and the words come out as they were. -/
theorem initializeWords_output {b : Buffer} (init : Initialized b) {n : Nat}
    (le : SEED_SIZE + n ≤ LFG_K) :
    ∃ c, (List.range' SEED_SIZE n).foldlM (initializeWord true)
        (reconstructSeed (b.map outputBits)) = some c ∧ Near (word c 0) (word b 0) ∧
      (∀ i, 0 < i → i < SEED_SIZE + n → word c i = word b i) ∧
      ∀ i, SEED_SIZE + n ≤ i → i < LFG_K → word c i = outputBits (word b i) := by
  have S : SEED_SIZE = 17 := rfl
  have K := LFG_K_eq
  induction n with
  | zero =>
      refine ⟨_, rfl, (reconstructSeed_near init (by decide)).1, fun i above lt => ?_,
        fun i ge lt => ?_⟩
      · exact (reconstructSeed_near init lt).2 above
      · rw [word_reconstructSeed, if_neg (by omega), word_map _ _ lt]
  | succ n ih =>
      obtain ⟨c, done, first, before, rest⟩ := ih (by omega)
      have shifted : word c (SEED_SIZE + n - 17) <<< 23 = word b (SEED_SIZE + n - 17) <<< 23 := by
        rcases Nat.eq_zero_or_pos n with rfl | above
        · exact first.shiftLeft
        · rw [before _ (by omega) (by omega)]
      have calculated : word c (SEED_SIZE + n - 17) <<< 23 ^^^ word c (SEED_SIZE + n - 16) >>> 9 ^^^
          word c (SEED_SIZE + n - 1) = word b (SEED_SIZE + n) := by
        rw [shifted, before _ (by omega) (by omega), before _ (by omega) (by omega),
          ← init _ (by omega) (by omega)]
      have step : initializeWord true c (SEED_SIZE + n) =
          some (c.setIfInBounds (SEED_SIZE + n) (word b (SEED_SIZE + n))) := by
        rw [initializeWord, calculated, rest _ (Nat.le_refl _) (by omega), kept_outputBits]
        exact if_neg (fun h => h.2 rfl)
      have set := fun j =>
        word_setIfInBounds c (SEED_SIZE + n) j (word b (SEED_SIZE + n)) (by omega)
      refine ⟨c.setIfInBounds (SEED_SIZE + n) (word b (SEED_SIZE + n)), ?_, ?_,
        fun i above lt => ?_, fun i ge lt => ?_⟩
      · rw [List.range'_1_concat, List.foldlM_append, done]
        simp only [List.foldlM_cons, List.foldlM_nil, Option.bind_eq_bind, Option.bind_some, step]
        rfl
      · rwa [set, if_neg (by omega)]
      · rw [set]
        split
        · next same => rw [same]
        · exact before i above (by omega)
      · rw [set, if_neg (by omega)]
        exact rest i (by omega) lt

/-- `Reinitialize` of the buffer that `SetSeed` left finds a seed, and the same buffer. -/
theorem reinitialize_output (seed : Seed) :
    ∃ seed', reinitialize (seeded seed) = some (seeded seed, seed') := by
  obtain ⟨b, init, -, same⟩ := seeded_initialized seed
  have words : (b.map outputWord).map swap32 = b.map outputBits := by
    refine buffer_ext fun i lt => ?_
    rw [word_map _ _ lt, word_map _ _ lt, word_map _ _ lt, swap32_outputWord]
  obtain ⟨c, done, first, rest, -⟩ :=
    initializeWords_output init (n := LFG_K - SEED_SIZE) (by decide)
  have output : c.map outputWord = b.map outputWord := by
    refine buffer_ext fun i lt => ?_
    rw [word_map _ _ lt, word_map _ _ lt]
    rcases Nat.eq_zero_or_pos i with rfl | above
    · exact first.outputWord
    · rw [rest i above (by rw [Nat.add_sub_cancel' (by decide)]; exact lt)]
  rw [same, reinitialize, backward_iterate, words, initializeBuffer, done, Option.map_some,
    Option.map_some, output]
  exact ⟨_, rfl⟩

end Phocoena.DiscIO.LaggedFibonacciGenerator
