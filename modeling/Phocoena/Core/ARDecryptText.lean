import Phocoena.Core.ARDecrypt
import Mathlib.Data.List.Basic

/-! # The text of an encrypted code

A line is thirteen groups of five bits: the two words, one after the other, and a bit that makes
the number of ones even.
-/

namespace Phocoena.ARDecrypt

open StringUtil

/-! ## The bits of a line -/

/-- The bits of a word, the most significant one first. -/
def wordBits (x : Word) : List Bool := ((List.range 32).map x.getLsbD).reverse

/-- The five bits of the value of a character. -/
def charBits (v : Word) : List Bool :=
  [v.getLsbD 4, v.getLsbD 3, v.getLsbD 2, v.getLsbD 1, v.getLsbD 0]

def lineBits (v : Fin 13 → Word) : List Bool :=
  (List.finRange 13).flatMap fun i => charBits (v i)

theorem popcount_eq (x : Word) : popcount x = (wordBits x).count true := by
  rw [popcount, wordBits, List.count_reverse]

theorem lineWords_bits (y : Fin 13 → BitVec 5) :
    wordBits (lineWords fun i => (y i).setWidth 32).1
      ++ wordBits (lineWords fun i => (y i).setWidth 32).2 ++ [(y 12).getLsbD 0]
      = lineBits fun i => (y i).setWidth 32 := by
  simp only [wordBits, lineWords, lineBits, charBits, List.range_succ, List.range_zero,
    List.nil_append, List.cons_append, List.append_nil, List.map_cons, List.map_nil,
    List.reverse_cons, List.reverse_nil, List.flatMap_cons, List.flatMap_nil, List.finRange,
    List.ofFn_succ, List.ofFn_zero, Fin.reduceSucc, Fin.succ_zero_eq_one, Fin.succ_one_eq_two,
    BitVec.getLsbD_or, BitVec.getLsbD_ushiftRight, BitVec.getLsbD_shiftLeft,
    BitVec.getLsbD_setWidth, BitVec.getLsbD_of_ge, Nat.reduceLT, Nat.reduceLeDiff, Nat.reduceAdd,
    Nat.reduceSub, decide_true, decide_false, Bool.not_true, Bool.not_false, Bool.true_and,
    Bool.false_and, Bool.and_false, Bool.or_false, Bool.false_or]

/-- The value of the character at a place in the alphabet. -/
def placeValue : Nat → Word
  | 32 => 1
  | 33 => 1
  | 34 => 0
  | 35 => 5
  | ret => BitVec.ofNat 32 ret

theorem getVal_eq (chr : UInt8) :
    getVal chr = (alphabet.idxOf? (toUpper chr)).map placeValue := by
  rw [getVal]
  unfold placeValue
  split <;> simp_all

theorem getVal_found {chr : UInt8} {v : Word} (found : getVal chr = some v) :
    ∃ ret < 36, alphabet.getD ret 0 = toUpper chr ∧ placeValue ret = v := by
  rw [getVal_eq] at found
  obtain ⟨ret, place, value⟩ := Option.map_eq_some_iff.mp found
  obtain ⟨inside, own, -⟩ := List.idxOf?_eq_some_iff.mp place
  refine ⟨ret, inside, ?_, value⟩
  rw [List.getD_eq_getElem?_getD, List.getElem?_eq_getElem inside, own, Option.getD_some]

theorem getVal_small {chr : UInt8} {v : Word} (found : getVal chr = some v) : v.toNat < 32 := by
  have table : ∀ ret < 36, (placeValue ret).toNat < 32 := by decide
  obtain ⟨ret, inside, -, rfl⟩ := getVal_found found
  exact table ret inside

/-- All characters of the line are in the alphabet. -/
def Over (line : EncryptedLine) : Prop := ∀ chr ∈ line.toList, (getVal chr).isSome = true

/-- The value of a character of the line. -/
def valueAt (line : EncryptedLine) (i : Fin 13) : Word := (getVal (line.get i)).getD 0

theorem valueAt_small (line : EncryptedLine) (i : Fin 13) : (valueAt line i).toNat < 32 := by
  rw [valueAt]
  cases found : getVal (line.get i) with
  | none => decide
  | some v => exact getVal_small found

theorem lineValues_over {line : EncryptedLine} (within : Over line) :
    lineValues line = some (valueAt line) := by
  rw [lineValues, if_pos (List.all_eq_true.mpr within)]
  rfl

theorem lineValues_outside {line : EncryptedLine} (outside : ¬ Over line) :
    lineValues line = none := by
  rw [lineValues, if_neg fun all => outside (List.all_eq_true.mp all)]

/-- The words of a line and its last bit are the bits of its characters. -/
theorem valueAt_bits (line : EncryptedLine) :
    wordBits (lineWords (valueAt line)).1 ++ wordBits (lineWords (valueAt line)).2
      ++ [(valueAt line 12).getLsbD 0] = lineBits (valueAt line) := by
  have narrow : valueAt line = fun i => ((valueAt line i).setWidth 5).setWidth 32 := by
    funext i
    apply BitVec.eq_of_toNat_eq
    have small := valueAt_small line i
    rw [BitVec.toNat_setWidth, BitVec.toNat_setWidth, Nat.mod_eq_of_lt (by omega : _ < 2 ^ 5),
      Nat.mod_eq_of_lt (by omega)]
  have bits := lineWords_bits fun i => (valueAt line i).setWidth 5
  rw [← narrow, BitVec.getLsbD_setWidth, decide_eq_true (by omega), Bool.true_and] at bits
  exact bits

/-! ## The parity -/

/-- The number of ones in a line is even. -/
def CorrectParity (line : EncryptedLine) : Prop :=
  (lineBits (valueAt line)).count true % 2 = 0

theorem count_xor (l m : List Bool) (same : l.length = m.length) :
    (List.zipWith Bool.xor l m).count true % 2 = (l.count true + m.count true) % 2 := by
  induction l generalizing m with
  | nil =>
      obtain rfl := List.length_eq_zero_iff.mp same.symm
      rfl
  | cons b l ih =>
      cases m with
      | nil => exact absurd same (Nat.succ_ne_zero _)
      | cons c m =>
          have rest := ih m (Nat.succ.inj same)
          rw [List.zipWith_cons_cons]
          cases b <;> cases c <;> simp only [Bool.xor, List.count_cons, beq_iff_eq] <;> grind

theorem wordBits_xor (x y : Word) :
    wordBits (x ^^^ y) = List.zipWith Bool.xor (wordBits x) (wordBits y) := by
  rw [wordBits, wordBits, wordBits, ← List.map_reverse, ← List.map_reverse, ← List.map_reverse,
    List.zipWith_map, List.zipWith_self]
  exact List.map_congr_left fun i _ => BitVec.getLsbD_xor

/-- `ConvertAlphaToBinary` compares the parity of the words with the last bit. -/
theorem parityDiffers_iff (line : EncryptedLine) :
    parityDiffers (valueAt line) = true ↔ ¬ CorrectParity line := by
  have last : (valueAt line 12).toNat &&& 1 = ((valueAt line 12).getLsbD 0).toNat := by
    rw [BitVec.getLsbD, Nat.toNat_testBit, Nat.pow_zero, Nat.div_one]
    exact Nat.and_two_pow_sub_one_eq_mod _ 1
  have odd : popcount ((lineWords (valueAt line)).1 ^^^ (lineWords (valueAt line)).2) &&& 1
      = ((wordBits (lineWords (valueAt line)).1).count true
        + (wordBits (lineWords (valueAt line)).2).count true) % 2 := by
    rw [popcount_eq, wordBits_xor, ← count_xor _ _ (by simp [wordBits])]
    exact Nat.and_two_pow_sub_one_eq_mod _ 1
  have total := congrArg (List.count true) (valueAt_bits line)
  rw [List.count_append, List.count_append] at total
  rw [parityDiffers, decide_eq_true_iff, CorrectParity, ← total, odd, last]
  refine not_congr ?_
  cases (valueAt line 12).getLsbD 0 with
  | false => simp
  | true =>
      simp only [Bool.toNat_true, List.count_singleton_self]
      omega

/-! ## The conversion -/

/-- The two words of a line. -/
def wordsOf (line : EncryptedLine) : List Word :=
  [(lineWords (valueAt line)).1, (lineWords (valueAt line)).2]

theorem wordsOf_length (line : EncryptedLine) : (wordsOf line).length = 2 := rfl

/-- A line that stops the conversion is the first one with a character outside the alphabet or a
wrong parity. -/
theorem convertLines_cons (k : Nat) (line : EncryptedLine) (alpha : List EncryptedLine) :
    (Over line → CorrectParity line → convertLines k (line :: alpha)
      = (convertLines (k + 1) alpha).map (wordsOf line ++ ·)) ∧
    (Over line → ¬ CorrectParity line →
      convertLines k (line :: alpha) = .error (.unexpected k)) ∧
    (¬ Over line → convertLines k (line :: alpha) = .error .outside) := by
  refine ⟨fun within correct => ?_, fun within wrong => ?_, fun outside => ?_⟩
  · have same : ¬ parityDiffers (valueAt line) = true := fun differs =>
      (parityDiffers_iff line).mp differs correct
    rw [convertLines, lineValues_over within]
    change (if parityDiffers (valueAt line) = true then _ else _) = _
    rw [if_neg same]
    cases convertLines (k + 1) alpha with
    | ok words => rfl
    | error e => rfl
  · rw [convertLines, lineValues_over within]
    change (if parityDiffers (valueAt line) = true then _ else _) = _
    rw [if_pos ((parityDiffers_iff line).mpr wrong)]
  · rw [convertLines, lineValues_outside outside]

/-- All lines are accepted. -/
theorem convertLines_ok {alpha : List EncryptedLine} {words : List Word} {k : Nat} :
    convertLines k alpha = .ok words ↔
      (∀ line ∈ alpha, Over line ∧ CorrectParity line) ∧ words = alpha.flatMap wordsOf := by
  induction alpha generalizing k words with
  | nil =>
      rw [convertLines, List.flatMap_nil, Except.ok.injEq, eq_comm]
      exact ⟨fun eq => ⟨fun line member => absurd member List.not_mem_nil, eq⟩, And.right⟩
  | cons line alpha ih =>
      obtain ⟨accept, reject, fail⟩ := convertLines_cons k line alpha
      by_cases within : Over line
      swap
      · rw [fail within]
        exact iff_of_false (fun eq => by cases eq) fun all =>
          within (all.1 line List.mem_cons_self).1
      by_cases correct : CorrectParity line
      swap
      · rw [reject within correct]
        exact iff_of_false (fun eq => by cases eq) fun all =>
          correct (all.1 line List.mem_cons_self).2
      rw [accept within correct, List.flatMap_cons]
      constructor
      · intro eq
        cases rest : convertLines (k + 1) alpha with
        | error e => rw [rest] at eq; cases eq
        | ok inner =>
            rw [rest] at eq
            obtain ⟨all, inner_eq⟩ := ih.mp rest
            obtain rfl := Except.ok.inj eq
            refine ⟨fun l member => ?_, by rw [inner_eq]⟩
            cases List.mem_cons.mp member with
            | inl first => rw [first]; exact ⟨within, correct⟩
            | inr behind => exact all l behind
      · rintro ⟨all, rfl⟩
        rw [ih.mpr ⟨fun l member => all l (List.mem_cons_of_mem line member), rfl⟩]
        rfl

/-- A wrong parity is found before a character outside the alphabet. -/
def RejectedFirst (alpha : List EncryptedLine) : Prop :=
  ∃ before line after, alpha = before ++ line :: after ∧ (∀ l ∈ before, Over l) ∧ Over line ∧
    ¬ CorrectParity line

theorem convertLines_outside {alpha : List EncryptedLine} {k : Nat} :
    convertLines k alpha = .error .outside ↔
      ¬ (∀ line ∈ alpha, Over line) ∧ ¬ RejectedFirst alpha := by
  induction alpha generalizing k with
  | nil =>
      rw [convertLines]
      exact iff_of_false (fun eq => by cases eq) fun both =>
        both.1 fun line member => absurd member List.not_mem_nil
  | cons line alpha ih =>
      obtain ⟨accept, reject, fail⟩ := convertLines_cons k line alpha
      by_cases within : Over line
      swap
      · rw [fail within]
        refine iff_of_true rfl ⟨fun all => within (all line List.mem_cons_self), ?_⟩
        rintro ⟨before, found, after, eq, fine, own, wrong⟩
        cases before with
        | nil => exact within ((List.cons.inj eq).1 ▸ own)
        | cons first before => exact within ((List.cons.inj eq).1 ▸ fine first List.mem_cons_self)
      by_cases correct : CorrectParity line
      swap
      · rw [reject within correct]
        refine iff_of_false (fun eq => ?_)
          fun both => both.2 ⟨[], line, alpha, rfl, ?_, within, correct⟩
        · exact ConversionError.noConfusion (Except.error.inj eq)
        · exact fun l member => absurd member List.not_mem_nil
      rw [accept within correct]
      have inner : (convertLines (k + 1) alpha).map (wordsOf line ++ ·) = .error .outside
          ↔ convertLines (k + 1) alpha = .error .outside := by
        cases convertLines (k + 1) alpha with
        | ok words => exact iff_of_false (fun eq => by cases eq) fun eq => by cases eq
        | error e =>
            change Except.error e = Except.error ConversionError.outside ↔ _
            simp only [Except.error.injEq]
      rw [inner, ih]
      refine and_congr (not_congr ?_) (not_congr ?_)
      · rw [List.forall_mem_cons]
        exact ⟨fun all => ⟨within, all⟩, And.right⟩
      · constructor
        · rintro ⟨before, found, after, rfl, fine, own, wrong⟩
          refine ⟨line :: before, found, after, rfl, ?_, own, wrong⟩
          rw [List.forall_mem_cons]
          exact ⟨within, fine⟩
        · rintro ⟨before, found, after, eq, fine, own, wrong⟩
          cases before with
          | nil => exact absurd ((List.cons.inj eq).1 ▸ correct) wrong
          | cons first before =>
              exact ⟨before, found, after, (List.cons.inj eq).2,
                fun l member => fine l (List.mem_cons_of_mem first member), own, wrong⟩

/-! ## What the words say about the line -/

/-- The characters `I`, `L`, `O` and `S` are read as the digits they look like. -/
def lookAlike (chr : UInt8) : UInt8 :=
  let c := toUpper chr
  if c = 0x49 ∨ c = 0x4c then 0x31 else if c = 0x4f then 0x30 else if c = 0x53 then 0x35 else c

/-- The value of a character is its place in the alphabet. -/
theorem alphabet_getVal {chr : UInt8} {v : Word} (found : getVal chr = some v) :
    alphabet.getD v.toNat 0 = lookAlike chr := by
  have table : ∀ ret < 36, alphabet.getD (placeValue ret).toNat 0 =
      let c := alphabet.getD ret 0
      if c = 0x49 ∨ c = 0x4c then 0x31 else if c = 0x4f then 0x30
        else if c = 0x53 then 0x35 else c := by
    decide
  obtain ⟨ret, inside, own, rfl⟩ := getVal_found found
  rw [table ret inside, own]
  rfl

theorem lookAlike_eq {line : EncryptedLine} (within : Over line) (i : Fin 13) :
    lookAlike (line.get i) = alphabet.getD (valueAt line i).toNat 0 := by
  have member := Vector.mem_toList_iff.mpr (@Vector.getElem_mem _ _ line i i.isLt)
  obtain ⟨v, found⟩ := Option.isSome_iff_exists.mp (within _ member)
  have own : getVal (line.get i) = some v := found
  rw [valueAt, own, Option.getD_some, alphabet_getVal own]

/-- Pieces of one length can be told apart in their concatenation. -/
theorem flatMap_pieces {ι : Type} {l : List ι} {f g : ι → List Bool} {n : Nat}
    (f_length : ∀ i, (f i).length = n) (g_length : ∀ i, (g i).length = n)
    (same : l.flatMap f = l.flatMap g) : l.map f = l.map g := by
  induction l with
  | nil => rfl
  | cons i l ih =>
      rw [List.flatMap_cons, List.flatMap_cons] at same
      obtain ⟨first, rest⟩ := List.append_inj same ((f_length i).trans (g_length i).symm)
      rw [List.map_cons, List.map_cons, first, ih rest]

/-- The bits of a line determine the values of its characters. -/
theorem lineBits_inj {v u : Fin 13 → Word} (v_small : ∀ i, (v i).toNat < 32)
    (u_small : ∀ i, (u i).toNat < 32) (same : lineBits v = lineBits u) : v = u := by
  funext i
  have groups : (List.finRange 13).map (fun i => charBits (v i))
      = (List.finRange 13).map (fun i => charBits (u i)) :=
    @flatMap_pieces _ _ _ _ 5 (fun _ => rfl) (fun _ => rfl) same
  have own := List.map_inj_left.mp groups i (List.mem_finRange i)
  apply BitVec.eq_of_getLsbD_eq
  intro j inside
  have high {x : Word} (small : x.toNat < 32) (five : 5 ≤ j) : x.getLsbD j = false := by
    rw [BitVec.getLsbD]
    exact Nat.testBit_lt_two_pow (lt_of_lt_of_le small (Nat.pow_le_pow_right Nat.two_pos five))
  simp only [charBits, List.cons.injEq] at own
  by_cases five : 5 ≤ j
  · rw [high (v_small i) five, high (u_small i) five]
  · obtain rfl | rfl | rfl | rfl | rfl : j = 0 ∨ j = 1 ∨ j = 2 ∨ j = 3 ∨ j = 4 := by omega
    all_goals grind

theorem wordsOf_inj {line other : EncryptedLine} (within : Over line) (within' : Over other)
    (correct : CorrectParity line) (correct' : CorrectParity other)
    (same : wordsOf line = wordsOf other) : line.map lookAlike = other.map lookAlike := by
  obtain ⟨first, rest⟩ := List.cons.inj same
  have second := (List.cons.inj rest).1
  have bits := valueAt_bits line
  have bits' := valueAt_bits other
  rw [first, second] at bits
  -- the last bit is determined by the parity
  have last : (valueAt line 12).getLsbD 0 = (valueAt other 12).getLsbD 0 := by
    rw [CorrectParity, ← bits, List.count_append] at correct
    rw [CorrectParity, ← bits', List.count_append] at correct'
    cases one : (valueAt line 12).getLsbD 0 <;> cases two : (valueAt other 12).getLsbD 0 <;>
      rw [one] at correct <;> rw [two] at correct' <;> simp at correct correct' ⊢ <;> omega
  rw [last, bits'] at bits
  have values := lineBits_inj (valueAt_small line) (valueAt_small other) bits.symm
  apply Vector.ext
  intro i inside
  rw [Vector.getElem_map, Vector.getElem_map]
  have one := lookAlike_eq within ⟨i, inside⟩
  have two := lookAlike_eq within' ⟨i, inside⟩
  rw [values] at one
  exact one.trans two.symm

/-- Accepted lines with the same words are the same but for characters that look alike. -/
theorem lines_of_words {alpha beta : List EncryptedLine}
    (fine : ∀ line ∈ alpha, Over line ∧ CorrectParity line)
    (fine' : ∀ line ∈ beta, Over line ∧ CorrectParity line)
    (same : alpha.flatMap wordsOf = beta.flatMap wordsOf) :
    alpha.map (·.map lookAlike) = beta.map (·.map lookAlike) := by
  induction alpha generalizing beta with
  | nil =>
      cases beta with
      | nil => rfl
      | cons line beta => exact absurd same (by simp [wordsOf])
  | cons line alpha ih =>
      cases beta with
      | nil => exact absurd same (by simp [wordsOf])
      | cons other beta =>
          rw [List.flatMap_cons, List.flatMap_cons] at same
          obtain ⟨first, rest⟩ := List.append_inj same
            ((wordsOf_length line).trans (wordsOf_length other).symm)
          obtain ⟨within, correct⟩ := fine line List.mem_cons_self
          obtain ⟨within', correct'⟩ := fine' other List.mem_cons_self
          rw [List.map_cons, List.map_cons, wordsOf_inj within within' correct correct' first,
            ih (fun l member => fine l (List.mem_cons_of_mem line member))
              (fun l member => fine' l (List.mem_cons_of_mem other member)) rest]

end Phocoena.ARDecrypt
