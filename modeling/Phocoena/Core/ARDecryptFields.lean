import Phocoena.Core.ARDecrypt
import Phocoena.Core.ARDecryptText

/-! # The fields of a decrypted code

`GetBitString` moves to the next word by adding four to the first word, where it was meant to move
a pointer by four bytes. So it reads the fields of the first word, and in the place of the region,
which stands in the second word, two bits of the first word plus four.
-/

namespace Phocoena.ARDecrypt

/-! ## Bit strings -/

/-- The number in the bits of a word from bit `c` on, the most significant bit being bit 0. -/
def wordField (x : Word) (c : Nat) : Nat → Nat
  | 0 => 0
  | len + 1 => 2 * wordField x c len + (x.getLsbD (31 - (c + len))).toNat

/-- The bit of a list of words at a position of their bit string. -/
def bitAt (words : List Word) (p : Nat) : Bool :=
  (words.getD (p / 32) 0).getLsbD (31 - p % 32)

/-- The number in the bits from a position on. -/
def field (words : List Word) (pos : Nat) : Nat → Nat
  | 0 => 0
  | len + 1 => 2 * field words pos len + (bitAt words (pos + len)).toNat

theorem field_eq_wordField (words : List Word) (j : Nat) {c len : Nat} (inside : c + len ≤ 32) :
    field words (32 * j + c) len = wordField (words.getD j 0) c len := by
  induction len with
  | zero => rfl
  | succ len ih =>
      have word : (32 * j + c + len) / 32 = j := by omega
      have bit : (32 * j + c + len) % 32 = c + len := by omega
      rw [field, wordField, ih (by omega), bitAt, word, bit]

theorem wordField_lt (x : Word) (c len : Nat) : wordField x c len < 2 ^ len := by
  induction len with
  | zero => exact Nat.one_pos
  | succ len ih =>
      have bit := Bool.toNat_lt (x.getLsbD (31 - (c + len)))
      rw [wordField, Nat.pow_succ]
      omega

theorem wordField_congr {x y : Word} {c len : Nat}
    (same : ∀ k < len, x.getLsbD (31 - (c + k)) = y.getLsbD (31 - (c + k))) :
    wordField x c len = wordField y c len := by
  induction len with
  | zero => rfl
  | succ len ih =>
      rw [wordField, wordField, ih fun k less => same k (Nat.lt_succ_of_lt less),
        same len (Nat.lt_succ_self len)]

/-! ## `GetBitString` -/

/-- A bit is appended to the number. -/
theorem append_bit (out tmp : Word) (n : Nat) (small : out.toNat < 2 ^ 31) :
    ((out <<< 1) ||| ((tmp >>> n) &&& 1)).toNat = 2 * out.toNat + (tmp.getLsbD n).toNat := by
  have bit : ((tmp >>> n) &&& 1).toNat = (tmp.getLsbD n).toNat := by
    rw [BitVec.toNat_and, BitVec.toNat_ushiftRight, BitVec.getLsbD, Nat.toNat_testBit,
      Nat.shiftRight_eq_div_pow]
    exact Nat.and_two_pow_sub_one_eq_mod _ 1
  have double : (out <<< 1).toNat = 2 ^ 1 * out.toNat := by
    rw [BitVec.toNat_shiftLeft, Nat.shiftLeft_eq, Nat.mod_eq_of_lt (by omega)]
    omega
  have less : (tmp.getLsbD n).toNat < 2 ^ 1 := Bool.toNat_lt _
  rw [BitVec.toNat_or, bit, double, ← Nat.two_pow_add_eq_or_of_lt less]

/-- Bits that all lie in the word that is being read. -/
theorem getBits_word {tmp out : Word} {ctrl : Ctrl} {c k len : Nat} (here : ctrl.bit = c + k)
    (inside : c + k + len ≤ 32) (short : k + len < 32) (more : ctrl.word < ctrl.size)
    (read : out.toNat = wordField tmp c k) :
    ∃ o, getBits len tmp out ctrl = (true, o, { ctrl with bit := c + k + len }) ∧
      o.toNat = wordField tmp c (k + len) := by
  induction len generalizing k out ctrl with
  | zero =>
      refine ⟨out, ?_, read⟩
      rw [getBits, ← here]
      rfl
  | succ len ih =>
      have stays : ¬ 0x1F < ctrl.bit := by omega
      have goes : ¬ ctrl.size ≤ ctrl.word := by omega
      have small : out.toNat < 2 ^ 31 := by
        rw [read]
        exact lt_of_lt_of_le (wordField_lt tmp c k) (Nat.pow_le_pow_right Nat.two_pos (by omega))
      have next : ((out <<< 1) ||| ((tmp >>> (0x1F - ctrl.bit)) &&& 1)).toNat
          = wordField tmp c (k + 1) := by
        rw [append_bit out tmp _ small, wordField, read, here]
      obtain ⟨o, eq, value⟩ := @ih _ { ctrl with bit := ctrl.bit + 1 } (k + 1)
        (by rw [here]; rfl) (by omega) (by omega) more next
      refine ⟨o, ?_, by rw [value]; congr 1; omega⟩
      rw [getBits]
      simp only [stays, if_false, goes, eq]
      congr 3
      omega

theorem getBitString_word {ctrl : Ctrl} {len : Nat} (inside : ctrl.bit + len ≤ 32)
    (short : len < 32) (more : ctrl.word < ctrl.size) :
    ∃ o, getBitString ctrl len = (true, o, { ctrl with bit := ctrl.bit + len }) ∧
      o.toNat = wordField (ctrl.base + BitVec.ofNat 32 (ctrl.word <<< 2)) ctrl.bit len := by
  have read := @getBits_word (ctrl.base + BitVec.ofNat 32 (ctrl.word <<< 2)) 0 ctrl ctrl.bit 0 len
    rfl (by omega) (by omega) more rfl
  rwa [Nat.zero_add, Nat.add_zero] at read

/-- At the end of a word the next one is read. -/
theorem getBitString_next {ctrl : Ctrl} (len : Nat) (at_end : 0x1F < ctrl.bit) :
    getBitString ctrl (len + 1)
      = getBitString { ctrl with bit := 0, word := ctrl.word + 1 } (len + 1) := by
  have stays : ¬ 0x1F < 0 := by omega
  simp only [getBitString, getBits, at_end, stays, if_true, if_false]

/-- The five fields of a code of at least two words. -/
theorem readFields_eq {base : Word} {size : Nat} (two : 2 ≤ size) :
    (readFields ⟨base, 0, 4, size⟩).game_id.toNat = wordField base 4 11 ∧
      (readFields ⟨base, 0, 4, size⟩).region.toNat = wordField (base + 4) 2 2 := by
  have zero_shift : base + BitVec.ofNat 32 (0 <<< 2) = base := by simp
  have one_shift : base + BitVec.ofNat 32 (1 <<< 2) = base + 4 := rfl
  have first : 0 < size := by omega
  have second : 1 < size := two
  obtain ⟨game, game_eq, game_value⟩ := @getBitString_word ⟨base, 0, 4, size⟩ 11
    (by simp only; omega) (by decide) first
  obtain ⟨code, code_eq, _⟩ := @getBitString_word ⟨base, 0, 15, size⟩ 17
    (by simp only; omega) (by decide) first
  obtain ⟨master, master_eq, _⟩ := @getBitString_word ⟨base, 1, 0, size⟩ 1
    (by simp only; omega) (by decide) second
  obtain ⟨other, other_eq, _⟩ := @getBitString_word ⟨base, 1, 1, size⟩ 1
    (by simp only; omega) (by decide) second
  obtain ⟨region, region_eq, region_value⟩ := @getBitString_word ⟨base, 1, 2, size⟩ 2
    (by simp only; omega) (by decide) second
  have moved := @getBitString_next ⟨base, 0, 32, size⟩ 0 (by simp only; omega)
  rw [zero_shift] at game_value
  rw [one_shift] at region_value
  simp only [readFields, game_eq, code_eq, moved, master_eq, other_eq, region_eq]
  exact ⟨game_value, region_value⟩

/-! ## The first word -/

theorem getLsbD_masked {x : Word} {i : Nat} (low : i < 28) :
    (x &&& 0x0FFFFFFF).getLsbD i = x.getLsbD i := by
  have mask : (0x0FFFFFFF : Word).getLsbD i = true := by
    have each : ∀ i < 28, (0x0FFFFFFF : Word).getLsbD i = true := by decide
    exact each i low
  rw [BitVec.getLsbD_and, mask, Bool.and_true]

theorem masked_toNat (x : Word) : (x &&& 0x0FFFFFFF).toNat = x.toNat % 0x10000000 := by
  rw [BitVec.toNat_and]
  exact Nat.and_two_pow_sub_one_eq_mod x.toNat 28

/-- The game id lies in the bits that the check value is not in. -/
theorem game_id_masked (x : Word) :
    wordField (x &&& 0x0FFFFFFF) 4 11 = wordField x 4 11 :=
  wordField_congr fun k _ => getLsbD_masked (by omega)

/-- What is read as the region: a carry out of the first word. -/
theorem region_read (x : Word) : wordField ((x &&& 0x0FFFFFFF) + 4) 2 2
    = if 0x0FFFFFFC ≤ x.toNat % 0x10000000 then 1 else 0 := by
  have sum : ((x &&& 0x0FFFFFFF) + 4).toNat = x.toNat % 0x10000000 + 4 := by
    rw [BitVec.toNat_add, masked_toNat]
    change (_ + 4) % 2 ^ 32 = _
    omega
  have bits (n : Nat) : (((x &&& 0x0FFFFFFF) + 4).getLsbD n).toNat
      = (x.toNat % 0x10000000 + 4) / 2 ^ n % 2 := by
    rw [BitVec.getLsbD, Nat.toNat_testBit, sum]
  rw [wordField, wordField, wordField, bits, bits]
  change 2 * (2 * 0 + (x.toNat % 0x10000000 + 4) / 2 ^ 29 % 2)
    + (x.toNat % 0x10000000 + 4) / 2 ^ 28 % 2 = _
  split <;> omega

/-! ## Decrypting lines -/

/-- The verification nibble of the decrypted words matches. -/
def Verified (plain : List Word) : Prop :=
  plain.getD 0 0 >>> 28 = (verifyCode (plain.set 0 (plain.getD 0 0 &&& 0x0FFFFFFF))).setWidth 32

/-- The words of the lines, decrypted. -/
def plaintext (seeds : Seeds) (lines : List EncryptedLine) : List Word :=
  decryptAll seeds (lines.flatMap wordsOf)

/-- Decryption reads the format it decodes: the lines with correct parity are accepted and
determined by their words, the fields are those of the decrypted bit string, and a line that is not
over the alphabet is reported. -/
structure ReadsFormat (seeds : Seeds) (lines : List EncryptedLine) : Prop where
  bijective : Function.Bijective (decryptCode seeds)
  inverse : ∀ code, encryptCode seeds (decryptCode seeds code) = code
  accepts : (∀ line ∈ lines, Over line) →
    ((∃ words, convertAlphaToBinary lines = .ok words) ↔ ∀ line ∈ lines, CorrectParity line)
  determined : ∀ other words, convertAlphaToBinary lines = .ok words →
    convertAlphaToBinary other = .ok words →
    lines.map (·.map lookAlike) = other.map (·.map lookAlike)
  fields : ∀ words, convertAlphaToBinary lines = .ok words → Verified (decryptAll seeds words) →
    ∃ found, decryptARCode seeds lines
        = .ok (some found, entries ((decryptAll seeds words).drop 2)) ∧
      found.game_id.toNat = field (decryptAll seeds words) 4 11 ∧
      found.region.toNat = field (decryptAll seeds words) 34 2
  reports : ¬ (∀ line ∈ lines, Over line) → decryptARCode seeds lines = .ok (none, [])

/-- Where the code meets that. Lines over the alphabet that are accepted and verified have the
region 0, or 1 if the first word is large enough to carry; before the first line that is not within
the alphabet there is one with a wrong parity. -/
def Readable (seeds : Seeds) (lines : List EncryptedLine) : Prop :=
  ((∀ line ∈ lines, Over line ∧ CorrectParity line) → Verified (plaintext seeds lines) →
    field (plaintext seeds lines) 34 2
      = if 0x0FFFFFFC ≤ ((plaintext seeds lines).getD 0 0).toNat % 0x10000000 then 1 else 0) ∧
  (¬ (∀ line ∈ lines, Over line) → RejectedFirst lines)

theorem plaintext_shape (seeds : Seeds) {lines : List EncryptedLine} (nonempty : lines ≠ []) :
    ∃ a b rest, plaintext seeds lines = a :: b :: rest := by
  cases lines with
  | nil => exact absurd rfl nonempty
  | cons line lines => exact ⟨_, _, _, rfl⟩

/-- What `BatchDecrypt` returns for words with the right nibble. -/
theorem batchDecrypt_verified {seeds : Seeds} {codes : List Word} {a b : Word} {rest : List Word}
    (plain : decryptAll seeds codes = a :: b :: rest) (verified : Verified (a :: b :: rest)) :
    ∃ found, batchDecrypt seeds codes = (some found, (a &&& 0x0FFFFFFF) :: b :: rest) ∧
      found.game_id.toNat = field (a :: b :: rest) 4 11 ∧
      found.region.toNat = if 0x0FFFFFFC ≤ a.toNat % 0x10000000 then 1 else 0 := by
  have two : 2 ≤ ((a &&& 0x0FFFFFFF) :: b :: rest).length := by
    simp only [List.length_cons]
    omega
  obtain ⟨game, region⟩ := @readFields_eq (a &&& 0x0FFFFFFF) _ two
  have nibble : a >>> 28 = (verifyCode ((a &&& 0x0FFFFFFF) :: b :: rest)).setWidth 32 := verified
  have own_word := field_eq_wordField (a :: b :: rest) 0 (by decide : 4 + 11 ≤ 32)
  refine ⟨readFields ⟨a &&& 0x0FFFFFFF, 0, 4, ((a &&& 0x0FFFFFFF) :: b :: rest).length⟩, ?_, ?_,
    region.trans (region_read a)⟩
  · rw [batchDecrypt, plain]
    simp only [List.getD_cons_zero, List.set_cons_zero, ne_eq, ← nibble, not_true_eq_false,
      if_false]
  · exact game.trans ((game_id_masked a).trans own_word.symm)

theorem decryptARCode_verified {seeds : Seeds} {lines : List EncryptedLine} {words : List Word}
    (nonempty : lines ≠ []) (converted : convertAlphaToBinary lines = .ok words)
    (verified : Verified (decryptAll seeds words)) :
    ∃ found, decryptARCode seeds lines
        = .ok (some found, entries ((decryptAll seeds words).drop 2)) ∧
      found.game_id.toNat = field (decryptAll seeds words) 4 11 ∧
      found.region.toNat
        = if 0x0FFFFFFC ≤ ((decryptAll seeds words).getD 0 0).toNat % 0x10000000 then 1 else 0 := by
  obtain ⟨_, rfl⟩ := convertLines_ok.mp converted
  obtain ⟨a, b, rest, shape⟩ := plaintext_shape seeds nonempty
  rw [plaintext] at shape
  rw [shape] at verified
  obtain ⟨found, batch, game, region⟩ := batchDecrypt_verified shape verified
  refine ⟨found, ?_, ?_, ?_⟩
  · rw [decryptARCode, if_neg nonempty, converted]
    simp only [batch, shape, List.drop_succ_cons]
  · rw [game, shape]
  · rw [region, shape]
    rfl

theorem decryptARCode_outside {seeds : Seeds} {lines : List EncryptedLine} (nonempty : lines ≠ [])
    (outside : ¬ ∀ line ∈ lines, Over line) :
    decryptARCode seeds lines = .ok (none, []) ↔ RejectedFirst lines := by
  rw [decryptARCode, if_neg nonempty]
  cases converted : convertAlphaToBinary lines with
  | ok words =>
      exact absurd (fun line member => ((convertLines_ok.mp converted).1 line member).1) outside
  | error e =>
      cases e with
      | outside =>
          exact iff_of_false (fun eq => by cases eq) (convertLines_outside.mp converted).2
      | unexpected k =>
          refine iff_of_true rfl ?_
          by_contra kept
          have other := (convertLines_outside (k := 0)).mpr ⟨outside, kept⟩
          cases other.symm.trans converted

/-- `"QEPTNRCZCB2G9"`, whose words decrypt to `80000000 10000000`: the region is 1. -/
def foreignLine : EncryptedLine :=
  ⟨#[0x51, 0x45, 0x50, 0x54, 0x4e, 0x52, 0x43, 0x5a, 0x43, 0x42, 0x32, 0x47, 0x39], rfl⟩

theorem foreignLine_plaintext : plaintext genseeds [foreignLine] = [0x80000000, 0x10000000] := by
  decide +kernel

theorem foreignLine_fine : ∀ line ∈ [foreignLine], Over line ∧ CorrectParity line := by
  intro line member
  cases List.mem_singleton.mp member
  constructor
  · rw [Over]
    decide +kernel
  · rw [CorrectParity]
    decide +kernel

end Phocoena.ARDecrypt
