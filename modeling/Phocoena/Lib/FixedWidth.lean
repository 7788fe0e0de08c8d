import Mathlib.Tactic.Ring

/-! # Fixed-width arithmetic

Facts about two's complement words that hold at every width or for every pair of a word
and its double: when a value survives narrowing, and what widened arithmetic computes.
-/

namespace Phocoena.FixedWidth

theorem ne_zero_iff_getLsbD {w : Nat} (x : BitVec w) : x ≠ 0 ↔ ∃ i, x.getLsbD i = true := by
  constructor
  · intro h
    refine Classical.byContradiction fun none => h ?_
    apply BitVec.eq_of_getLsbD_eq
    intro i hi
    simpa using fun set => none ⟨i, set⟩
  · rintro ⟨i, set⟩ rfl
    simp at set

/-- A value survives truncation to `w` bits and sign extension back exactly when it is in the
range of a `w`-bit signed integer. -/
theorem signExtend_setWidth_eq_iff {v w : Nat} (hw : 0 < w) (hv : w ≤ v) (x : BitVec v) :
    (x.setWidth w).signExtend v = x ↔ -2 ^ (w - 1) ≤ x.toInt ∧ x.toInt < 2 ^ (w - 1) := by
  have trunc : ((x.setWidth w).signExtend v).toInt = x.toInt.bmod (2 ^ w) := by
    rw [BitVec.toInt_signExtend_of_le hv, BitVec.toInt_setWidth, BitVec.toInt_eq_toNat_bmod,
      Int.bmod_bmod_of_dvd (Nat.pow_dvd_pow 2 hv)]
  have pow : (2 : Nat) ^ w = 2 * 2 ^ (w - 1) := by
    rw [← Nat.pow_succ']
    congr 1
    omega
  have pos : 0 < (2 : Nat) ^ (w - 1) := Nat.two_pow_pos _
  have cast : ((2 : Int) ^ (w - 1)) = ((2 ^ (w - 1) : Nat) : Int) := by simp
  rw [← BitVec.toInt_inj, trunc, Int.bmod_eq_iff (Nat.two_pow_pos w), pow, cast]
  constructor
  · rintro ⟨low, high, -⟩
    omega
  · rintro ⟨low, high⟩
    exact ⟨by omega, by omega, by simp⟩

/-! ## 32-bit words and their 64-bit widenings -/

@[simp] theorem setWidth_widened_ushiftRight (x : BitVec 32) (n : Nat) :
    (x.setWidth 64 >>> n).setWidth 32 = x >>> n := by
  have widened : (x.setWidth 64).toNat = x.toNat := BitVec.toNat_setWidth_of_le (by decide)
  have small : x.toNat >>> n ≤ x.toNat := Nat.shiftRight_le _ _
  have := x.isLt
  apply BitVec.eq_of_toNat_eq
  rw [BitVec.toNat_setWidth, BitVec.toNat_ushiftRight, BitVec.toNat_ushiftRight, widened,
    Nat.mod_eq_of_lt (by omega)]

@[simp] theorem setWidth_signExtend (x : BitVec 32) : (x.signExtend 64).setWidth 32 = x := by
  apply BitVec.eq_of_getLsbD_eq
  intro i hi
  have : i < 64 := by omega
  rw [BitVec.getLsbD_setWidth, BitVec.getLsbD_signExtend, if_pos hi]
  simp [hi, this]

theorem ushiftRight_31_ne_zero (x : BitVec 32) : (x >>> 31 != 0) = x.msb := by
  have := x.isLt
  rw [Bool.eq_iff_iff, bne_iff_ne, ne_eq, ← BitVec.toNat_inj, BitVec.msb_eq_decide,
    BitVec.toNat_ushiftRight, Nat.shiftRight_eq_div_pow, decide_eq_true_iff,
    BitVec.ofNat_eq_ofNat, BitVec.toNat_zero]
  omega

/-- A widened value has a bit above its low word. -/
theorem ushiftRight_32_ne_zero (x : BitVec 64) : (x >>> 32 != 0) = decide (2 ^ 32 ≤ x.toNat) := by
  rw [Bool.eq_iff_iff, bne_iff_ne, ne_eq, ← BitVec.toNat_inj, BitVec.toNat_ushiftRight,
    Nat.shiftRight_eq_div_pow, decide_eq_true_iff, BitVec.ofNat_eq_ofNat, BitVec.toNat_zero]
  omega

/-- A widened value is not the sign extension of its low word. -/
theorem ne_signExtend_low (x : BitVec 64) :
    (x != (x.setWidth 32).signExtend 64) = decide (x.toInt < -2 ^ 31 ∨ 2 ^ 31 ≤ x.toInt) := by
  have fits := signExtend_setWidth_eq_iff (w := 32) (by decide) (by decide) x
  rw [Bool.eq_iff_iff, bne_iff_ne, ne_comm, ne_eq, fits, decide_eq_true_iff]
  omega

theorem toInt_signExtend_add (a b : BitVec 32) :
    (a.signExtend 64 + b.signExtend 64).toInt = a.toInt + b.toInt := by
  have := a.toInt_lt
  have := a.le_toInt
  have := b.toInt_lt
  have := b.le_toInt
  rw [BitVec.toInt_add, BitVec.toInt_signExtend_of_le (by decide),
    BitVec.toInt_signExtend_of_le (by decide)]
  exact Int.bmod_eq_of_le (by omega) (by omega)

theorem toInt_signExtend_sub (a b : BitVec 32) :
    (a.signExtend 64 - b.signExtend 64).toInt = a.toInt - b.toInt := by
  have := a.toInt_lt
  have := a.le_toInt
  have := b.toInt_lt
  have := b.le_toInt
  rw [BitVec.toInt_sub, BitVec.toInt_signExtend_of_le (by decide),
    BitVec.toInt_signExtend_of_le (by decide)]
  exact Int.bmod_eq_of_le (by omega) (by omega)

theorem toInt_signExtend_mul (a b : BitVec 32) :
    (a.signExtend 64 * b.signExtend 64).toInt = a.toInt * b.toInt := by
  have := a.toInt_lt
  have := a.le_toInt
  have := b.toInt_lt
  have := b.le_toInt
  have size : (a.toInt * b.toInt).natAbs ≤ 2 ^ 31 * 2 ^ 31 := by
    rw [Int.natAbs_mul]
    exact Nat.mul_le_mul (by omega) (by omega)
  rw [BitVec.toInt_mul, BitVec.toInt_signExtend_of_le (by decide),
    BitVec.toInt_signExtend_of_le (by decide)]
  exact Int.bmod_eq_of_le (by omega) (by omega)

theorem toInt_setWidth_low (x : BitVec 64) : (x.setWidth 32).toInt = x.toInt.bmod (2 ^ 32) := by
  rw [BitVec.toInt_setWidth, BitVec.toInt_eq_toNat_bmod, Int.bmod_bmod_of_dvd (by decide)]

theorem high_word_eq (x : BitVec 64) : (x >>> 32).setWidth 32 = (x.sshiftRight 32).setWidth 32 := by
  apply BitVec.eq_of_getLsbD_eq
  intro i hi
  have inside : 32 + i < 64 ∧ ¬ 64 ≤ i := by omega
  simp [hi, BitVec.getLsbD_sshiftRight, inside]

theorem toInt_sign_bit (x : BitVec 32) : (x >>> 31).toInt = if x.toInt < 0 then 1 else 0 := by
  have := x.isLt
  rw [BitVec.toInt_ushiftRight_of_lt (by decide), BitVec.toInt_eq_toNat_cond,
    Nat.shiftRight_eq_div_pow]
  split <;> split <;> omega

theorem toInt_sign_bit_wide (x : BitVec 64) :
    ((x >>> 63).setWidth 32).toInt = if x.toInt < 0 then 1 else 0 := by
  have := x.isLt
  have small : (x >>> 63).toNat < 2 := by
    rw [BitVec.toNat_ushiftRight, Nat.shiftRight_eq_div_pow]
    omega
  rw [BitVec.toInt_setWidth, Int.bmod_eq_of_le (by omega) (by omega), BitVec.toNat_ushiftRight,
    Nat.shiftRight_eq_div_pow, BitVec.toInt_eq_toNat_cond]
  split <;> split <;> omega

theorem toInt_add_eq {a b : BitVec 32} {s : Int} (eq : a.toInt + b.toInt = s)
    (low : -2 ^ 31 ≤ s) (high : s < 2 ^ 31) : (a + b).toInt = s := by
  rw [BitVec.toInt_add, eq, Int.bmod_eq_of_le (by omega) (by omega)]

theorem toInt_not (a : BitVec 32) : (~~~a).toInt = -a.toInt - 1 := by
  have := a.isLt
  simp only [BitVec.toInt_eq_toNat_cond, BitVec.toNat_not]
  omega

theorem toNat_and_0x3f (b : BitVec 32) : (b &&& 0x3f).toNat = b.toNat % 64 := by
  rw [BitVec.toNat_and]
  exact Nat.and_two_pow_sub_one_eq_mod b.toNat 6

theorem toNat_and_0x1f (b : BitVec 32) : (b &&& 0x1f).toNat = b.toNat % 32 := by
  rw [BitVec.toNat_and]
  exact Nat.and_two_pow_sub_one_eq_mod b.toNat 5

theorem and_0x20_ne_zero_iff (b : BitVec 32) : b &&& 0x20 ≠ 0 ↔ 32 ≤ b.toNat % 64 := by
  have single : b &&& 0x20 = if b.getLsbD 5 then 0x20 else 0 := BitVec.and_twoPow b 5
  have bit : b.getLsbD 5 = decide (b.toNat / 2 ^ 5 % 2 = 1) := Nat.testBit_eq_decide_div_mod_eq
  have far : b.getLsbD 5 = true ↔ 32 ≤ b.toNat % 64 := by
    rw [bit, decide_eq_true_iff]
    omega
  rw [single, ← far]
  cases b.getLsbD 5 <;> simp

/-! ## Shifts carried out at twice the width

A 32-bit shift by a 6-bit amount is the 64-bit shift of the widened operand: amounts from
32 to 63 push every bit out of the low word. -/

theorem shiftLeft_widened (s b : BitVec 32) :
    (s.setWidth 64 <<< (b &&& 0x3f).toNat).setWidth 32 =
      if b &&& 0x20 ≠ 0 then 0 else s <<< (b &&& 0x1f).toNat := by
  rw [toNat_and_0x3f, toNat_and_0x1f]
  simp only [and_0x20_ne_zero_iff]
  ext i hi
  split
  · simp
    omega
  · have small : b.toNat % 64 = b.toNat % 32 := by omega
    simp [small]

theorem ushiftRight_widened (s b : BitVec 32) :
    (s.setWidth 64 >>> (b &&& 0x3f).toNat).setWidth 32 =
      if b &&& 0x20 ≠ 0 then 0 else s >>> (b &&& 0x1f).toNat := by
  rw [toNat_and_0x3f, toNat_and_0x1f]
  simp only [and_0x20_ne_zero_iff]
  ext i hi
  split
  · simp only [BitVec.getElem_setWidth, BitVec.getLsbD_ushiftRight, BitVec.getLsbD_setWidth,
      BitVec.ofNat_eq_ofNat, BitVec.getElem_zero, Bool.and_eq_false_imp, decide_eq_true_eq]
    intro _
    apply BitVec.getLsbD_of_ge
    omega
  · have small : b.toNat % 64 = b.toNat % 32 := by omega
    simp only [small, BitVec.getElem_setWidth, BitVec.getLsbD_ushiftRight,
      BitVec.getLsbD_setWidth, BitVec.getElem_ushiftRight, Bool.and_eq_right_iff_imp,
      decide_eq_true_eq]
    omega

/-- The operand of an arithmetic right shift, parked in the high word: the low word collects
the bits shifted out. -/
theorem sshiftRight_parked_bit (s : BitVec 32) (n i : Nat) (hi : i < 64) :
    ((s.signExtend 64 <<< 32).sshiftRight n).getLsbD i =
      if n + i < 32 then false else if n + i < 64 then s.getLsbD (n + i - 32) else s.msb := by
  have outer : (s.signExtend 64 <<< 32).msb = s.msb := by
    rw [BitVec.msb_eq_getLsbD_last, BitVec.getLsbD_shiftLeft, BitVec.getLsbD_signExtend,
      BitVec.msb_eq_getLsbD_last]
    simp
  rw [BitVec.getLsbD_sshiftRight, BitVec.getLsbD_shiftLeft, BitVec.getLsbD_signExtend, outer]
  grind

theorem sshiftRight_parked (s : BitVec 32) (n : Nat) :
    ((s.signExtend 64 <<< 32).sshiftRight n >>> 32).setWidth 32 = s.sshiftRight n := by
  apply BitVec.eq_of_getLsbD_eq
  intro i hi
  rw [BitVec.getLsbD_setWidth, BitVec.getLsbD_ushiftRight,
    sshiftRight_parked_bit s n _ (by omega), BitVec.getLsbD_sshiftRight]
  grind

/-- From 32 on, an arithmetic right shift leaves only copies of the sign. -/
theorem sshiftRight_of_ge_32 (s : BitVec 32) {n : Nat} (hn : 32 ≤ n) :
    s.sshiftRight n = if s.msb then 0xFFFFFFFF else 0 := by
  rw [show (0xFFFFFFFF : BitVec 32) = BitVec.allOnes 32 from rfl]
  apply BitVec.eq_of_getLsbD_eq
  intro i hi
  rw [BitVec.getLsbD_sshiftRight]
  have outside : ¬ n + i < 32 := by omega
  have inside : ¬ 32 ≤ i := by omega
  cases s.msb with
  | false => simp [outside]
  | true => rw [if_pos rfl, BitVec.getLsbD_allOnes]; simp [outside, inside, hi]

end Phocoena.FixedWidth
