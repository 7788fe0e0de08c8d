import Phocoena.Gekko.Interpreter
import Phocoena.Lib.FixedWidth

/-! # What the interpreter's carry and overflow helpers decide

Each helper is a bit trick on wrapped 32-bit words; here each is read as a statement about
the exact sum, difference or shifted-out bits.
-/

namespace Phocoena.Gekko.Interpreter

open FixedWidth

theorem helperCarry_eq (a b : BitVec 32) :
    helperCarry a b = decide (2 ^ 32 ≤ a.toNat + b.toNat) := by
  have := a.isLt
  rw [helperCarry, decide_eq_decide, BitVec.lt_def, BitVec.toNat_not]
  omega

theorem hasAddOverflowed_eq (x y r : BitVec 32) :
    hasAddOverflowed x y r = ((x.msb ^^ r.msb) && (y.msb ^^ r.msb)) := by
  rw [hasAddOverflowed, ushiftRight_31_ne_zero, BitVec.msb_and, BitVec.msb_xor, BitVec.msb_xor]

/-- The overflow test decides whether the exact signed sum, a carry in included, fits. -/
theorem hasAddOverflowed_sum (x y c : BitVec 32) (hc : c.toNat ≤ 1) :
    hasAddOverflowed x y (x + y + c) =
      decide (x.toInt + y.toInt + c.toNat < -2 ^ 31 ∨ 2 ^ 31 ≤ x.toInt + y.toInt + c.toNat) := by
  have hx := x.isLt
  have hy := y.isLt
  rw [hasAddOverflowed_eq]
  simp only [BitVec.msb_eq_decide, BitVec.toInt_eq_toNat_cond, BitVec.toNat_add]
  rw [Bool.eq_iff_iff]
  simp
  omega

/-! ## Agreement with widened arithmetic -/

theorem carry_of_add (a b : BitVec 32) :
    ((a.setWidth 64 + b.setWidth 64) >>> 32 != 0) = helperCarry a b := by
  have := a.isLt
  have := b.isLt
  rw [helperCarry_eq, ushiftRight_32_ne_zero, BitVec.toNat_add, BitVec.toNat_setWidth,
    BitVec.toNat_setWidth, decide_eq_decide]
  omega

theorem overflow_of_add (a b : BitVec 32) :
    (a.signExtend 64 + b.signExtend 64 !=
      ((a.signExtend 64 + b.signExtend 64).setWidth 32).signExtend 64) =
      hasAddOverflowed a b (a + b) := by
  have sum := hasAddOverflowed_sum a b 0#32 (by decide)
  rw [BitVec.add_zero] at sum
  rw [sum, ne_signExtend_low, toInt_signExtend_add]
  simp

/-- `b - a` as the interpreter computes it, by adding the complement and one. -/
theorem carry_of_sub (a b : BitVec 32) :
    (((~~~a).setWidth 64 + b.setWidth 64 + 1) >>> 32 != 0) =
      (~~~a == 0xFFFFFFFF || helperCarry b (~~~a + 1)) := by
  have := a.isLt
  have := b.isLt
  rw [Bool.eq_iff_iff, helperCarry_eq, ushiftRight_32_ne_zero, Bool.or_eq_true, beq_iff_eq,
    ← BitVec.toNat_inj]
  simp only [BitVec.toNat_add, BitVec.toNat_setWidth, BitVec.toNat_not, decide_eq_true_eq,
    BitVec.ofNat_eq_ofNat, BitVec.toNat_ofNat]
  omega

theorem overflow_of_sub (a b : BitVec 32) :
    (b.signExtend 64 - a.signExtend 64 !=
      ((b.signExtend 64 - a.signExtend 64).setWidth 32).signExtend 64) =
      hasAddOverflowed (~~~a) b (~~~a + b + 1) := by
  rw [hasAddOverflowed_sum _ _ 1 (by decide), ne_signExtend_low, toInt_signExtend_sub,
    toInt_not, decide_eq_decide]
  simp only [BitVec.ofNat_eq_ofNat, BitVec.toNat_ofNat]
  omega

theorem low_of_sub (a b : BitVec 32) :
    ((~~~a).setWidth 64 + b.setWidth 64 + 1).setWidth 32 = ~~~a + b + 1 := by
  rw [BitVec.setWidth_add _ _ (by decide), BitVec.setWidth_add _ _ (by decide)]
  simp

theorem low_of_add (a b : BitVec 32) :
    (a.setWidth 64 + b.setWidth 64).setWidth 32 = a + b := by
  rw [BitVec.setWidth_add _ _ (by decide)]
  simp

/-- `subfic` compares where the widened form would carry. -/
theorem carry_of_sub_imm (a imm : BitVec 32) :
    (a == 0 || helperCarry (0 - a) imm) = decide (a ≤ imm) := by
  have := a.isLt
  have := imm.isLt
  rw [Bool.eq_iff_iff, helperCarry_eq, Bool.or_eq_true, beq_iff_eq, ← BitVec.toNat_inj,
    decide_eq_true_eq, decide_eq_true_eq, BitVec.le_def, BitVec.toNat_sub]
  simp only [BitVec.ofNat_eq_ofNat, BitVec.toNat_ofNat]
  omega

theorem overflow_of_mul (x : BitVec 64) :
    (x != (x.setWidth 32).signExtend 64) = (x.slt (-0x80000000#64) || (0x7FFFFFFF#64).slt x) := by
  have low : (-0x80000000#64).toInt = -2 ^ 31 := by decide
  have high : (0x7FFFFFFF#64).toInt = 2 ^ 31 - 1 := by decide
  rw [ne_signExtend_low, Bool.eq_iff_iff, Bool.or_eq_true, BitVec.slt_iff_toInt_lt,
    BitVec.slt_iff_toInt_lt, decide_eq_true_iff]
  omega

theorem overflow_of_neg (a : BitVec 32) :
    (-a.signExtend 64 != ((-a.signExtend 64).setWidth 32).signExtend 64) =
      (a == 0x80000000) := by
  have := a.toInt_lt
  have := a.le_toInt
  have exact : (-a.signExtend 64).toInt = -a.toInt := by
    rw [BitVec.toInt_neg, BitVec.toInt_signExtend_of_le (by decide)]
    exact Int.bmod_eq_of_le (by omega) (by omega)
  have least : (0x80000000#32).toInt = -2 ^ 31 := by decide
  rw [ne_signExtend_low, exact, Bool.eq_iff_iff, decide_eq_true_iff, beq_iff_eq,
    ← BitVec.toInt_inj]
  simp only [BitVec.ofNat_eq_ofNat]
  omega

/-- The carry of `srawx` for every 6-bit amount, read off the parked operand. -/
theorem carry_of_sshiftRight (s : BitVec 32) (n : Nat) (hn : n < 64) :
    ((s.signExtend 64 <<< 32).sshiftRight n &&& (s.sshiftRight n).setWidth 64 != 0) =
      if 32 ≤ n then s.msb else shiftCarry s n := by
  have lost : (s.signExtend 64 <<< 32).sshiftRight n &&& (s.sshiftRight n).setWidth 64 ≠ 0 ↔
      s.msb = true ∧ ∃ i, i < 32 ∧ 32 ≤ n + i ∧
        (if n + i < 64 then s.getLsbD (n + i - 32) else true) = true := by
    rw [ne_zero_iff_getLsbD]
    constructor
    · rintro ⟨i, set⟩
      have hi := BitVec.lt_of_getLsbD set
      rw [BitVec.getLsbD_and, sshiftRight_parked_bit s n i hi, BitVec.getLsbD_setWidth,
        BitVec.getLsbD_sshiftRight] at set
      grind
    · rintro ⟨neg, i, hi, reach, set⟩
      refine ⟨i, ?_⟩
      rw [BitVec.getLsbD_and, sshiftRight_parked_bit s n i (by omega), BitVec.getLsbD_setWidth,
        BitVec.getLsbD_sshiftRight]
      grind
  rw [Bool.eq_iff_iff, bne_iff_ne, lost]
  split
  · constructor
    · exact fun h => h.1
    · intro neg
      refine ⟨neg, 31, by omega, by omega, ?_⟩
      rw [BitVec.msb_eq_getLsbD_last] at neg
      split
      · have last : n + 31 - 32 = 31 := by omega
        rw [last]
        exact neg
      · rfl
  · rw [shiftCarry, Bool.and_eq_true, Bool.and_eq_true, bne_iff_ne, ne_zero_iff_getLsbD,
      decide_eq_true_iff, and_assoc]
    apply and_congr_right
    intro _
    constructor
    · rintro ⟨i, hi, reach, set⟩
      refine ⟨by omega, i, ?_⟩
      rw [BitVec.getLsbD_shiftLeft]
      grind
    · rintro ⟨pos, i, set⟩
      have hi := BitVec.lt_of_getLsbD set
      have index : i - (32 - n) = n + i - 32 := by omega
      rw [BitVec.getLsbD_shiftLeft, index] at set
      simp at set
      exact ⟨i, hi, by omega, by simp [set]⟩

theorem carry_of_srawi (s : BitVec 32) (sh : BitVec 5) :
    (sh != 0 && s.msb && s <<< (32 - sh.toNat) != 0) = shiftCarry s sh.toNat := by
  have pos : (sh != 0) = decide (0 < sh.toNat) := by
    rw [Bool.eq_iff_iff, bne_iff_ne, ne_eq, ← BitVec.toNat_inj, decide_eq_true_iff,
      BitVec.ofNat_eq_ofNat, BitVec.toNat_zero]
    omega
  rw [shiftCarry, pos, Bool.and_comm (decide _)]

/-- The sign bit, as `srawx` tests it. -/
theorem and_0x80000000_ne_zero_iff (s : BitVec 32) : s &&& 0x80000000 ≠ 0 ↔ s.msb = true := by
  have single : s &&& 0x80000000 = if s.getLsbD 31 then 0x80000000 else 0 := BitVec.and_twoPow s 31
  rw [single, BitVec.msb_eq_getLsbD_last]
  cases h : s.getLsbD 31 <;> simp

end Phocoena.Gekko.Interpreter
