import Phocoena.Gekko.Interpreter
import Phocoena.JitArm64.Division
import Phocoena.JitCommon.DivUtilsExact
import Phocoena.Lib.FixedWidth

/-! # Quotients

The values that the compiled divisions compute, and when they are the interpreter's.
-/

namespace Phocoena.JitArm64

open Gekko JitCommon FixedWidth Interpreter MagicDivision

section
variable {x d q : BitVec 32}

theorem toInt_divwQuotient (hd : d ≠ 0) (fits : x ≠ 0x80000000 ∨ d ≠ 0xFFFFFFFF) :
    (divwQuotient x d).toInt = x.toInt.tdiv d.toInt := by
  have regular : ¬ (d = 0 ∨ x = 0x80000000 ∧ d = 0xFFFFFFFF) := by tauto
  rw [divwQuotient, if_neg regular]
  exact BitVec.toInt_sdiv_of_ne_or_ne _ _ fits

theorem eq_divwQuotient_iff (hd : d ≠ 0) (fits : x ≠ 0x80000000 ∨ d ≠ 0xFFFFFFFF) :
    q = divwQuotient x d ↔ q.toInt = x.toInt.tdiv d.toInt := by
  rw [← toInt_divwQuotient hd fits, BitVec.toInt_inj]

end

/-! ## Powers of two -/

theorem isPow2_iff {w : Nat} (d : BitVec w) : isPow2 d = true ↔ ∃ k, d.toNat = 2 ^ k := by
  have zero : 0 < d ↔ d.toNat ≠ 0 := by simp [BitVec.lt_def, Nat.pos_iff_ne_zero]
  have meet : d.toNat ≠ 0 → (d &&& (d - 1) = 0 ↔ d.toNat &&& (d.toNat - 1) = 0) := by
    intro ne
    have pred : (d - 1).toNat = d.toNat - 1 := by
      have one_le : 1 ≤ d.toNat := Nat.pos_iff_ne_zero.mpr ne
      have wide : 1 < 2 ^ w := lt_of_le_of_lt one_le d.isLt
      have one : (1 : BitVec w).toNat = 1 := Nat.mod_eq_of_lt wide
      rw [BitVec.toNat_sub_of_le (by rw [BitVec.le_def, one]; exact one_le), one]
    rw [← BitVec.toNat_inj, BitVec.toNat_and, pred]
    exact Iff.rfl
  rw [isPow2, decide_eq_true_eq, zero, and_congr_right meet,
    Nat.ne_zero_and_sub_one_eq_zero_iff_isPowerOfTwo]
  exact Iff.rfl

theorem isPow2Signed_iff {w : Nat} (d : BitVec w) :
    isPow2Signed d = true ↔ ∃ k : Nat, d.toInt = 2 ^ k := by
  have signed : (0#w).slt d = true ↔ 0 < d.toInt := by simp [BitVec.slt_iff_toInt_lt]
  have same : isPow2Signed d = true ↔ (0#w).slt d = true ∧ isPow2 d = true := by
    simp only [isPow2Signed, isPow2, decide_eq_true_eq]
    refine and_congr_right fun pos => (and_iff_right ?_).symm
    have positive := signed.mp pos
    rw [BitVec.lt_def]
    refine Nat.pos_of_ne_zero fun zero => ?_
    have : d = 0#w := BitVec.eq_of_toNat_eq (by simpa using zero)
    rw [this, BitVec.toInt_zero] at positive
    omega
  rw [same, signed, isPow2_iff]
  constructor
  · rintro ⟨pos, k, eq⟩
    refine ⟨k, ?_⟩
    have := BitVec.toInt_eq_toNat_of_msb (x := d) (by
      rw [BitVec.msb_eq_toInt, decide_eq_false_iff_not]
      omega)
    rw [this, eq]
    push_cast
    rfl
  · rintro ⟨k, eq⟩
    have pos : (0 : Int) < 2 ^ k := by positivity
    refine ⟨by omega, k, ?_⟩
    have := BitVec.toInt_eq_toNat_of_msb (x := d) (by
      rw [BitVec.msb_eq_toInt, decide_eq_false_iff_not]
      omega)
    rw [this] at eq
    exact_mod_cast eq

theorem intLog2_two_pow {d : BitVec 64} {k : Nat} (h : d.toNat = 2 ^ k) : intLog2 d = k := by
  have ne : d ≠ 0 := by
    rintro rfl
    have := Nat.two_pow_pos k
    simp at h
    omega
  have low := BitVec.two_pow_sub_clz_le_toNat_of_ne_zero (by decide) ne
  have high := BitVec.toNat_lt_two_pow_sub_clz (x := d)
  rw [h] at low high
  have := (Nat.pow_le_pow_iff_right (by decide)).mp low
  have := (Nat.pow_lt_pow_iff_right (by decide)).mp high
  unfold intLog2
  omega


section
variable {x y d : BitVec 32} {k : Nat}

theorem toInt_sub_zero (hy : y ≠ BitVec.intMin 32) : (0#32 - y).toInt = -y.toInt := by
  rw [← BitVec.toInt_neg_of_ne_intMin hy]
  simp

/-- A rounded dividend, shifted and negated for a negative divisor. -/
theorem rounded_shift_eq (hk : 1 ≤ k) (abs : d.toInt = 2 ^ k ∨ d.toInt = -2 ^ k)
    (hy : y.toInt = x.toInt + if x.toInt < 0 then 2 ^ k - 1 else 0) :
    (if d.slt 0 then 0#32 - y.sshiftRight k else y.sshiftRight k) = divwQuotient x d := by
  have pos : 0 < 2 ^ k := Nat.two_pow_pos k
  have two : 2 ≤ 2 ^ k := Nat.le_self_pow (by omega) 2
  have cast : ((2 ^ k : Nat) : Int) = 2 ^ k := by push_cast; rfl
  have quotient : (y.sshiftRight k).toInt = x.toInt.tdiv (2 ^ k) := by
    rw [BitVec.toInt_sshiftRight, Int.shiftRight_eq_div_pow, hy, ← cast,
      ediv_rounded_eq_tdiv x.toInt pos]
  have ne : d ≠ 0 := by
    rintro rfl
    simp at abs
    omega
  have notMinusOne : d ≠ 0xFFFFFFFF := by
    rintro rfl
    have : (0xFFFFFFFF : BitVec 32).toInt = -1 := rfl
    rw [this] at abs
    omega
  have regular : y.sshiftRight k ≠ BitVec.intMin 32 := by
    intro least
    have size : 2 ^ 31 = x.toInt.natAbs / 2 ^ k := by
      rw [least, ← cast] at quotient
      have := congrArg Int.natAbs quotient
      rwa [Int.natAbs_tdiv, Int.natAbs_natCast] at this
    have half : x.toInt.natAbs / 2 ^ k ≤ x.toInt.natAbs / 2 := Nat.div_le_div_left two (by decide)
    rw [← size] at half
    have := x.le_toInt
    have := x.toInt_lt
    omega
  rw [eq_divwQuotient_iff ne (.inr notMinusOne)]
  rcases abs with eq | eq
  · have nonneg : d.slt 0 = false := by
      rw [Bool.eq_false_iff, ne_eq, BitVec.slt_iff_toInt_lt, eq]
      simp
    rw [nonneg, eq]
    exact quotient
  · have negative : d.slt 0 = true := by
      rw [BitVec.slt_iff_toInt_lt, eq]
      simp
    rw [negative, eq, if_pos rfl, toInt_sub_zero regular, quotient, Int.tdiv_neg]

end

/-! ## Multiplication by the reciprocal -/

/-- The value that the four shapes of `divwxByMultiplication` compute. -/
def multiplied (divisor : BitVec 32) (m : SignedMagic) (x : BitVec 32) : BitVec 32 :=
  let xa := x.signExtend 64
  let product := xa * m.multiplier.signExtend 64
  if (0#32).slt divisor ∧ m.multiplier.slt 0#32 then
    x >>> 31 + ((xa + product >>> 32).setWidth 32).sshiftRight m.shift.toNat
  else if divisor.slt 0#32 ∧ (0#32).slt m.multiplier then
    let wa := (-product + xa >>> 32).setWidth 32
    wa >>> 31 + wa.sshiftRight m.shift.toNat
  else if (0#32).slt m.multiplier then
    (product.sshiftRight (32 + m.shift.toNat)).setWidth 32 + x >>> 31
  else (product >>> 63).setWidth 32 + (product.sshiftRight (32 + m.shift.toNat)).setWidth 32

/-! ### The four shapes -/

theorem floor_fits {y : Int} {M N : Nat} (low : -2 ^ 31 ≤ y) (high : y ≤ 2 ^ 31) (lt : M < N) :
    -2 ^ 31 ≤ y * M / (N : Int) ∧ y * M / (N : Int) < 2 ^ 31 := by
  have below := Int.mul_le_mul_of_nonneg_right low (Int.natCast_nonneg M)
  have above := Int.mul_le_mul_of_nonneg_right high (Int.natCast_nonneg M)
  exact ⟨Int.le_ediv_of_mul_le (by omega) (by omega), Int.ediv_lt_of_lt_mul (by omega) (by omega)⟩

theorem floor_floor (y : Int) (s : Nat) :
    y / 2 ^ 32 / ((2 ^ s : Nat) : Int) = y / ((2 ^ (32 + s) : Nat) : Int) := by
  rw [Int.ediv_ediv_of_nonneg (by decide), Nat.pow_add]
  push_cast
  rfl

section
variable {multiplier x : BitVec 32} {M : Nat}

/-- A long multiplier is short of `M` by `2 ^ 32`; adding the dividend to the high word makes up
for it. -/
theorem toInt_high_sum (small : M < 2 ^ 32) (mu : multiplier.toInt = M - 2 ^ 32) :
    ((x.signExtend 64 + (x.signExtend 64 * multiplier.signExtend 64) >>> 32).setWidth
      32).toInt = x.toInt * M / 2 ^ 32 := by
  have cast : ((2 ^ 32 : Nat) : Int) = 2 ^ 32 := rfl
  have floor : x.toInt * (M - 2 ^ 32) / 2 ^ 32 = x.toInt * M / 2 ^ 32 - x.toInt := by
    rw [Int.mul_sub, Int.sub_eq_add_neg, ← Int.neg_mul, Int.add_mul_ediv_right _ _ (by decide)]
    rfl
  obtain ⟨low, high⟩ := floor_fits x.le_toInt x.toInt_lt.le small
  rw [cast] at low high
  rw [BitVec.setWidth_add _ _ (by decide), high_word_eq, setWidth_signExtend, BitVec.toInt_add,
    toInt_setWidth_low, BitVec.toInt_sshiftRight, toInt_signExtend_mul, mu,
    Int.shiftRight_eq_div_pow, Int.add_bmod_bmod, cast, floor, add_sub_cancel,
    Int.bmod_eq_of_le (by omega) (by omega)]

end

/-- The low word of a shifted product that has already room for it. -/
theorem toInt_shifted_product {multiplier x : BitVec 32} {y : Int} {M s : Nat}
    (low : -2 ^ 31 ≤ y) (high : y ≤ 2 ^ 31) (small : M < 2 ^ 32)
    (product : x.toInt * multiplier.toInt = y * M) :
    (((x.signExtend 64 * multiplier.signExtend 64).sshiftRight (32 + s)).setWidth 32).toInt =
      y * M / ((2 ^ (32 + s) : Nat) : Int) := by
  have room : M < 2 ^ (32 + s) := small.trans_le (Nat.pow_le_pow_right (by decide) (by omega))
  obtain ⟨low, high⟩ := floor_fits low high room
  rw [toInt_setWidth_low, BitVec.toInt_sshiftRight, toInt_signExtend_mul, product,
    Int.shiftRight_eq_div_pow, Int.bmod_eq_of_le (by omega) (by omega)]


theorem abs_toNat {w : Nat} (d : BitVec w) : d.abs.toNat = d.toInt.natAbs := by
  have := d.isLt
  rw [BitVec.toNat_abs, BitVec.toInt_eq_msb_cond]
  split <;> omega

theorem tdiv_fits (divisor x : BitVec 32) (h2 : 2 ≤ divisor.toInt.natAbs) :
    -2 ^ 31 ≤ x.toInt.tdiv divisor.toInt ∧ x.toInt.tdiv divisor.toInt < 2 ^ 31 := by
  have size := Int.natAbs_tdiv x.toInt divisor.toInt
  have half : x.toInt.natAbs / divisor.toInt.natAbs ≤ x.toInt.natAbs / 2 :=
    Nat.div_le_div_left h2 (by decide)
  have := x.le_toInt
  have := x.toInt_lt
  change _ = x.toInt.natAbs / divisor.toInt.natAbs at size
  omega

section
variable {divisor x : BitVec 32} (h3 : 3 ≤ divisor.abs.toNat) (hlt : divisor.abs.toNat < 2 ^ 31)
variable {p : Nat} (isExp : IsExponent divisor p)

/-- The constants for a divisor whose search stops at the exponent `p`. -/
def signedMagic (divisor : BitVec 32) (p : Nat) : SignedMagic where
  multiplier := if divisor.slt 0 then -BitVec.ofNat 32 (roundedReciprocal divisor p)
    else BitVec.ofNat 32 (roundedReciprocal divisor p)
  shift := BitVec.ofNat 8 (p - 32)

include isExp in
theorem signedMagic_shift : 32 + (signedMagic divisor p).shift.toNat = p := by
  have := isExp.ge
  have := isExp.le
  rw [signedMagic, BitVec.toNat_ofNat, Nat.mod_eq_of_lt (by omega)]
  omega

include h3 hlt isExp

theorem signedMagic_multiplier : (signedMagic divisor p).multiplier.toInt =
    if roundedReciprocal divisor p < 2 ^ 31 then
      (if divisor.slt 0 then -1 else 1) * (roundedReciprocal divisor p : Int)
    else (if divisor.slt 0 then -1 else 1) * ((roundedReciprocal divisor p : Int) - 2 ^ 32) := by
  have lt := roundedReciprocal_lt h3 hlt isExp
  have ne := roundedReciprocal_ne h3 hlt isExp
  have pos : 0 < roundedReciprocal divisor p := Nat.succ_pos _
  rw [signedMagic]
  generalize roundedReciprocal divisor p = M at *
  split
  · rw [BitVec.toInt_eq_toNat_cond, BitVec.toNat_neg, BitVec.toNat_ofNat, Nat.mod_eq_of_lt lt,
      Nat.mod_eq_of_lt (by omega)]
    split <;> split <;> omega
  · rw [BitVec.toInt_eq_toNat_cond, BitVec.toNat_ofNat, Nat.mod_eq_of_lt lt]
    split <;> split <;> omega

variable (odd : ¬ divisor.abs.toNat ∣ 2 ^ 31)

omit hlt isExp in
theorem divisor_regular : divisor ≠ 0 ∧ divisor ≠ 0xFFFFFFFF := by
  constructor <;> rintro rfl <;> exact absurd h3 (by decide)

include odd

theorem multiplied_of_pos (pos : 0 < divisor.toInt) :
    multiplied divisor (signedMagic divisor p) x = divwQuotient x divisor := by
  obtain ⟨ne, notMinusOne⟩ := divisor_regular h3
  have magnitude := abs_toNat divisor
  have shift := signedMagic_shift isExp
  have mu := signedMagic_multiplier h3 hlt isExp
  have lt := roundedReciprocal_lt h3 hlt isExp
  have positive : 0 < roundedReciprocal divisor p := Nat.succ_pos _
  have quotient := floor_quotient h3 hlt isExp odd x.le_toInt (.inl x.toInt_lt)
  obtain ⟨low, high⟩ := tdiv_fits divisor x (by omega)
  have same : (divisor.abs.toNat : Int) = divisor.toInt := by omega
  rw [same] at quotient
  have nonneg : divisor.slt 0#32 = false := by
    rw [Bool.eq_false_iff, ne_eq, BitVec.slt_iff_toInt_lt, BitVec.toInt_zero]
    omega
  have pos' : (0#32).slt divisor = true := by
    rw [BitVec.slt_iff_toInt_lt, BitVec.toInt_zero]
    exact pos
  rw [eq_divwQuotient_iff ne (.inr notMinusOne), ← quotient]
  rw [← quotient] at low high
  generalize roundedReciprocal divisor p = M at *
  generalize signedMagic divisor p = m at *
  simp only [BitVec.ofNat_eq_ofNat, nonneg, Bool.false_eq_true, if_false, Int.one_mul] at mu
  simp only [multiplied, nonneg, pos', Bool.false_eq_true, false_and, if_false, true_and]
  split at mu
  · have short : (0#32).slt m.multiplier = true ∧ m.multiplier.slt 0#32 = false := by
      rw [Bool.eq_false_iff, ne_eq, BitVec.slt_iff_toInt_lt, BitVec.slt_iff_toInt_lt, mu,
        BitVec.toInt_zero]
      omega
    have product := toInt_shifted_product (s := m.shift.toNat) x.le_toInt x.toInt_lt.le lt
      (congrArg (x.toInt * ·) mu)
    simp only [short, Bool.false_eq_true, if_false, if_true]
    rw [shift] at product ⊢
    exact toInt_add_eq (by rw [product, toInt_sign_bit]) low high
  · have long : m.multiplier.slt 0#32 = true := by
      rw [BitVec.slt_iff_toInt_lt, mu, BitVec.toInt_zero]
      omega
    have sum : (((x.signExtend 64 + (x.signExtend 64 * m.multiplier.signExtend 64) >>> 32).setWidth
        32).sshiftRight m.shift.toNat).toInt = x.toInt * M / ((2 ^ p : Nat) : Int) := by
      rw [BitVec.toInt_sshiftRight, toInt_high_sum lt mu, Int.shiftRight_eq_div_pow,
        floor_floor, shift]
    simp only [long, if_true]
    exact toInt_add_eq (by rw [sum, toInt_sign_bit, Int.add_comm]) low high

omit odd

/-- A short multiplier for a negative divisor multiplies the negated dividend by the reciprocal. -/
theorem toInt_multiplied_of_neg (neg : divisor.toInt < 0)
    (short : roundedReciprocal divisor p < 2 ^ 31) :
    (multiplied divisor (signedMagic divisor p) x).toInt =
      -x.toInt * (roundedReciprocal divisor p : Int) / ((2 ^ p : Nat) : Int) +
        if -x.toInt < 0 then 1 else 0 := by
  have shift := signedMagic_shift isExp
  have mu := signedMagic_multiplier h3 hlt isExp
  have lt := roundedReciprocal_lt h3 hlt isExp
  have positive : 0 < roundedReciprocal divisor p := Nat.succ_pos _
  have isNeg : divisor.slt 0#32 = true := by
    rw [BitVec.slt_iff_toInt_lt, BitVec.toInt_zero]
    exact neg
  have notPos : (0#32).slt divisor = false := by
    rw [Bool.eq_false_iff, ne_eq, BitVec.slt_iff_toInt_lt, BitVec.toInt_zero]
    omega
  generalize roundedReciprocal divisor p = M at *
  generalize signedMagic divisor p = m at *
  simp only [BitVec.ofNat_eq_ofNat, isNeg, short, if_true, Int.neg_one_mul] at mu
  have notLong : (0#32).slt m.multiplier = false := by
    rw [Bool.eq_false_iff, ne_eq, BitVec.slt_iff_toInt_lt, mu, BitVec.toInt_zero]
    omega
  simp only [multiplied, notPos, notLong, Bool.false_eq_true, false_and, and_false, if_false]
  have := x.le_toInt
  have := x.toInt_lt
  have product : x.toInt * m.multiplier.toInt = -x.toInt * M := by
    rw [mu, Int.mul_neg, Int.neg_mul]
  have floor := toInt_shifted_product (s := m.shift.toNat) (y := -x.toInt) (by omega) (by omega) lt
    product
  have room : M < 2 ^ (32 + m.shift.toNat) :=
    lt.trans_le (Nat.pow_le_pow_right (by decide) (by omega))
  obtain ⟨low, high⟩ := floor_fits (y := -x.toInt) (by omega) (by omega) room
  have sign : -x.toInt * M < 0 ↔ -x.toInt < 0 := by
    rw [mul_neg_iff]
    omega
  have negative : -x.toInt < 0 → -x.toInt * M / ((2 ^ (32 + m.shift.toNat) : Nat) : Int) < 0 :=
    fun below => Int.ediv_neg_of_neg_of_pos (sign.mpr below) (by exact_mod_cast Nat.two_pow_pos _)
  rw [← shift]
  apply toInt_add_eq
  · rw [toInt_sign_bit_wide, floor, toInt_signExtend_mul, product, Int.add_comm]
    simp only [sign]
  · split <;> omega
  · split <;> omega

theorem multiplied_of_neg (odd : ¬ divisor.abs.toNat ∣ 2 ^ 31) (neg : divisor.toInt < 0)
    (short : roundedReciprocal divisor p < 2 ^ 31)
    (coprime : ¬ divisor.abs.toNat ∣ 2 ^ 31 + 1) :
    multiplied divisor (signedMagic divisor p) x = divwQuotient x divisor := by
  obtain ⟨ne, notMinusOne⟩ := divisor_regular h3
  have magnitude := abs_toNat divisor
  have := x.le_toInt
  have := x.toInt_lt
  have quotient := floor_quotient h3 hlt isExp odd (y := -x.toInt) (by omega) (by omega)
  have same : (divisor.abs.toNat : Int) = -divisor.toInt := by omega
  rw [eq_divwQuotient_iff ne (.inr notMinusOne), toInt_multiplied_of_neg h3 hlt isExp neg short,
    quotient, same, Int.tdiv_neg, Int.neg_tdiv, Int.neg_neg]

/-- The search for a negative divisor leaves out the magnitude of the least dividend. -/
theorem multiplied_of_dvd (neg : divisor.toInt < 0) (short : roundedReciprocal divisor p < 2 ^ 31)
    (dvd : divisor.abs.toNat ∣ 2 ^ 31 + 1) :
    multiplied divisor (signedMagic divisor p) 0x80000000 ≠ divwQuotient 0x80000000 divisor := by
  obtain ⟨ne, notMinusOne⟩ := divisor_regular h3
  have magnitude := abs_toNat divisor
  have least : (0x80000000 : BitVec 32).toInt = -2 ^ 31 := rfl
  have same : divisor.toInt = -(divisor.abs.toNat : Int) := by omega
  rw [ne_eq, eq_divwQuotient_iff ne (.inr notMinusOne),
    toInt_multiplied_of_neg h3 hlt isExp neg short, least, same]
  intro eq
  apply quotient_inexact h3 hlt isExp dvd
  have : (2 ^ 31 : Int) = ((2 ^ 31 : Nat) : Int) := rfl
  rw [Int.neg_neg, if_neg (by decide), Int.add_zero, Int.tdiv_neg, Int.neg_tdiv, Int.neg_neg, this,
    ← Int.ofNat_tdiv] at eq
  exact_mod_cast eq

/-- A long multiplier for a negative divisor: the code adds the high word of the dividend where it
should add that of the product, so dividing by the magnitude does not give minus one. -/
theorem multiplied_of_long (neg : divisor.toInt < 0) (long : 2 ^ 31 ≤ roundedReciprocal divisor p) :
    multiplied divisor (signedMagic divisor p) divisor.abs ≠ divwQuotient divisor.abs divisor := by
  obtain ⟨ne, notMinusOne⟩ := divisor_regular h3
  have magnitude := abs_toNat divisor
  have mu := signedMagic_multiplier h3 hlt isExp
  have lt := roundedReciprocal_lt h3 hlt isExp
  have notTie := roundedReciprocal_ne h3 hlt isExp
  have ge := isExp.ge
  have excess_le := excess_le divisor.abs.toNat p
  have reciprocal : divisor.abs.toNat * roundedReciprocal divisor p =
      2 ^ p + excess divisor.abs.toNat p := by
    rw [Nat.mul_comm]
    exact reciprocal_eq (by omega) p
  have isNeg : divisor.slt 0#32 = true := by
    rw [BitVec.slt_iff_toInt_lt, BitVec.toInt_zero]
    exact neg
  have notPos : (0#32).slt divisor = false := by
    rw [Bool.eq_false_iff, ne_eq, BitVec.slt_iff_toInt_lt, BitVec.toInt_zero]
    omega
  have word : (signedMagic divisor p).multiplier =
      -BitVec.ofNat 32 (roundedReciprocal divisor p) := by
    rw [signedMagic, BitVec.ofNat_eq_ofNat, isNeg, if_pos rfl]
  generalize roundedReciprocal divisor p = M at *
  generalize signedMagic divisor p = m at *
  simp only [BitVec.ofNat_eq_ofNat, isNeg, if_true, Int.neg_one_mul] at mu
  rw [if_neg (by omega)] at mu
  have isLong : (0#32).slt m.multiplier = true := by
    rw [BitVec.slt_iff_toInt_lt, mu, BitVec.toInt_zero]
    omega
  simp only [multiplied, notPos, isNeg, isLong, Bool.false_eq_true, false_and, true_and, if_false,
    if_true]
  have abs : divisor.abs.toInt = -divisor.toInt := by
    rw [BitVec.toInt_eq_toNat_of_lt (by omega)]
    omega
  -- the low word of the negated product is the excess of the reciprocal
  have low : (-(divisor.abs.signExtend 64 * m.multiplier.signExtend 64) +
      divisor.abs.signExtend 64 >>> 32).setWidth 32 =
        BitVec.ofNat 32 (excess divisor.abs.toNat p) := by
    have high : (divisor.abs.signExtend 64 >>> 32).setWidth 32 = 0#32 := by
      apply BitVec.eq_of_toInt_eq
      rw [high_word_eq, toInt_setWidth_low, BitVec.toInt_sshiftRight,
        BitVec.toInt_signExtend_of_le (by decide), Int.shiftRight_eq_div_pow, abs,
        Int.ediv_eq_zero_of_lt (by omega) (by omega)]
      rfl
    rw [BitVec.setWidth_add _ _ (by decide), high, BitVec.add_zero,
      BitVec.setWidth_neg_of_le (by decide), BitVec.setWidth_mul _ _ (by decide),
      setWidth_signExtend, setWidth_signExtend, word, BitVec.mul_neg, BitVec.neg_neg]
    apply BitVec.eq_of_toNat_eq
    obtain ⟨q, rfl⟩ : ∃ q, p = 32 + q := ⟨p - 32, by omega⟩
    rw [BitVec.toNat_mul, BitVec.toNat_ofNat, Nat.mul_mod_mod, reciprocal, Nat.pow_add,
      Nat.mul_add_mod, BitVec.toNat_ofNat]
  have small : (BitVec.ofNat 32 (excess divisor.abs.toNat p)).toInt = excess divisor.abs.toNat p := by
    rw [BitVec.toInt_ofNat', Int.bmod_eq_of_le (by omega) (by omega)]
  have quotient : (divwQuotient divisor.abs divisor).toInt = -1 := by
    rw [toInt_divwQuotient ne (.inr notMinusOne), abs, Int.neg_tdiv, Int.tdiv_self (by omega)]
  intro eq
  have := congrArg BitVec.toInt eq
  have nonneg : 0 ≤ (excess divisor.abs.toNat p : Int) / ((2 ^ m.shift.toNat : Nat) : Int) :=
    Int.ediv_nonneg (by omega) (Int.natCast_nonneg _)
  have le : (excess divisor.abs.toNat p : Int) / ((2 ^ m.shift.toNat : Nat) : Int) ≤
      excess divisor.abs.toNat p := Int.ediv_le_self _ (by omega)
  rw [low, quotient] at this
  rw [toInt_add_eq (s := (excess divisor.abs.toNat p : Int) / ((2 ^ m.shift.toNat : Nat) : Int))]
    at this
  · omega
  · rw [toInt_sign_bit, BitVec.toInt_sshiftRight, small, Int.shiftRight_eq_div_pow, if_neg (by omega),
      Int.zero_add]
  · omega
  · omega

end

/-! ## The divisors that come out right -/

/-- Some rounded-up reciprocal `2 ^ k / D` of less than 31 bits divides every dividend below
`2 ^ 31 - 1` exactly. -/
def ShortReciprocal (D : Nat) : Prop :=
  ∃ k, 32 ≤ k ∧ 2 ^ k < 2 ^ 31 * D ∧ ∀ n < 2 ^ 31 - 1, n * (2 ^ k / D + 1) / 2 ^ k = n / D

/-- The divisors that `divwx` divides by wrongly: negative ones other than powers of two whose
magnitude divides `2 ^ 31 + 1` or has no short reciprocal. -/
def Defective (divisor : BitVec 32) : Prop :=
  divisor.toInt < 0 ∧ (∀ k, divisor.toInt.natAbs ≠ 2 ^ k) ∧
    (divisor.toInt.natAbs ∣ 2 ^ 31 + 1 ∨ ¬ ShortReciprocal divisor.toInt.natAbs)

theorem largest_mod {d t : Nat} (hd : 0 < d) (le : d ≤ t) : (t - 1 - t % d) % d = d - 1 := by
  obtain ⟨q, hq⟩ := Nat.exists_eq_succ_of_ne_zero (Nat.div_pos le hd).ne'
  have parts := Nat.div_add_mod t d
  rw [hq, Nat.mul_succ] at parts
  have : t - 1 - t % d = d * q + (d - 1) := by omega
  rw [this, Nat.mul_add_mod, Nat.mod_eq_of_lt (by omega)]

section
variable {divisor : BitVec 32} (h3 : 3 ≤ divisor.abs.toNat) (hlt : divisor.abs.toNat < 2 ^ 31)
variable {p : Nat} (isExp : IsExponent divisor p) (odd : ¬ divisor.abs.toNat ∣ 2 ^ 31)

include h3 hlt isExp odd

theorem short_iff (neg : divisor.toInt < 0) :
    roundedReciprocal divisor p < 2 ^ 31 ↔ ShortReciprocal divisor.abs.toNat := by
  have pos : 0 < divisor.abs.toNat := by omega
  constructor
  · intro short
    refine ⟨p, isExp.ge, ?_, fun n below => ?_⟩
    · rw [← Nat.div_lt_iff_lt_mul pos]
      unfold roundedReciprocal at short
      omega
    · exact quotient_exact h3 hlt isExp odd (.inl (by omega))
  · rintro ⟨k, ge, small, exact⟩
    have bound : dividendBound divisor = 2 ^ 31 - 1 := by
      rw [dividendBound, if_pos]
      rw [BitVec.slt_iff_toInt_lt]
      exact neg
    have critical : largestCritical divisor < 2 ^ 31 - 1 ∧
        largestCritical divisor % divisor.abs.toNat = divisor.abs.toNat - 1 := by
      have mod := largest_mod pos (by omega : divisor.abs.toNat ≤ 2 ^ 31 - 1)
      rw [largestCritical, bound]
      exact ⟨by omega, mod⟩
    have error := (mul_div_eq_div_iff pos (Nat.two_pow_pos k) (reciprocal_eq pos k)).mp
      (exact _ critical.1)
    have enough : largestCritical divisor * excess divisor.abs.toNat k < 2 ^ k := by
      rw [critical.2, Nat.sub_mul] at error
      have : 2 ^ k ≤ divisor.abs.toNat * 2 ^ k := Nat.le_mul_of_pos_left _ pos
      omega
    have le : p ≤ k := by
      by_contra later
      have := isExp.first k ge (by omega)
      omega
    have ne := roundedReciprocal_ne h3 hlt isExp
    have : 2 ^ p / divisor.abs.toNat < 2 ^ 31 := by
      rw [Nat.div_lt_iff_lt_mul pos]
      exact (Nat.pow_le_pow_right (by decide) le).trans_lt small
    unfold roundedReciprocal at ne ⊢
    omega

/-- Multiplication by the reciprocal divides every dividend exactly just when the divisor is not
defective. -/
theorem multiplied_exact_iff : (∀ x, multiplied divisor (signedMagic divisor p) x =
    divwQuotient x divisor) ↔ ¬ Defective divisor := by
  have magnitude := abs_toNat divisor
  obtain ⟨ne, -⟩ := divisor_regular h3
  have notPow : ∀ k, divisor.toInt.natAbs ≠ 2 ^ k := by
    intro k eq
    apply odd
    rw [magnitude, eq] at hlt ⊢
    exact Nat.pow_dvd_pow 2 ((Nat.pow_lt_pow_iff_right (by decide)).mp hlt).le
  rcases lt_or_ge divisor.toInt 0 with neg | nonneg
  · have short := short_iff h3 hlt isExp odd neg
    rw [Defective, ← magnitude, ← short]
    constructor
    · rintro exact ⟨-, -, dvd | long⟩
      · by_cases short : roundedReciprocal divisor p < 2 ^ 31
        · exact multiplied_of_dvd h3 hlt isExp neg short dvd (exact _)
        · exact multiplied_of_long h3 hlt isExp neg (by omega) (exact _)
      · exact multiplied_of_long h3 hlt isExp neg (by omega) (exact _)
    · intro sound x
      have : roundedReciprocal divisor p < 2 ^ 31 ∧ ¬ divisor.abs.toNat ∣ 2 ^ 31 + 1 := by
        by_contra fails
        refine sound ⟨neg, by rwa [magnitude], ?_⟩
        tauto
      exact multiplied_of_neg h3 hlt isExp odd neg this.1 this.2
  · have pos : 0 < divisor.toInt := by omega
    exact iff_of_true (fun x => multiplied_of_pos h3 hlt isExp odd pos) fun d => by
      have := d.1
      omega

end

/-- The divisors left for the multiplication. -/
def ByMultiplication (divisor : BitVec 32) : Prop :=
  ¬ (divisor = 0 ∨ divisor = 1 ∨ divisor = -1 ∨ (divisor = 2 ∨ divisor = -2) ∨
    isPow2Signed divisor = true ∨ isPow2Signed (-divisor.signExtend 64) = true)

instance (divisor : BitVec 32) : Decidable (ByMultiplication divisor) :=
  inferInstanceAs (Decidable (¬ _))

theorem toInt_neg_signExtend (d : BitVec 32) : (-d.signExtend 64).toInt = -d.toInt := by
  have := d.le_toInt
  have := d.toInt_lt
  rw [BitVec.toInt_neg, BitVec.toInt_signExtend_of_le (by decide),
    Int.bmod_eq_of_le (by omega) (by omega)]

theorem isPow2Signed_or_iff (divisor : BitVec 32) :
    isPow2Signed divisor = true ∨ isPow2Signed (-divisor.signExtend 64) = true ↔
      ∃ k : Nat, divisor.toInt = 2 ^ k ∨ divisor.toInt = -2 ^ k := by
  rw [isPow2Signed_iff, isPow2Signed_iff, toInt_neg_signExtend, ← exists_or]
  exact exists_congr fun k => or_congr_right (by omega)

theorem small_divisor_iff (divisor : BitVec 32) :
    divisor = 0 ∨ divisor = 1 ∨ divisor = -1 ∨ divisor = 2 ∨ divisor = -2 ↔
      divisor.toInt.natAbs < 3 := by
  constructor
  · rintro (rfl | rfl | rfl | rfl | rfl) <;> decide
  · intro small
    have : divisor.toInt = 0 ∨ divisor.toInt = 1 ∨ divisor.toInt = -1 ∨ divisor.toInt = 2 ∨
      divisor.toInt = -2 := by omega
    exact this.imp (BitVec.eq_of_toInt_eq ·) (.imp (BitVec.eq_of_toInt_eq ·)
      (.imp (BitVec.eq_of_toInt_eq ·) (.imp (BitVec.eq_of_toInt_eq ·) (BitVec.eq_of_toInt_eq ·))))

theorem byMultiplication_iff (divisor : BitVec 32) : ByMultiplication divisor ↔
    3 ≤ divisor.toInt.natAbs ∧ ∀ k, divisor.toInt.natAbs ≠ 2 ^ k := by
  have powers : (∃ k : Nat, divisor.toInt = 2 ^ k ∨ divisor.toInt = -2 ^ k) ↔
      ∃ k, divisor.toInt.natAbs = 2 ^ k := by
    refine exists_congr fun k => ?_
    have : (2 : Int) ^ k = ((2 ^ k : Nat) : Int) := by push_cast; rfl
    rw [this]
    generalize 2 ^ k = n
    omega
  have small := small_divisor_iff divisor
  rw [ByMultiplication, isPow2Signed_or_iff, powers, ← not_lt, ← small, ← not_exists, ← not_or]
  simp only [or_assoc]

theorem ByMultiplication.facts {divisor : BitVec 32} (h : ByMultiplication divisor) :
    3 ≤ divisor.abs.toNat ∧ divisor.abs.toNat < 2 ^ 31 ∧ ¬ divisor.abs.toNat ∣ 2 ^ 31 := by
  obtain ⟨h3, notPow⟩ := (byMultiplication_iff divisor).mp h
  have := divisor.le_toInt
  have := divisor.toInt_lt
  have top := notPow 31
  rw [abs_toNat]
  refine ⟨h3, by omega, fun dvd => ?_⟩
  obtain ⟨k, -, eq⟩ := (Nat.dvd_prime_pow Nat.prime_two).mp dvd
  exact notPow k eq

theorem Defective.byMultiplication {divisor : BitVec 32} (h : Defective divisor) :
    ByMultiplication divisor := by
  obtain ⟨neg, notPow, -⟩ := h
  have one := notPow 0
  have two := notPow 1
  exact (byMultiplication_iff divisor).mpr ⟨by omega, notPow⟩

/-- The quotient the code for a known divisor computes. -/
def constantQuotient (x divisor : BitVec 32) : BitVec 32 :=
  if ByMultiplication divisor then
    ((signedDivisionConstants 64 divisor).map fun m => multiplied divisor m x).getD 0
  else divwQuotient x divisor

theorem constantQuotient_exact_iff (divisor : BitVec 32) :
    (∀ x, constantQuotient x divisor = divwQuotient x divisor) ↔ ¬ Defective divisor := by
  by_cases h : ByMultiplication divisor
  · obtain ⟨h3, hlt, odd⟩ := h.facts
    obtain ⟨p, isExp, constants⟩ := signedDivisionConstants_eq h3 hlt 64 (by decide)
    simp only [constantQuotient, if_pos h, constants, Option.map_some, Option.getD_some]
    exact multiplied_exact_iff h3 hlt isExp odd
  · simp only [constantQuotient, if_neg h]
    exact iff_of_true (fun _ => trivial) fun d => h d.byMultiplication

section
variable {x divisor : BitVec 32}

theorem constantQuotient_of_not (h : ¬ ByMultiplication divisor) :
    constantQuotient x divisor = divwQuotient x divisor := if_neg h

theorem constantQuotient_zero (x : BitVec 32) : constantQuotient x 0 = x.sshiftRight 31 := by
  rw [constantQuotient_of_not (fun h => h (by simp)), divwQuotient, if_pos (.inl rfl)]
  have := x.le_toInt
  have := x.toInt_lt
  apply BitVec.eq_of_toInt_eq
  rw [BitVec.toInt_sshiftRight, Int.shiftRight_eq_div_pow, BitVec.msb_eq_toInt]
  split
  · rename_i neg
    have neg : x.toInt < 0 := by simpa using neg
    have : (0xFFFFFFFF : BitVec 32).toInt = -1 := rfl
    omega
  · rename_i nonneg
    have nonneg : 0 ≤ x.toInt := by simpa using nonneg
    have : (0 : BitVec 32).toInt = 0 := rfl
    omega

theorem constantQuotient_one (x : BitVec 32) : constantQuotient x 1 = x := by
  rw [constantQuotient_of_not (fun h => h (by simp)), divwQuotient, if_neg (by simp)]
  exact BitVec.sdiv_one

theorem constantQuotient_neg_one (x : BitVec 32) :
    constantQuotient x (-1) = if x = 0x80000000 then 0xFFFFFFFF else 0#32 - x := by
  rw [constantQuotient_of_not (fun h => h (by simp))]
  split
  · rename_i eq
    rw [eq]
    rfl
  · rename_i ne
    symm
    rw [eq_divwQuotient_iff (by simp) (.inl ne), toInt_sub_zero ne]
    have : (-1 : BitVec 32).toInt = -1 := rfl
    rw [this, Int.tdiv_neg, Int.tdiv_one]

/-- The code for `±2 ^ k`, whatever it takes to round the dividend. -/
theorem constantQuotient_pow {y : BitVec 32} {k : Nat} (hk : 1 ≤ k)
    (abs : divisor.toInt = 2 ^ k ∨ divisor.toInt = -2 ^ k)
    (hy : y.toInt = x.toInt + if x.toInt < 0 then 2 ^ k - 1 else 0) :
    (if divisor.slt 0 then 0#32 - y.sshiftRight k else y.sshiftRight k) =
      constantQuotient x divisor := by
  have not : ¬ ByMultiplication divisor := by
    rw [byMultiplication_iff]
    rintro ⟨-, notPow⟩
    have cast : (2 : Int) ^ k = ((2 ^ k : Nat) : Int) := by push_cast; rfl
    have := notPow k
    rw [cast] at abs
    generalize 2 ^ k = n at *
    omega
  rw [constantQuotient_of_not not]
  exact rounded_shift_eq hk abs hy

theorem toInt_add_sign_bit (x : BitVec 32) :
    (x + x >>> 31).toInt = x.toInt + if x.toInt < 0 then 2 ^ 1 - 1 else 0 := by
  have := x.le_toInt
  have := x.toInt_lt
  apply toInt_add_eq
  · rw [toInt_sign_bit]
    rfl
  · split <;> omega
  · split <;> omega

theorem toInt_add_mask {k : Nat} {m : BitVec 32} (hm : m.toNat = 2 ^ k) (hk : k ≤ 31) :
    (if x.msb = false then x else x + (m - 1)).toInt =
      x.toInt + if x.toInt < 0 then 2 ^ k - 1 else 0 := by
  have := x.le_toInt
  have := x.toInt_lt
  have pos := Nat.two_pow_pos k
  have top : 2 ^ k ≤ 2 ^ 31 := Nat.pow_le_pow_right (by decide) hk
  have pred : (m - 1).toInt = 2 ^ k - 1 := by
    have one : (1 : BitVec 32).toNat = 1 := rfl
    have toNat : (m - 1).toNat = 2 ^ k - 1 := by
      rw [BitVec.toNat_sub_of_le (by rw [BitVec.le_def, one]; omega), hm, one]
    rw [BitVec.toInt_eq_toNat_of_lt (by omega), toNat]
    push_cast [pos]
    rfl
  rw [BitVec.msb_eq_toInt]
  split
  · rename_i nonneg
    rw [if_neg (by simpa using nonneg), Int.add_zero]
  · rename_i neg
    have neg : x.toInt < 0 := by simpa using neg
    rw [if_pos neg]
    apply toInt_add_eq
    · rw [pred]
    all_goals
      have cast : (2 : Int) ^ k = ((2 ^ k : Nat) : Int) := by push_cast; rfl
      rw [cast]
      generalize 2 ^ k = n at *
      omega

end

/-! ## Unsigned division -/

section
variable {x divisor : BitVec 32}

theorem divwuQuotient_pow {k : Nat} (pow : divisor.toNat = 2 ^ k) :
    x >>> k = divwuQuotient x divisor := by
  have ne : divisor ≠ 0 := by
    rintro rfl
    have := Nat.two_pow_pos k
    simp at pow
    omega
  rw [divwuQuotient, if_neg ne]
  apply BitVec.eq_of_toNat_eq
  rw [BitVec.toNat_ushiftRight, BitVec.toNat_udiv, pow, Nat.shiftRight_eq_div_pow]

/-- The product of the dividend, or its successor, and the multiplier, shifted. -/
theorem divwuQuotient_multiplied (ne : divisor ≠ 0)
    (odd : ∀ k, divisor.toNat ≠ 2 ^ k) :
    ((if (unsignedDivisionConstants divisor).fast then 0#64
        else (unsignedDivisionConstants divisor).multiplier.setWidth 64) +
      x.setWidth 64 * (unsignedDivisionConstants divisor).multiplier.setWidth 64) >>>
        (32 + (unsignedDivisionConstants divisor).shift.toNat) =
      (divwuQuotient x divisor).setWidth 64 := by
  obtain ⟨quotient, -⟩ := unsigned_quotient ne odd x
  generalize unsignedDivisionConstants divisor = m at *
  rw [divwuQuotient, if_neg ne]
  apply BitVec.eq_of_toNat_eq
  rw [BitVec.toNat_setWidth_of_le (by decide), BitVec.toNat_udiv, ← quotient,
    BitVec.toNat_ushiftRight, Nat.shiftRight_eq_div_pow]
  congr 1
  have hx := x.isLt
  have hm := m.multiplier.isLt
  have bound : (x.toNat + 1) * m.multiplier.toNat < 2 ^ 64 := by
    calc (x.toNat + 1) * m.multiplier.toNat ≤ 2 ^ 32 * m.multiplier.toNat :=
          Nat.mul_le_mul_right _ hx
      _ < 2 ^ 32 * 2 ^ 32 := Nat.mul_lt_mul_of_pos_left hm (by decide)
  rw [Nat.succ_mul] at bound
  have product : (x.setWidth 64 * m.multiplier.setWidth 64).toNat =
      x.toNat * m.multiplier.toNat := by
    rw [BitVec.toNat_mul, BitVec.toNat_setWidth_of_le (by decide),
      BitVec.toNat_setWidth_of_le (by decide), Nat.mod_eq_of_lt (by omega)]
  rw [BitVec.toNat_add, product, Nat.add_mul, Nat.add_comm]
  cases m.fast with
  | true =>
      simp
      omega
  | false =>
      simp
      omega

end

end Phocoena.JitArm64
