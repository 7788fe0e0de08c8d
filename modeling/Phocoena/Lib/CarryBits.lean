import Mathlib.Algebra.Order.Group.Int
import Mathlib.Tactic.Ring
import Mathlib.Tactic.Linarith

/-! # Carries of sums

The bit at which a sum differs from the exclusive or of its operands is the carry into it, which
depends on the remainders of the operands. Words are given by the numbers they stand for.
-/

namespace Phocoena.CarryBits

variable {w k : Nat}

theorem two_pow_pos (k : Nat) : (0 : Int) < 2 ^ k := Int.pow_pos (by decide)

theorem xor_cancel (x y c : Bool) : ((x ^^ (y ^^ c)) ^^ x ^^ y) = c := by
  cases x <;> cases y <;> cases c <;> rfl

theorem toNat_ofInt_emod (le : k ≤ w) (a : Int) :
    ((BitVec.ofInt w a).toNat : Int) % 2 ^ k = a % 2 ^ k := by
  have dvd : (2 : Int) ^ k ∣ 2 ^ w := pow_dvd_pow 2 le
  have word : ((2 ^ w : Nat) : Int) = 2 ^ w := by push_cast; rfl
  rw [BitVec.toNat_ofInt, word, Int.toNat_of_nonneg (Int.emod_nonneg _ (two_pow_pos w).ne')]
  exact Int.emod_emod_of_dvd a dvd

theorem carry_ofInt (le : k ≤ w) (a b : Int) (c : Bool) :
    BitVec.carry k (BitVec.ofInt w a) (BitVec.ofInt w b) c =
      decide (2 ^ k ≤ a % 2 ^ k + b % 2 ^ k + c.toNat) := by
  rw [BitVec.carry, ← toNat_ofInt_emod le a, ← toNat_ofInt_emod le b, decide_eq_decide, ge_iff_le]
  exact_mod_cast Iff.rfl

/-- The carry into a bit of a sum. -/
theorem getLsbD_xor_add (lt : k < w) (a b : Int) :
    (BitVec.ofInt w (a + b) ^^^ BitVec.ofInt w a ^^^ BitVec.ofInt w b).getLsbD k =
      decide (2 ^ k ≤ a % 2 ^ k + b % 2 ^ k) := by
  rw [BitVec.ofInt_add, BitVec.getLsbD_xor, BitVec.getLsbD_xor, BitVec.getLsbD_add lt,
    carry_ofInt lt.le, xor_cancel, Bool.toNat_false, Nat.cast_zero, Int.add_zero]

theorem not_ofInt (a : Int) : ~~~ BitVec.ofInt w a = BitVec.ofInt w (-a - 1) := by
  rw [BitVec.not_eq_neg_add, BitVec.sub_eq_add_neg, ← BitVec.ofInt_neg, Int.sub_eq_add_neg,
    BitVec.ofInt_add, BitVec.ofInt_neg (n := 1)]
  rfl

/-- The carry into a bit of a difference, which is the sum with the complement and one more. -/
theorem getLsbD_xor_sub (lt : k < w) (a b : Int) :
    (BitVec.ofInt w (a - b) ^^^ BitVec.ofInt w a ^^^ ~~~ BitVec.ofInt w b).getLsbD k =
      decide (b % 2 ^ k ≤ a % 2 ^ k) := by
  have pos := two_pow_pos k
  have lower := Int.emod_nonneg b pos.ne'
  have upper := Int.emod_lt_of_pos b pos
  have complement : (-b - 1) % 2 ^ k = 2 ^ k - 1 - b % 2 ^ k := by
    have split : -b - 1 = (2 ^ k - 1 - b % 2 ^ k) + 2 ^ k * (-(b / 2 ^ k) - 1) := by
      have := Int.emod_add_mul_ediv b (2 ^ k)
      linarith
    rw [split, Int.add_mul_emod_self_left]
    exact Int.emod_eq_of_lt (by omega) (by omega)
  have whole : BitVec.ofInt w (a - b) =
      BitVec.ofInt w a + BitVec.ofInt w (-b - 1) + (BitVec.ofBool true).setWidth w := by
    have one : (BitVec.ofBool true).setWidth w = BitVec.ofInt w 1 := by
      refine BitVec.eq_of_toNat_eq ?_
      simp
    rw [one, ← BitVec.ofInt_add, ← BitVec.ofInt_add]
    congr 1
    ring
  rw [not_ofInt, whole, BitVec.getLsbD_xor, BitVec.getLsbD_xor, BitVec.getLsbD_add_add_bool lt,
    carry_ofInt lt.le, complement, xor_cancel, decide_eq_decide, Bool.toNat_true, Nat.cast_one]
  omega

/-- A step of up to `2 ^ k` changes bit `k` where it carries into it, a step of `2 ^ k` always. -/
theorem getLsbD_xor_step (lt : k < w) (a : Int) {n : Nat} (le : n ≤ 2 ^ k) :
    (BitVec.ofInt w (a + n) ^^^ BitVec.ofInt w a).getLsbD k = decide (2 ^ k ≤ a % 2 ^ k + n) := by
  have lower := Int.emod_nonneg a (two_pow_pos k).ne'
  have upper := Int.emod_lt_of_pos a (two_pow_pos k)
  have cancel : ∀ x c : Bool, ((x ^^ c) ^^ x) = c := by decide
  rw [BitVec.ofInt_add, BitVec.getLsbD_xor, BitVec.getLsbD_add lt, carry_ofInt lt.le, cancel,
    BitVec.ofInt_natCast, BitVec.getLsbD_ofNat, decide_eq_true lt, Bool.true_and,
    Bool.toNat_false, Nat.cast_zero, Int.add_zero]
  rcases Nat.eq_or_lt_of_le le with whole | small
  · have eq : (n : Int) = 2 ^ k := by exact_mod_cast whole
    rw [whole, Nat.testBit_two_pow_self, ← whole, eq, Int.emod_self, Int.add_zero,
      decide_eq_false (Int.not_le.mpr upper),
      decide_eq_true (show (2 : Int) ^ k ≤ a % 2 ^ k + 2 ^ k by omega)]
    rfl
  · have less : (n : Int) < 2 ^ k := by exact_mod_cast small
    rw [Nat.testBit_lt_two_pow small, Int.emod_eq_of_lt (Int.natCast_nonneg n) less,
      Bool.false_xor]

/-- A carry of one step goes through the lower bits first. -/
theorem carry_one_mono {i j : Nat} (le : j ≤ i) {a : Int} (carry : 2 ^ i ≤ a % 2 ^ i + 1) :
    2 ^ j ≤ a % 2 ^ j + 1 := by
  have upper := Int.emod_lt_of_pos a (two_pow_pos i)
  have split : a % 2 ^ i = (2 ^ j - 1) + 2 ^ j * (2 ^ (i - j) - 1) := by
    have pow : (2 : Int) ^ i = 2 ^ j * 2 ^ (i - j) := by rw [← pow_add, Nat.add_sub_of_le le]
    have last : a % 2 ^ i = 2 ^ i - 1 := by omega
    rw [last, pow]
    ring
  have pos := two_pow_pos j
  rw [← Int.emod_emod_of_dvd a (pow_dvd_pow 2 le), split, Int.add_mul_emod_self_left,
    Int.emod_eq_of_lt (by omega) (by omega)]
  omega

/-- What a step of one changes: everything up to bit `k`, or nothing from bit `k` on. -/
theorem xor_step_one (lt : k < w) (a : Int) :
    if 2 ^ k ≤ a % 2 ^ k + 1 then
      2 ^ (k + 1) - 1 ≤ (BitVec.ofInt w (a + 1) ^^^ BitVec.ofInt w a).toNat
    else (BitVec.ofInt w (a + 1) ^^^ BitVec.ofInt w a).toNat < 2 ^ k := by
  have bit : ∀ i < w, (BitVec.ofInt w (a + 1) ^^^ BitVec.ofInt w a).getLsbD i =
      decide (2 ^ i ≤ a % 2 ^ i + 1) := fun i inside =>
    getLsbD_xor_step inside a (n := 1) Nat.one_le_two_pow
  split
  · next carry =>
      have ones : (BitVec.ofInt w (a + 1) ^^^ BitVec.ofInt w a).toNat % 2 ^ (k + 1) =
          2 ^ (k + 1) - 1 := by
        refine Nat.eq_of_testBit_eq fun i => ?_
        rw [Nat.testBit_mod_two_pow, Nat.testBit_two_pow_sub_one]
        by_cases low : i < k + 1
        · rw [decide_eq_true low, Bool.true_and, ← BitVec.getLsbD, bit i (by omega),
            decide_eq_true (carry_one_mono (by omega) carry)]
        · rw [decide_eq_false low, Bool.false_and]
      rw [← ones]
      exact Nat.mod_le _ _
  · next clear =>
      refine Nat.lt_pow_two_of_testBit _ fun i beyond => ?_
      rw [← BitVec.getLsbD]
      by_cases inside : i < w
      · rw [bit i inside, decide_eq_false fun carry => clear (carry_one_mono beyond carry)]
      · exact BitVec.getLsbD_of_ge _ _ (by omega)

/-- Under a mask of at most `2 ^ k + bound` that has bit `k`, the words above `bound` are those that
have bit `k`. -/
theorem lt_and_iff {x mask : BitVec w} {bound : Nat}
    (top : mask.getLsbD k = true) (below : bound < 2 ^ k)
    (rest : mask.toNat ≤ 2 ^ k + bound) : bound < (x &&& mask).toNat ↔ x.getLsbD k = true := by
  have small : (x &&& mask).toNat < 2 ^ (k + 1) := by
    have le : (x &&& mask).toNat ≤ mask.toNat := by
      rw [BitVec.toNat_and]
      exact Nat.and_le_right
    rw [Nat.pow_succ]
    omega
  have bit : (x &&& mask).toNat.testBit k = x.getLsbD k := by
    rw [← BitVec.getLsbD, BitVec.getLsbD_and, top, Bool.and_true]
  constructor
  · intro above
    by_contra clear
    rw [Bool.not_eq_true] at clear
    have low : (x &&& mask).toNat < 2 ^ k := by
      by_contra high
      have set := Nat.testBit_of_two_pow_le_and_two_pow_add_one_gt (Nat.le_of_not_lt high) small
      exact Bool.false_ne_true ((bit.trans clear).symm.trans set)
    have part : (x &&& mask).toNat ≤ mask.toNat % 2 ^ k := by
      rw [← Nat.mod_eq_of_lt low, BitVec.toNat_and, Nat.and_mod_two_pow]
      exact Nat.and_le_right
    have maskTop : 2 ^ k ≤ mask.toNat := Nat.ge_two_pow_of_testBit top
    have maskRest : mask.toNat % 2 ^ k = mask.toNat - 2 ^ k := by
      rw [Nat.mod_eq_sub_mod maskTop, Nat.mod_eq_of_lt (by omega)]
    omega
  · intro set
    have above := Nat.ge_two_pow_of_testBit (bit.trans set)
    omega

end Phocoena.CarryBits
