import Mathlib.Tactic.Ring
import Mathlib.Tactic.Linarith

/-! # Division by multiplication

To divide by a constant `d`, multiply by a rounded reciprocal `M` of it and divide by a power
of two `N`. With `M * d = N + e` the product is too large by `n * e` parts in `d * N`; the
quotient is exact as long as that error does not carry a remainder over to the next multiple.
-/

namespace Phocoena.MagicDivision

section
variable {d N M e n : Nat}

/-- The product with the rounded-up reciprocal, measured in `d`-ths. -/
theorem product_eq (reciprocal : M * d = N + e) (n : Nat) :
    n * M * d = n / d * (N * d) + (n % d * N + n * e) := by
  calc n * M * d = n * (N + e) := by rw [Nat.mul_assoc, reciprocal]
    _ = (d * (n / d) + n % d) * N + n * e := by rw [Nat.div_add_mod, Nat.mul_add]
    _ = n / d * (N * d) + (n % d * N + n * e) := by ring

/-- Rounding the reciprocal up gives the exact quotient just when the error does not reach the
next multiple. -/
theorem mul_div_eq_div_iff (hd : 0 < d) (hN : 0 < N) (reciprocal : M * d = N + e) :
    n * M / N = n / d ↔ n % d * N + n * e < d * N := by
  have product := product_eq reciprocal n
  have scaled : n * M / N = n * M * d / (N * d) := (Nat.mul_div_mul_right _ _ hd).symm
  rw [scaled, product, Nat.add_comm, Nat.add_mul_div_right _ _ (Nat.mul_pos hN hd),
    Nat.mul_comm d N]
  constructor
  · intro eq
    have none : (n % d * N + n * e) / (N * d) = 0 := by omega
    exact (Nat.div_eq_zero_iff_lt (Nat.mul_pos hN hd)).mp none
  · intro lt
    rw [Nat.div_eq_of_lt lt, Nat.zero_add]

/-- Rounding the quotient of a negative dividend towards zero leaves one unit to spare. -/
theorem mul_sub_one_div_eq_div (hd : 0 < d) (hN : d ≤ N) (he : 0 < e) (hn : 0 < n)
    (reciprocal : M * d = N + e) (error : n % d * N + n * e ≤ d * N) :
    (n * M - 1) / N = n / d := by
  have product := product_eq reciprocal n
  have pos : 0 < N := Nat.lt_of_lt_of_le hd hN
  have enough : d ≤ n % d * N + n * e := by
    rcases Nat.eq_zero_or_pos (n % d) with exact | rest
    · have dvd : d ≤ n := Nat.le_of_dvd hn (Nat.dvd_of_mod_eq_zero exact)
      have : n * 1 ≤ n * e := Nat.mul_le_mul_left n he
      omega
    · have : 1 * N ≤ n % d * N := Nat.mul_le_mul_right N rest
      omega
  have one_le : 1 ≤ n * M := by
    have : 0 < n * M * d := by omega
    exact Nat.pos_of_mul_pos_right this
  apply Nat.div_eq_of_lt_le
  · apply Nat.le_of_mul_le_mul_right _ hd
    rw [Nat.sub_mul, product, Nat.one_mul, Nat.mul_assoc]
    omega
  · apply Nat.lt_of_mul_lt_mul_right (a := d)
    rw [Nat.sub_mul, product, Nat.one_mul, Nat.succ_mul, Nat.add_mul, Nat.mul_assoc,
      Nat.mul_comm N d]
    rw [Nat.mul_comm N d] at *
    omega

/-- It is enough to bound the error at the dividends just below a multiple of `d`. -/
theorem error_lt (hd : 2 ≤ d) (small : (d - 1) * e < N)
    (critical : ∀ k ≤ n, k % d = d - 1 → k * e < N) : n % d * N + n * e < d * N := by
  have rem := Nat.mod_lt n (by omega : 0 < d)
  have step : ∀ r, r + 1 ≤ d → r * N + N ≤ d * N := by
    intro r le
    calc r * N + N = (r + 1) * N := by ring
      _ ≤ d * N := Nat.mul_le_mul_right N le
  by_cases last : n % d = d - 1
  · have := critical n le_rfl last
    have := step (n % d) rem
    omega
  · have spare := step (n % d + 1) (by omega)
    have short : (n % d + 1) * e ≤ (d - 1) * e := Nat.mul_le_mul_right e (by omega)
    rw [Nat.add_mul, Nat.one_mul] at spare
    rcases Nat.lt_or_ge n d with below | above
    · have : n % d = n := Nat.mod_eq_of_lt below
      have : n * e ≤ (n % d + 1) * e := Nat.mul_le_mul_right e (by omega)
      omega
    · obtain ⟨q, hq⟩ : ∃ q, n / d = q + 1 :=
        Nat.exists_eq_succ_of_ne_zero (Nat.div_ne_zero_iff.mpr ⟨by omega, above⟩)
      have split : n = d * q + (d - 1) + (n % d + 1) := by
        have parts : d * (n / d) + n % d = n := Nat.div_add_mod n d
        rw [hq, Nat.mul_add, Nat.mul_one] at parts
        omega
      have mod : (d * q + (d - 1)) % d = d - 1 := by
        rw [Nat.mul_add_mod, Nat.mod_eq_of_lt (by omega)]
      have below := critical (d * q + (d - 1)) (by omega) mod
      have error : n * e = (d * q + (d - 1)) * e + (n % d + 1) * e := by
        rw [← Nat.add_mul, ← split]
      omega

/-- Rounding the reciprocal down and the dividend up: the way out for divisors whose rounded-up
reciprocal needs one bit too many. -/
theorem succ_mul_div_eq_div (hd : 0 < d) (he : 0 < e) (reciprocal : M * d + e = N)
    (error : (n + 1) * e ≤ N) : (n + 1) * M / N = n / d := by
  have product : (n + 1) * M * d + (n + 1) * e = (n + 1) * N := by rw [← reciprocal]; ring
  have some_error : 0 < (n + 1) * e := Nat.mul_pos (Nat.succ_pos n) he
  apply Nat.div_eq_of_lt_le
  · apply Nat.le_of_mul_le_mul_right _ hd
    have : n / d * d * N ≤ n * N := Nat.mul_le_mul_right N (Nat.div_mul_le_self n d)
    have : n / d * N * d = n / d * d * N := Nat.mul_right_comm _ _ _
    have : (n + 1) * N = n * N + N := Nat.succ_mul n N
    omega
  · apply Nat.lt_of_mul_lt_mul_right (a := d)
    have : (n + 1) * N ≤ (n / d + 1) * d * N :=
      Nat.mul_le_mul_right N (Nat.lt_mul_of_div_lt (Nat.lt_succ_self _) hd)
    have : (n / d + 1) * N * d = (n / d + 1) * d * N := Nat.mul_right_comm _ _ _
    omega

/-! ## Signed dividends -/

theorem neg_ediv (k : Nat) (hN : 0 < N) (hk : 0 < k) :
    -(k : Int) / (N : Int) = -(((k - 1) / N : Nat) : Int) - 1 := by
  obtain ⟨m, rfl⟩ := Nat.exists_eq_succ_of_ne_zero (Nat.pos_iff_ne_zero.mp hk)
  have : -((m + 1 : Nat) : Int) = Int.negSucc m := rfl
  rw [this, Int.negSucc_ediv m (by exact_mod_cast hN)]
  change -((m : Int) / (N : Int) + 1) = _
  push_cast [Nat.add_sub_cancel]
  ring

/-- The arithmetic shift of the product rounds towards minus infinity; adding the sign bit of the
dividend makes it round towards zero. -/
theorem floor_add_sign_eq_tdiv (hN : 0 < N) (hM : 0 < M) (x : Int)
    (nonneg : ∀ n : Nat, x = n → n * M / N = n / d)
    (neg : ∀ n : Nat, 0 < n → x = -n → (n * M - 1) / N = n / d) :
    x * M / N + (if x < 0 then 1 else 0) = x.tdiv d := by
  rcases lt_or_ge x 0 with below | above
  · obtain ⟨n, rfl⟩ : ∃ n : Nat, x = -n := ⟨x.natAbs, by omega⟩
    have pos : 0 < n := by omega
    have product : -(n : Int) * (M : Int) = -((n * M : Nat) : Int) := by push_cast; ring
    rw [if_pos below, product, neg_ediv _ hN (Nat.mul_pos pos hM), neg n pos rfl, Int.neg_tdiv,
      ← Int.ofNat_tdiv]
    omega
  · obtain ⟨n, rfl⟩ := Int.eq_ofNat_of_zero_le above
    rw [if_neg (by omega), ← Int.ofNat_tdiv, ← nonneg n rfl]
    push_cast
    ring

/-- Adding `n - 1` to a negative dividend first makes a division that rounds down one that
rounds towards zero. -/
theorem ediv_rounded_eq_tdiv (x : Int) {n : Nat} (hn : 0 < n) :
    (x + if x < 0 then (n : Int) - 1 else 0) / (n : Int) = x.tdiv n := by
  rcases lt_or_ge x 0 with below | above
  · obtain ⟨m, rfl⟩ : ∃ m : Nat, x = -m := ⟨x.natAbs, by omega⟩
    rw [if_pos below, Int.neg_tdiv, ← Int.ofNat_tdiv]
    have rem := Nat.mod_lt m hn
    have parts := Nat.div_add_mod m n
    have : (-(m : Int) + (n - 1)) = (n - 1 - (m % n : Nat)) + n * -((m / n : Nat) : Int) := by
      rw [Int.mul_neg, ← Nat.cast_mul]
      omega
    rw [this, Int.add_mul_ediv_left _ _ (by omega), Int.ediv_eq_zero_of_lt (by omega) (by omega),
      Int.zero_add]
  · rw [if_neg (by omega), Int.add_zero, Int.tdiv_eq_ediv_of_nonneg above]

end

end Phocoena.MagicDivision
