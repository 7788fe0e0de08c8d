import Mathlib.Data.Nat.Prime.Basic
import Phocoena.JitCommon.DivUtils

/-! # The division constants are exact

What the constants of `DivUtils.cpp` compute, and for which divisors they exist in the form
the code generator expects.
-/

namespace Phocoena.JitCommon

open MagicDivision

/-! ## The search for a signed multiplier -/

theorem double_div_mod {N d : Nat} (hd : 0 < d) :
    2 * N / d = 2 * (N / d) + (if d ≤ 2 * (N % d) then 1 else 0) ∧
      2 * N % d = 2 * (N % d) - (if d ≤ 2 * (N % d) then d else 0) := by
  have rem := Nat.mod_lt N hd
  have parts := Nat.div_add_mod N d
  rw [Nat.div_mod_unique hd]
  split
  · refine ⟨?_, by omega⟩
    rw [Nat.mul_add, Nat.mul_one, Nat.mul_left_comm]
    omega
  · refine ⟨?_, by omega⟩
    rw [Nat.add_zero, Nat.mul_left_comm]
    omega

theorem doubleQuotient_spec {d q r : BitVec 32} {N : Nat} (hd : 0 < d.toNat)
    (small : d.toNat < 2 ^ 31) (hq : q.toNat = N / d.toNat) (hr : r.toNat = N % d.toNat)
    (room : N / d.toNat < 2 ^ 31) :
    (doubleQuotient d q r).1.toNat = 2 * N / d.toNat ∧
      (doubleQuotient d q r).2.toNat = 2 * N % d.toNat := by
  have rem := Nat.mod_lt N hd
  obtain ⟨div, mod⟩ := double_div_mod (N := N) hd
  have twice : (r * 2).toNat = 2 * (N % d.toNat) := by
    rw [BitVec.toNat_mul, hr]
    simp
    omega
  have twice' : (q * 2).toNat = 2 * (N / d.toNat) := by
    rw [BitVec.toNat_mul, hq]
    simp
    omega
  rw [div, mod, doubleQuotient]
  simp only [BitVec.le_def, twice]
  split
  · constructor
    · rw [BitVec.toNat_add, twice']
      simp
      omega
    · rw [BitVec.toNat_sub_of_le (by rw [BitVec.le_def, twice]; assumption), twice]
  · exact ⟨by simpa using twice', by simpa using twice⟩

/-- How far `2 ^ p` is below the next multiple of `d` (`delta` in the source). -/
def excess (d p : Nat) : Nat := d - 2 ^ p % d

section
variable {d : Nat} (hd : 0 < d) (p : Nat)

include hd

theorem excess_pos : 0 < excess d p := Nat.sub_pos_of_lt (Nat.mod_lt _ hd)

theorem reciprocal_eq : (2 ^ p / d + 1) * d = 2 ^ p + excess d p := by
  have rem := Nat.mod_lt (2 ^ p) hd
  have parts := Nat.div_add_mod (2 ^ p) d
  rw [Nat.succ_mul, Nat.mul_comm, excess]
  omega

end

theorem excess_le (d p : Nat) : excess d p ≤ d := Nat.sub_le _ _

/-- The loop variables hold the quotients and remainders of `2 ^ p`. -/
structure SearchAt (anc ad : BitVec 32) (p : Nat) (s : SignedSearch) : Prop where
  exponent : s.p = p
  q1 : s.q1.toNat = 2 ^ p / anc.toNat
  r1 : s.r1.toNat = 2 ^ p % anc.toNat
  q2 : s.q2.toNat = 2 ^ p / ad.toNat
  r2 : s.r2.toNat = 2 ^ p % ad.toNat

namespace SearchAt

variable {anc ad : BitVec 32} {p : Nat} {s : SignedSearch}
  (hanc : 0 < anc.toNat) (anc_lt : anc.toNat < 2 ^ 31) (had : 0 < ad.toNat)
  (ad_lt : ad.toNat < 2 ^ 31)

include hanc anc_lt had ad_lt in
theorem next (at_p : SearchAt anc ad p s) (room1 : 2 ^ p / anc.toNat < 2 ^ 31)
    (room2 : 2 ^ p / ad.toNat < 2 ^ 31) : SearchAt anc ad (p + 1) (s.next anc ad) := by
  have first := doubleQuotient_spec hanc anc_lt at_p.q1 at_p.r1 room1
  have second := doubleQuotient_spec had ad_lt at_p.q2 at_p.r2 room2
  rw [← Nat.pow_succ'] at first second
  exact ⟨congrArg (· + 1) at_p.exponent, first.1, first.2, second.1, second.2⟩

include hanc had in
theorem unfinished_iff (at_p : SearchAt anc ad p s) :
    s.unfinished ad = true ↔ 2 ^ p ≤ anc.toNat * excess ad.toNat p := by
  have rem2 := Nat.mod_lt (2 ^ p) had
  have delta : (ad - s.r2).toNat = excess ad.toNat p := by
    rw [BitVec.toNat_sub_of_le, at_p.r2, excess]
    rw [BitVec.le_def, at_p.r2]
    exact rem2.le
  have rem1 := Nat.mod_lt (2 ^ p) hanc
  have parts := Nat.div_add_mod (2 ^ p) anc.toNat
  simp only [SignedSearch.unfinished, decide_eq_true_eq, BitVec.lt_def, ← BitVec.toNat_inj, delta,
    at_p.q1, at_p.r1, BitVec.ofNat_eq_ofNat, BitVec.toNat_zero]
  constructor
  · rintro (less | ⟨equal, exact⟩)
    · have : anc.toNat * (2 ^ p / anc.toNat + 1) ≤ anc.toNat * excess ad.toNat p :=
        Nat.mul_le_mul_left _ less
      rw [Nat.mul_add] at this
      omega
    · rw [← equal]
      omega
  · intro le
    rcases Nat.lt_trichotomy (2 ^ p / anc.toNat) (excess ad.toNat p) with less | equal | greater
    · exact .inl less
    · rw [← equal] at le
      exact .inr ⟨equal, by omega⟩
    · have : anc.toNat * (excess ad.toNat p + 1) ≤ anc.toNat * (2 ^ p / anc.toNat) :=
        Nat.mul_le_mul_left _ greater
      rw [Nat.mul_add] at this
      omega

include hanc anc_lt had ad_lt in
/-- The loop ends at the first exponent that is large enough, within 31 rounds. -/
theorem run (fuel : Nat) (at_p : SearchAt anc ad p s) (early : p < 62) (enough : 62 ≤ p + fuel)
    (room1 : 2 ^ p / anc.toNat < 2 ^ 31) (room2 : 2 ^ p / ad.toNat < 2 ^ 31) :
    ∃ p' s', s.run anc ad fuel = some s' ∧ SearchAt anc ad p' s' ∧ p < p' ∧ p' ≤ 62 ∧
      anc.toNat * excess ad.toNat p' < 2 ^ p' ∧
      ∀ k, p < k → k < p' → 2 ^ k ≤ anc.toNat * excess ad.toNat k := by
  induction fuel generalizing p s with
  | zero => omega
  | succ fuel ih =>
      have at_next := at_p.next hanc anc_lt had ad_lt room1 room2
      have stop := at_next.unfinished_iff hanc had
      unfold SignedSearch.run
      cases unfinished : (s.next anc ad).unfinished ad with
      | false =>
          refine ⟨p + 1, s.next anc ad, by simp [unfinished], at_next, by omega, by omega, ?_, ?_⟩
          · simpa [unfinished] using stop
          · intro k after before
            omega
      | true =>
          have le : 2 ^ (p + 1) ≤ anc.toNat * ad.toNat :=
            (stop.mp unfinished).trans (Nat.mul_le_mul_left _ (excess_le _ _))
          have lt : anc.toNat * ad.toNat < 2 ^ 31 * 2 ^ 31 :=
            Nat.mul_lt_mul'' anc_lt ad_lt
          have bound : p + 1 < 62 := by
            rw [← Nat.pow_add] at lt
            exact (Nat.pow_lt_pow_iff_right (by decide)).mp (le.trans_lt lt)
          obtain ⟨p', s', eq, at_end, later, last, final, before⟩ := ih at_next bound (by omega)
            ((Nat.div_le_of_le_mul le).trans_lt ad_lt)
            ((Nat.div_le_of_le_mul (by rwa [Nat.mul_comm] at le)).trans_lt anc_lt)
          refine ⟨p', s', by simpa [unfinished] using eq, at_end, by omega, last, final, ?_⟩
          intro k after k_lt
          rcases Nat.eq_or_lt_of_le (Nat.succ_le_of_lt after) with rfl | later
          · exact stop.mp unfinished
          · exact before k later k_lt

end SearchAt

/-- The largest number below `t` that is one less than a multiple of `d`. -/
theorem le_of_mod_eq_pred {d t k : Nat} (hd : 0 < d) (mod : k % d = d - 1) (below : k < t) :
    k ≤ t - 1 - t % d := by
  have multiple : d ∣ k + 1 := by
    refine ⟨k / d + 1, ?_⟩
    have := Nat.div_add_mod k d
    rw [Nat.mul_add]
    omega
  obtain ⟨c, hc⟩ := multiple
  have count : c ≤ t / d := by
    rw [Nat.le_div_iff_mul_le hd, Nat.mul_comm]
    omega
  have : d * c ≤ d * (t / d) := Nat.mul_le_mul_left d count
  have := Nat.div_add_mod t d
  omega

theorem pred_le_largest {d t : Nat} (hd : 0 < d) (le : d ≤ t) : d - 1 ≤ t - 1 - t % d :=
  le_of_mod_eq_pred hd (Nat.mod_eq_of_lt (by omega)) (by omega)

/-- The bound on the dividends, as the source computes it: one less for a negative divisor. -/
def dividendBound (divisor : BitVec 32) : Nat := if divisor.slt 0 then 2 ^ 31 - 1 else 2 ^ 31

/-- The largest dividend below the bound that is one less than a multiple of the divisor (`anc`). -/
def largestCritical (divisor : BitVec 32) : Nat :=
  dividendBound divisor - 1 - dividendBound divisor % divisor.abs.toNat

/-- The exponent the search stops at: the first from 32 on for which the rounded-up reciprocal is
exact up to the bound. -/
structure IsExponent (divisor : BitVec 32) (p : Nat) : Prop where
  ge : 32 ≤ p
  le : p ≤ 62
  enough : largestCritical divisor * excess divisor.abs.toNat p < 2 ^ p
  first : ∀ k, 32 ≤ k → k < p → 2 ^ k ≤ largestCritical divisor * excess divisor.abs.toNat k

/-- The rounded-up reciprocal `2 ^ p / |divisor|`. -/
def roundedReciprocal (divisor : BitVec 32) (p : Nat) : Nat := 2 ^ p / divisor.abs.toNat + 1

section
variable {divisor : BitVec 32} (h3 : 3 ≤ divisor.abs.toNat) (hlt : divisor.abs.toNat < 2 ^ 31)

include h3 hlt

theorem largestCritical_ge : 2 ≤ largestCritical divisor ∧
    divisor.abs.toNat - 1 ≤ largestCritical divisor ∧ largestCritical divisor < 2 ^ 31 := by
  have bound : divisor.abs.toNat ≤ dividendBound divisor ∧ dividendBound divisor ≤ 2 ^ 31 := by
    unfold dividendBound
    split <;> omega
  have := pred_le_largest (by omega) bound.1
  unfold largestCritical
  omega

theorem anc_toNat : ((0x80000000#32 - (if divisor.slt 0 then 1 else 0)) - 1 -
    (0x80000000#32 - (if divisor.slt 0 then 1 else 0)) % divisor.abs).toNat =
      largestCritical divisor := by
  have t : (0x80000000#32 - (if divisor.slt 0 then 1 else 0)).toNat = dividendBound divisor := by
    unfold dividendBound
    split <;> rfl
  have ge := largestCritical_ge h3 hlt
  unfold largestCritical at ge ⊢
  have big : 1 ≤ dividendBound divisor := by
    unfold dividendBound
    split <;> decide
  have pred : ((0x80000000#32 - (if divisor.slt 0 then 1 else 0)) - 1).toNat =
      dividendBound divisor - 1 := by
    rw [BitVec.toNat_sub_of_le (by rw [BitVec.le_def, t]; exact big), t]
    rfl
  rw [BitVec.toNat_sub_of_le, pred, BitVec.toNat_umod, t]
  rw [BitVec.le_def, pred, BitVec.toNat_umod, t]
  omega

/-- The constants exist: nothing is divided by zero and the loop ends. -/
theorem signedDivisionConstants_eq (fuel : Nat) (enough : 31 ≤ fuel) :
    ∃ p, IsExponent divisor p ∧ signedDivisionConstants fuel divisor = some
      { multiplier := if divisor.slt 0 then -BitVec.ofNat 32 (roundedReciprocal divisor p)
          else BitVec.ofNat 32 (roundedReciprocal divisor p)
        shift := BitVec.ofNat 8 (p - 32) } := by
  obtain ⟨anc_ge, -, anc_lt⟩ := largestCritical_ge h3 hlt
  have anc := anc_toNat h3 hlt
  have ad_ne : divisor.abs ≠ 0 := by
    intro zero
    rw [zero] at h3
    simp at h3
  have start : ∀ d : BitVec 32, (0x80000000#32 / d).toNat = 2 ^ 31 / d.toNat ∧
      (0x80000000#32 - 0x80000000#32 / d * d).toNat = 2 ^ 31 % d.toNat := by
    intro d
    have fits : 2 ^ 31 / d.toNat * d.toNat ≤ 2 ^ 31 := Nat.div_mul_le_self _ _
    have product : (0x80000000#32 / d * d).toNat = 2 ^ 31 / d.toNat * d.toNat := by
      rw [BitVec.toNat_mul, BitVec.toNat_udiv]
      exact Nat.mod_eq_of_lt (lt_of_le_of_lt fits (by decide))
    refine ⟨BitVec.toNat_udiv, ?_⟩
    rw [BitVec.toNat_sub_of_le (by rw [BitVec.le_def, product]; exact fits), product,
      Nat.mod_eq_sub_div_mul]
    rfl
  simp only [signedDivisionConstants, if_neg ad_ne, roundedReciprocal]
  generalize (0x80000000#32 - (if divisor.slt 0 then 1 else 0)) - 1 -
    (0x80000000#32 - (if divisor.slt 0 then 1 else 0)) % divisor.abs = ancW at anc ⊢
  have anc_ne : ancW ≠ 0 := by
    intro zero
    rw [zero] at anc
    simp at anc
    omega
  rw [if_neg anc_ne]
  rw [← anc] at anc_ge anc_lt
  have at_start : SearchAt ancW divisor.abs 31
      { q1 := 0x80000000#32 / ancW, r1 := 0x80000000#32 - 0x80000000#32 / ancW * ancW
        q2 := 0x80000000#32 / divisor.abs
        r2 := 0x80000000#32 - 0x80000000#32 / divisor.abs * divisor.abs, p := 31 } :=
    ⟨rfl, (start _).1, (start _).2, (start _).1, (start _).2⟩
  obtain ⟨p, s, run, at_end, later, last, final, before⟩ :=
    at_start.run (by omega) anc_lt (by omega) hlt fuel (by decide) (by omega)
      (Nat.div_lt_self (by decide) (by omega)) (Nat.div_lt_self (by decide) (by omega))
  have multiplier : s.q2 + 1 = BitVec.ofNat 32 (2 ^ p / divisor.abs.toNat + 1) := by
    rw [← at_end.q2, BitVec.ofNat_add, BitVec.ofNat_toNat, BitVec.setWidth_eq]
    rfl
  rw [anc] at final before
  refine ⟨p, ⟨later, last, final, fun k after => before k after⟩, ?_⟩
  rw [run, ← multiplier, ← at_end.exponent]
  rfl

variable {p : Nat} (isExp : IsExponent divisor p)

include isExp

theorem roundedReciprocal_lt : roundedReciprocal divisor p < 2 ^ 32 := by
  obtain ⟨-, -, anc_lt⟩ := largestCritical_ge h3 hlt
  unfold roundedReciprocal
  rcases Nat.eq_or_lt_of_le isExp.ge with rfl | later
  · have : 2 ^ 32 / divisor.abs.toNat ≤ 2 ^ 32 / 3 := Nat.div_le_div_left h3 (by decide)
    omega
  · obtain ⟨q, rfl⟩ : ∃ q, p = q + 1 := ⟨p - 1, by omega⟩
    have failed := isExp.first q (by omega) (Nat.lt_succ_self q)
    have le : 2 ^ q ≤ largestCritical divisor * divisor.abs.toNat :=
      failed.trans (Nat.mul_le_mul_left _ (excess_le _ _))
    have : 2 ^ (q + 1) / divisor.abs.toNat ≤ 2 * largestCritical divisor := by
      apply Nat.div_le_of_le_mul
      rw [Nat.pow_succ']
      calc 2 * 2 ^ q ≤ 2 * (largestCritical divisor * divisor.abs.toNat) :=
            Nat.mul_le_mul_left 2 le
        _ = divisor.abs.toNat * (2 * largestCritical divisor) := by ring
    omega

/-- The sign of the multiplier tells apart the short and the long ones. -/
theorem roundedReciprocal_ne : roundedReciprocal divisor p ≠ 2 ^ 31 := by
  intro eq
  have product := reciprocal_eq (by omega : 0 < divisor.abs.toNat) p
  have pos := excess_pos (by omega : 0 < divisor.abs.toNat) p
  have le := excess_le divisor.abs.toNat p
  have power : 2 ^ p = 2 ^ 31 * 2 ^ (p - 31) := by
    rw [← Nat.pow_add]
    congr 1
    have := isExp.ge
    omega
  unfold roundedReciprocal at eq
  rw [eq, power] at product
  have dvd : 2 ^ 31 ∣ excess divisor.abs.toNat p := by
    rw [← Nat.dvd_add_right (Nat.dvd_mul_right (2 ^ 31) (2 ^ (p - 31))), ← product]
    exact Nat.dvd_mul_right _ _
  have := Nat.le_of_dvd pos dvd
  omega

section
variable (odd : ¬ divisor.abs.toNat ∣ 2 ^ 31)

include odd

/-- For a negative divisor the search leaves out the dividend `2 ^ 31 - 1`, which is critical only
for powers of two. -/
theorem critical_lt {k : Nat} (mod : k % divisor.abs.toNat = divisor.abs.toNat - 1)
    (below : k < 2 ^ 31) : k * excess divisor.abs.toNat p < 2 ^ p := by
  have inside : k < dividendBound divisor := by
    unfold dividendBound
    split
    · rcases Nat.eq_or_lt_of_le (Nat.le_sub_one_of_lt below) with rfl | less
      · refine absurd ?_ odd
        refine ⟨(2 ^ 31 - 1) / divisor.abs.toNat + 1, ?_⟩
        have := Nat.div_add_mod (2 ^ 31 - 1) divisor.abs.toNat
        rw [Nat.mul_add]
        omega
      · exact less
    · exact below
  have le := le_of_mod_eq_pred (by omega : 0 < divisor.abs.toNat) mod inside
  exact (Nat.mul_le_mul_right _ le).trans_lt isExp.enough

theorem error_lt_of_critical {n : Nat} (critical : n < 2 ^ 31 ∨
    n = 2 ^ 31 ∧ ¬ divisor.abs.toNat ∣ 2 ^ 31 + 1) :
    n % divisor.abs.toNat * 2 ^ p + n * excess divisor.abs.toNat p < divisor.abs.toNat * 2 ^ p := by
  obtain ⟨-, pred_le, -⟩ := largestCritical_ge h3 hlt
  apply error_lt (by omega)
  · exact (Nat.mul_le_mul_right _ pred_le).trans_lt isExp.enough
  · intro k le mod
    apply critical_lt h3 hlt isExp odd mod
    rcases critical with below | ⟨rfl, coprime⟩
    · omega
    · refine Nat.lt_of_le_of_ne le fun eq => coprime ?_
      rw [eq] at mod
      refine ⟨2 ^ 31 / divisor.abs.toNat + 1, ?_⟩
      have := Nat.div_add_mod (2 ^ 31) divisor.abs.toNat
      rw [Nat.mul_add]
      omega

theorem quotient_exact {n : Nat} (critical : n < 2 ^ 31 ∨
    n = 2 ^ 31 ∧ ¬ divisor.abs.toNat ∣ 2 ^ 31 + 1) :
    n * roundedReciprocal divisor p / 2 ^ p = n / divisor.abs.toNat :=
  (mul_div_eq_div_iff (by omega) (Nat.two_pow_pos p) (reciprocal_eq (by omega) p)).mpr
    (error_lt_of_critical h3 hlt isExp odd critical)

end

/-- When `2 ^ 31` is itself critical the search stops at once, one unit short of it. -/
theorem critical_two_pow (dvd : divisor.abs.toNat ∣ 2 ^ 31 + 1) :
    p = 32 ∧ 2 ^ 31 % divisor.abs.toNat = divisor.abs.toNat - 1 ∧
      excess divisor.abs.toNat 32 = 2 := by
  obtain ⟨-, -, anc_lt⟩ := largestCritical_ge h3 hlt
  obtain ⟨c, hc⟩ := dvd
  obtain ⟨q, rfl⟩ : ∃ q, c = q + 1 := Nat.exists_eq_succ_of_ne_zero (by rintro rfl; omega)
  rw [Nat.mul_add, Nat.mul_one] at hc
  have mod : 2 ^ 31 % divisor.abs.toNat = divisor.abs.toNat - 1 := by
    have : 2 ^ 31 = divisor.abs.toNat * q + (divisor.abs.toNat - 1) := by omega
    rw [this, Nat.mul_add_mod, Nat.mod_eq_of_lt (by omega)]
  have mod' : 2 ^ 32 % divisor.abs.toNat = divisor.abs.toNat - 2 := by
    have : 2 ^ 32 = divisor.abs.toNat * (2 * q + 1) + (divisor.abs.toNat - 2) := by
      rw [Nat.mul_add, Nat.mul_left_comm]
      omega
    rw [this, Nat.mul_add_mod, Nat.mod_eq_of_lt (by omega)]
  have two : excess divisor.abs.toNat 32 = 2 := by
    unfold excess
    omega
  refine ⟨?_, mod, two⟩
  rcases Nat.eq_or_lt_of_le isExp.ge with eq | later
  · exact eq.symm
  · have := isExp.first 32 le_rfl later
    rw [two] at this
    omega

theorem quotient_exact_of_neg (odd : ¬ divisor.abs.toNat ∣ 2 ^ 31) {n : Nat} (pos : 0 < n)
    (le : n ≤ 2 ^ 31) :
    (n * roundedReciprocal divisor p - 1) / 2 ^ p = n / divisor.abs.toNat := by
  have room : divisor.abs.toNat ≤ 2 ^ p :=
    hlt.le.trans (Nat.pow_le_pow_right (by decide) ((by decide : 31 ≤ 32).trans isExp.ge))
  apply mul_sub_one_div_eq_div (by omega) room (excess_pos (by omega) p) pos
    (reciprocal_eq (by omega) p)
  by_cases exception : n = 2 ^ 31 ∧ divisor.abs.toNat ∣ 2 ^ 31 + 1
  · obtain ⟨rfl, dvd⟩ := exception
    obtain ⟨rfl, mod, two⟩ := critical_two_pow h3 hlt isExp dvd
    rw [mod, two, Nat.sub_mul]
    omega
  · exact (error_lt_of_critical h3 hlt isExp odd (by omega)).le

theorem quotient_inexact (dvd : divisor.abs.toNat ∣ 2 ^ 31 + 1) :
    2 ^ 31 * roundedReciprocal divisor p / 2 ^ p ≠ 2 ^ 31 / divisor.abs.toNat := by
  obtain ⟨rfl, mod, two⟩ := critical_two_pow h3 hlt isExp dvd
  unfold roundedReciprocal
  rw [ne_eq, mul_div_eq_div_iff (by omega) (Nat.two_pow_pos 32) (reciprocal_eq (by omega) 32), mod,
    two, Nat.sub_mul]
  omega

/-- The quotient of a signed number by `|divisor|`, for every number the emitted code divides. -/
theorem floor_quotient (odd : ¬ divisor.abs.toNat ∣ 2 ^ 31) {y : Int} (low : -2 ^ 31 ≤ y)
    (high : y < 2 ^ 31 ∨ y = 2 ^ 31 ∧ ¬ divisor.abs.toNat ∣ 2 ^ 31 + 1) :
    y * (roundedReciprocal divisor p : Int) / ((2 ^ p : Nat) : Int) + (if y < 0 then 1 else 0) =
      y.tdiv divisor.abs.toNat := by
  apply floor_add_sign_eq_tdiv (Nat.two_pow_pos p) (Nat.succ_pos _)
  · rintro n rfl
    apply quotient_exact h3 hlt isExp odd
    rcases high with below | ⟨top, coprime⟩
    · exact .inl (by exact_mod_cast below)
    · exact .inr ⟨by exact_mod_cast top, coprime⟩
  · rintro n pos rfl
    exact quotient_exact_of_neg h3 hlt isExp odd pos (by omega)

end

/-! ## Unsigned division -/

section
variable {d : BitVec 32}

/-- `shift` of the source: the position of the leading bit. -/
def leadingBit (d : BitVec 32) : Nat := (31 - d.clz).toNat

theorem leadingBit_spec (hd : d ≠ 0) :
    leadingBit d ≤ 31 ∧ 2 ^ leadingBit d ≤ d.toNat ∧ d.toNat < 2 ^ (leadingBit d + 1) := by
  have clz : d.clz.toNat < 32 := by
    have := BitVec.clz_lt_iff_ne_zero.mpr hd
    simpa [BitVec.lt_def] using this
  have eq : leadingBit d = 31 - d.clz.toNat := by
    unfold leadingBit
    rw [BitVec.toNat_sub_of_le]
    · rfl
    · rw [BitVec.le_def]
      exact Nat.le_of_lt_succ clz
  have low := BitVec.two_pow_sub_clz_le_toNat_of_ne_zero (by decide) hd
  have high := BitVec.toNat_lt_two_pow_sub_clz (x := d)
  rw [eq]
  refine ⟨by omega, low, ?_⟩
  have : 31 - d.clz.toNat + 1 = 32 - d.clz.toNat := by omega
  rwa [this]

/-- The reciprocal `2 ^ (32 + shift) / d`, rounded down. -/
def reciprocal (d : BitVec 32) : Nat := 2 ^ (32 + leadingBit d) / d.toNat

variable (hd : d ≠ 0) (odd : ∀ k, d.toNat ≠ 2 ^ k)

include odd in
theorem not_dvd_two_pow (k : Nat) : ¬ d.toNat ∣ 2 ^ k := by
  intro dvd
  obtain ⟨j, -, eq⟩ := (Nat.dvd_prime_pow Nat.prime_two).mp dvd
  exact odd j eq

include hd odd

theorem reciprocal_lt : reciprocal d < 2 ^ 32 - 1 := by
  obtain ⟨le, low, high⟩ := leadingBit_spec hd
  have below : 2 ^ leadingBit d ≤ 2 ^ 31 := Nat.pow_le_pow_right (by decide) le
  have ne := odd (leadingBit d)
  unfold reciprocal
  rw [Nat.div_lt_iff_lt_mul (by omega), Nat.pow_add]
  have : (2 ^ 32 - 1) * (2 ^ leadingBit d + 1) ≤ (2 ^ 32 - 1) * d.toNat :=
    Nat.mul_le_mul_left _ (by omega)
  omega

/-- Each step of `UnsignedDivisionConstants` without its wrap-around. -/
theorem unsigned_steps :
    ((0x100000000#64 <<< leadingBit d / d.setWidth 64).setWidth 32).toNat = reciprocal d ∧
      ((0x100000000#64 <<< leadingBit d / d.setWidth 64).setWidth 32 >>> leadingBit d).toNat =
        2 ^ 32 / d.toNat := by
  obtain ⟨le, low, high⟩ := leadingBit_spec hd
  have lt := reciprocal_lt hd odd
  have dividend : (0x100000000#64 <<< leadingBit d).toNat = 2 ^ (32 + leadingBit d) := by
    rw [BitVec.toNat_shiftLeft, Nat.shiftLeft_eq, Nat.mod_eq_of_lt]
    · rw [Nat.pow_add]
      rfl
    · have : 2 ^ leadingBit d ≤ 2 ^ 31 := Nat.pow_le_pow_right (by decide) le
      rw [BitVec.toNat_ofNat]
      omega
  have first : ((0x100000000#64 <<< leadingBit d / d.setWidth 64).setWidth 32).toNat =
      reciprocal d := by
    rw [BitVec.toNat_setWidth, BitVec.toNat_udiv, dividend, BitVec.toNat_setWidth,
      Nat.mod_eq_of_lt (d.isLt.trans (by decide)), Nat.mod_eq_of_lt]
    · rfl
    · exact lt.trans (by decide)
  refine ⟨first, ?_⟩
  rw [BitVec.toNat_ushiftRight, first, Nat.shiftRight_eq_div_pow, reciprocal, Nat.div_div_eq_div_mul,
    Nat.mul_comm, ← Nat.div_div_eq_div_mul, Nat.pow_add, Nat.mul_div_cancel _ (Nat.two_pow_pos _)]

/-- The largest 32-bit dividend that is one less than a multiple of `d`. -/
theorem maxQuotient_mul_sub_one :
    (BitVec.ofNat 32 (2 ^ 32 / d.toNat) * d - 1).toNat = 2 ^ 32 / d.toNat * d.toNat - 1 ∧
      0 < 2 ^ 32 / d.toNat * d.toNat ∧ 2 ^ 32 / d.toNat * d.toNat < 2 ^ 32 := by
  have pos : 0 < d.toNat := Nat.pos_of_ne_zero fun h => hd (BitVec.eq_of_toNat_eq h)
  have lt : 2 ^ 32 / d.toNat * d.toNat < 2 ^ 32 := by
    refine Nat.lt_of_le_of_ne (Nat.div_mul_le_self _ _) fun eq => not_dvd_two_pow odd 32 ?_
    exact Nat.dvd_of_mod_eq_zero (by rw [Nat.mod_eq_sub_div_mul, eq, Nat.sub_self])
  have some : 0 < 2 ^ 32 / d.toNat * d.toNat := by
    exact Nat.mul_pos (Nat.div_pos d.isLt.le pos) pos
  have quotient_lt : 2 ^ 32 / d.toNat < 2 ^ 32 := (Nat.le_mul_of_pos_right _ pos).trans_lt lt
  have product : (BitVec.ofNat 32 (2 ^ 32 / d.toNat) * d).toNat = 2 ^ 32 / d.toNat * d.toNat := by
    rw [BitVec.toNat_mul, BitVec.toNat_ofNat, Nat.mod_eq_of_lt quotient_lt, Nat.mod_eq_of_lt lt]
  refine ⟨?_, some, lt⟩
  rw [BitVec.toNat_sub_of_le (by rw [BitVec.le_def, product]; exact some), product]
  rfl

/-- The rounded-up reciprocal is exact for every 32-bit dividend. -/
def RoundsUp (d : BitVec 32) : Prop :=
  (2 ^ 32 / d.toNat * d.toNat - 1) * (reciprocal d + 1) / 2 ^ (32 + leadingBit d) =
    2 ^ 32 / d.toNat - 1

instance (d : BitVec 32) : Decidable (RoundsUp d) := inferInstanceAs (Decidable (_ = _))

theorem roundUp_eq :
    ((((BitVec.ofNat 32 (reciprocal d) + 1).setWidth 64 *
        (BitVec.ofNat 32 (2 ^ 32 / d.toNat) * d - 1).setWidth 64) >>> (leadingBit d + 32)).setWidth 32
      == BitVec.ofNat 32 (2 ^ 32 / d.toNat) - 1) = decide (RoundsUp d) := by
  obtain ⟨le, low, high⟩ := leadingBit_spec hd
  obtain ⟨worst, some, worst_lt⟩ := maxQuotient_mul_sub_one hd odd
  have lt := reciprocal_lt hd odd
  have pos : 0 < 2 ^ 32 / d.toNat := Nat.pos_of_mul_pos_right some
  have quotient_le : 2 ^ 32 / d.toNat ≤ 2 ^ 32 / d.toNat * d.toNat :=
    Nat.le_mul_of_pos_right _ (Nat.pos_of_mul_pos_left some)
  have quotient : (BitVec.ofNat 32 (2 ^ 32 / d.toNat) - 1).toNat = 2 ^ 32 / d.toNat - 1 := by
    have toNat : (BitVec.ofNat 32 (2 ^ 32 / d.toNat)).toNat = 2 ^ 32 / d.toNat := by
      rw [BitVec.toNat_ofNat, Nat.mod_eq_of_lt (by omega)]
    rw [BitVec.toNat_sub_of_le (by rw [BitVec.le_def, toNat]; exact pos), toNat]
    rfl
  have mult : (BitVec.ofNat 32 (reciprocal d) + 1).toNat = reciprocal d + 1 := by
    rw [BitVec.toNat_add, BitVec.toNat_ofNat, Nat.mod_eq_of_lt (lt.trans (by decide))]
    exact Nat.mod_eq_of_lt (by simp; omega)
  have product_lt : (reciprocal d + 1) * (2 ^ 32 / d.toNat * d.toNat - 1) < 2 ^ 32 * 2 ^ 32 :=
    Nat.mul_lt_mul'' (by omega) (by omega)
  have product : ((BitVec.ofNat 32 (reciprocal d) + 1).setWidth 64 *
      (BitVec.ofNat 32 (2 ^ 32 / d.toNat) * d - 1).setWidth 64).toNat =
        (2 ^ 32 / d.toNat * d.toNat - 1) * (reciprocal d + 1) := by
    rw [BitVec.toNat_mul, BitVec.toNat_setWidth_of_le (by decide),
      BitVec.toNat_setWidth_of_le (by decide), mult, worst, Nat.mul_comm (_ - 1)]
    exact Nat.mod_eq_of_lt product_lt
  have high_lt : (2 ^ 32 / d.toNat * d.toNat - 1) * (reciprocal d + 1) / 2 ^ (32 + leadingBit d) <
      2 ^ 32 := by
    rw [Nat.div_lt_iff_lt_mul (Nat.two_pow_pos _), Nat.pow_add, Nat.mul_comm (_ - 1)]
    have : 2 ^ 32 * 2 ^ 32 * 1 ≤ 2 ^ 32 * 2 ^ 32 * 2 ^ leadingBit d :=
      Nat.mul_le_mul_left _ (Nat.two_pow_pos _)
    rw [Nat.mul_one, Nat.mul_assoc] at this
    exact product_lt.trans_le this
  rw [Bool.eq_iff_iff, beq_iff_eq, decide_eq_true_iff, ← BitVec.toNat_inj, quotient,
    BitVec.toNat_setWidth, BitVec.toNat_ushiftRight, product, Nat.shiftRight_eq_div_pow,
    Nat.add_comm (leadingBit d), Nat.mod_eq_of_lt high_lt]
  rfl

/-- The constants, with the smallest multiplier and shift when rounding up works. -/
theorem unsignedDivisionConstants_eq : unsignedDivisionConstants d =
    if RoundsUp d then
      let t := min (leadingBit d) (BitVec.ofNat 32 (reciprocal d) + 1).ctz.toNat
      { multiplier := (BitVec.ofNat 32 (reciprocal d) + 1) >>> t
        shift := BitVec.ofNat 8 (leadingBit d - t), fast := true }
    else
      { multiplier := BitVec.ofNat 32 (reciprocal d), shift := BitVec.ofNat 8 (leadingBit d)
        fast := false } := by
  obtain ⟨mult, maxQ⟩ := unsigned_steps hd odd
  have mult' : (0x100000000#64 <<< leadingBit d / d.setWidth 64).setWidth 32 =
      BitVec.ofNat 32 (reciprocal d) := by
    rw [← mult, BitVec.ofNat_toNat, BitVec.setWidth_eq]
  have maxQ' : (0x100000000#64 <<< leadingBit d / d.setWidth 64).setWidth 32 >>> leadingBit d =
      BitVec.ofNat 32 (2 ^ 32 / d.toNat) := by
    rw [← maxQ, BitVec.ofNat_toNat, BitVec.setWidth_eq]
  have shift : (31 - d.clz).toNat = leadingBit d := rfl
  have fast := roundUp_eq hd odd
  simp only [unsignedDivisionConstants, shift]
  rw [maxQ', mult', fast]
  by_cases up : RoundsUp d
  · simp [up]
  · simp [up]

theorem roundsUp_iff : RoundsUp d ↔ (2 ^ 32 / d.toNat * d.toNat - 1) *
    excess d.toNat (32 + leadingBit d) < 2 ^ (32 + leadingBit d) := by
  obtain ⟨-, some, -⟩ := maxQuotient_mul_sub_one hd odd
  have pos : 0 < d.toNat := Nat.pos_of_mul_pos_left some
  obtain ⟨q, hq⟩ : ∃ q, 2 ^ 32 / d.toNat = q + 1 :=
    Nat.exists_eq_succ_of_ne_zero (Nat.pos_iff_ne_zero.mp (Nat.pos_of_mul_pos_right some))
  have worst : 2 ^ 32 / d.toNat * d.toNat - 1 = d.toNat * q + (d.toNat - 1) := by
    rw [hq, Nat.succ_mul, Nat.mul_comm]
    omega
  have div : (2 ^ 32 / d.toNat * d.toNat - 1) / d.toNat = 2 ^ 32 / d.toNat - 1 := by
    rw [worst, Nat.mul_add_div pos, Nat.div_eq_of_lt (by omega), hq]
    rfl
  have mod : (2 ^ 32 / d.toNat * d.toNat - 1) % d.toNat = d.toNat - 1 := by
    rw [worst, Nat.mul_add_mod, Nat.mod_eq_of_lt (by omega)]
  have split : d.toNat * 2 ^ (32 + leadingBit d) =
      (d.toNat - 1) * 2 ^ (32 + leadingBit d) + 2 ^ (32 + leadingBit d) := by
    rw [← Nat.succ_mul]
    congr 1
    omega
  unfold RoundsUp reciprocal
  rw [← div, mul_div_eq_div_iff pos (Nat.two_pow_pos _) (reciprocal_eq pos _), mod, split]
  omega

theorem quotient_of_roundsUp (up : RoundsUp d) {n : Nat} (hn : n < 2 ^ 32) :
    n * (reciprocal d + 1) / 2 ^ (32 + leadingBit d) = n / d.toNat := by
  obtain ⟨-, low, -⟩ := leadingBit_spec hd
  have two : 2 ≤ d.toNat := by
    have := odd 0
    have := Nat.one_le_two_pow (n := leadingBit d)
    omega
  have critical : ∀ k, k % d.toNat = d.toNat - 1 → k < 2 ^ 32 →
      k * excess d.toNat (32 + leadingBit d) < 2 ^ (32 + leadingBit d) := by
    intro k mod below
    have le := le_of_mod_eq_pred (by omega : 0 < d.toNat) mod below
    have worst : 2 ^ 32 - 1 - 2 ^ 32 % d.toNat = 2 ^ 32 / d.toNat * d.toNat - 1 := by
      have := Nat.div_add_mod (2 ^ 32) d.toNat
      rw [Nat.mul_comm]
      omega
    rw [worst] at le
    exact (Nat.mul_le_mul_right _ le).trans_lt ((roundsUp_iff hd odd).mp up)
  apply (mul_div_eq_div_iff (by omega) (Nat.two_pow_pos _) (reciprocal_eq (by omega) _)).mpr
  apply error_lt two
  · exact critical _ (Nat.mod_eq_of_lt (by omega)) (by omega)
  · exact fun k le mod => critical k mod (by omega)

theorem quotient_of_not_roundsUp (down : ¬ RoundsUp d) {n : Nat} (hn : n < 2 ^ 32) :
    (n + 1) * reciprocal d / 2 ^ (32 + leadingBit d) = n / d.toNat := by
  obtain ⟨-, low, high⟩ := leadingBit_spec hd
  obtain ⟨-, some, worst_lt⟩ := maxQuotient_mul_sub_one hd odd
  have pos : 0 < d.toNat := Nat.pos_of_mul_pos_left some
  have rem_pos : 0 < 2 ^ (32 + leadingBit d) % d.toNat :=
    Nat.pos_of_ne_zero fun zero => not_dvd_two_pow odd _ (Nat.dvd_of_mod_eq_zero zero)
  have rem_le : 2 ^ (32 + leadingBit d) % d.toNat ≤ 2 ^ leadingBit d := by
    by_contra large
    refine down ((roundsUp_iff hd odd).mpr ?_)
    have small : excess d.toNat (32 + leadingBit d) < 2 ^ leadingBit d := by
      unfold excess
      rw [Nat.pow_succ] at high
      omega
    rw [Nat.pow_add]
    exact Nat.mul_lt_mul'' (by omega) small
  apply succ_mul_div_eq_div pos rem_pos
  · rw [reciprocal, Nat.mul_comm]
    exact Nat.div_add_mod _ _
  · exact (Nat.mul_le_mul hn rem_le).trans_eq (Nat.pow_add 2 32 _).symm

omit hd odd in
/-- Trailing zeros can be shifted out without a remainder. -/
theorem shiftRight_trailingZeroes (m : BitVec 32) {t : Nat} (le : t ≤ m.ctz.toNat) :
    (m >>> t).toNat * 2 ^ t = m.toNat := by
  have low : m.toNat % 2 ^ t = 0 := by
    apply Nat.eq_of_testBit_eq
    intro i
    rw [Nat.testBit_mod_two_pow, Nat.zero_testBit]
    by_cases inside : i < t
    · have : m.toNat.testBit i = false := BitVec.getLsbD_false_of_lt_ctz (by omega)
      simp [inside, this]
    · simp [inside]
  rw [BitVec.toNat_ushiftRight, Nat.shiftRight_eq_div_pow, Nat.mul_comm]
  have := Nat.div_add_mod m.toNat (2 ^ t)
  omega

/-- What the emitted multiplication and shift compute from the constants. -/
theorem unsigned_quotient (n : BitVec 32) :
    (n.toNat + (if (unsignedDivisionConstants d).fast then 0 else 1)) *
        (unsignedDivisionConstants d).multiplier.toNat /
          2 ^ (32 + (unsignedDivisionConstants d).shift.toNat) = n.toNat / d.toNat ∧
      (unsignedDivisionConstants d).shift.toNat < 32 := by
  obtain ⟨le, -, -⟩ := leadingBit_spec hd
  have lt := reciprocal_lt hd odd
  rw [unsignedDivisionConstants_eq hd odd]
  by_cases up : RoundsUp d
  · rw [if_pos up]
    generalize ht : min (leadingBit d) (BitVec.ofNat 32 (reciprocal d) + 1).ctz.toNat = t
    have whole : ((BitVec.ofNat 32 (reciprocal d) + 1) >>> t).toNat * 2 ^ t = reciprocal d + 1 := by
      rw [shiftRight_trailingZeroes _ (by omega), BitVec.toNat_add, BitVec.toNat_ofNat,
        Nat.mod_eq_of_lt (lt.trans (by decide))]
      exact Nat.mod_eq_of_lt (by simp; omega)
    have shift : (BitVec.ofNat 8 (leadingBit d - t)).toNat = leadingBit d - t := by
      rw [BitVec.toNat_ofNat, Nat.mod_eq_of_lt (by omega)]
    refine ⟨?_, ?_⟩
    · simp only [if_true, Nat.add_zero, shift]
      rw [← quotient_of_roundsUp hd odd up n.isLt, ← whole, ← Nat.mul_assoc,
        ← Nat.mul_div_mul_right _ _ (Nat.two_pow_pos t), ← Nat.pow_add]
      congr 2
      omega
    · simp only [shift]
      omega
  · rw [if_neg up]
    have shift : (BitVec.ofNat 8 (leadingBit d)).toNat = leadingBit d := by
      rw [BitVec.toNat_ofNat, Nat.mod_eq_of_lt (by omega)]
    refine ⟨?_, ?_⟩
    · simp only [shift, BitVec.toNat_ofNat, Bool.false_eq_true, if_false,
        Nat.mod_eq_of_lt (lt.trans (by decide : 2 ^ 32 - 1 < 2 ^ 32))]
      exact quotient_of_not_roundsUp hd odd up n.isLt
    · simp only [shift]
      omega

end

end Phocoena.JitCommon
