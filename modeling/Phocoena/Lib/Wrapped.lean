import Mathlib.Algebra.Order.Ring.Int

/-! # Signed numbers of a fixed width

Integers that stand for registers of a width whose least number is `-H`. `wrap H` is what a
register keeps of an integer. A sum or a difference of two registers has a carry and an overflow,
and both can be read off the signs and the unsigned order of what is kept, also when registers
are extended to a greater width of `M` values.
-/

namespace Phocoena

/-- A value of the width. -/
def Fits (H v : Int) : Prop := -H ≤ v ∧ v < H

instance (H v : Int) : Decidable (Fits H v) := inferInstanceAs (Decidable (_ ∧ _))

/-- The value of the width that is the same modulo `2 * H`. -/
def wrap (H v : Int) : Int := (v + H) % (2 * H) - H

/-- The unsigned sum does not fit. -/
def Carries (H a b : Int) : Prop := 2 * H ≤ a % (2 * H) + b % (2 * H)

instance (H a b : Int) : Decidable (Carries H a b) := inferInstanceAs (Decidable (_ ≤ _))

/-- The unsigned difference is negative. -/
def Borrows (H a b : Int) : Prop := a % (2 * H) < b % (2 * H)

instance (H a b : Int) : Decidable (Borrows H a b) := inferInstanceAs (Decidable (_ < _))

section
variable {H M a b v : Int}

theorem fits_wrap (pos : 0 < H) (v : Int) : Fits H (wrap H v) := by
  have lower := Int.emod_nonneg (v + H) (show 2 * H ≠ 0 by omega)
  have upper := Int.emod_lt_of_pos (v + H) (show 0 < 2 * H by omega)
  unfold Fits wrap
  omega

theorem wrap_of_fits (fits : Fits H v) : wrap H v = v := by
  unfold Fits at fits
  rw [wrap, Int.emod_eq_of_lt (by omega) (by omega)]
  omega

theorem wrap_above (lower : H ≤ v) (upper : v < 3 * H) : wrap H v = v - 2 * H := by
  have same := Int.add_emod_right (v - H) (2 * H)
  rw [wrap, show v + H = v - H + 2 * H by omega, same, Int.emod_eq_of_lt (by omega) (by omega)]
  omega

theorem wrap_below (lower : -(3 * H) ≤ v) (upper : v < -H) : wrap H v = v + 2 * H := by
  have same := Int.add_emod_right (v + H) (2 * H)
  rw [wrap, ← same, Int.emod_eq_of_lt (by omega) (by omega)]
  omega

theorem wrap_emod (v : Int) : wrap H v % (2 * H) = v % (2 * H) := by
  rw [wrap, Int.emod_sub_emod, Int.add_sub_cancel]

/-- The unsigned value of a register that is extended to `M` values. -/
theorem emod_of_fits (pos : 0 < H) (wide : 2 * H ≤ M) (fits : Fits H v) :
    v % M = if v < 0 then v + M else v := by
  unfold Fits at fits
  split
  · rw [← Int.add_emod_right v M, Int.emod_eq_of_lt (by omega) (by omega)]
  · exact Int.emod_eq_of_lt (by omega) (by omega)

/-- What is kept of a sum, in three cases. -/
theorem wrap_add (fitsA : Fits H a) (fitsB : Fits H b) :
    (Fits H (a + b) ∧ wrap H (a + b) = a + b) ∨ (H ≤ a + b ∧ wrap H (a + b) = a + b - 2 * H) ∨
      (a + b < -H ∧ wrap H (a + b) = a + b + 2 * H) := by
  unfold Fits at fitsA fitsB
  rcases lt_or_ge (a + b) (-H) with low | low
  · exact .inr (.inr ⟨low, wrap_below (by omega) low⟩)
  rcases lt_or_ge (a + b) H with high | high
  · exact .inl ⟨⟨low, high⟩, wrap_of_fits ⟨low, high⟩⟩
  · exact .inr (.inl ⟨high, wrap_above high (by omega)⟩)

theorem wrap_sub (fitsA : Fits H a) (fitsB : Fits H b) :
    (Fits H (a - b) ∧ wrap H (a - b) = a - b) ∨ (H ≤ a - b ∧ wrap H (a - b) = a - b - 2 * H) ∨
      (a - b < -H ∧ wrap H (a - b) = a - b + 2 * H) := by
  unfold Fits at fitsA fitsB
  rcases lt_or_ge (a - b) (-H) with low | low
  · exact .inr (.inr ⟨low, wrap_below (by omega) low⟩)
  rcases lt_or_ge (a - b) H with high | high
  · exact .inl ⟨⟨low, high⟩, wrap_of_fits ⟨low, high⟩⟩
  · exact .inr (.inl ⟨high, wrap_above high (by omega)⟩)

/-- What is kept of a sum is less than a summand when there is a carry. -/
theorem lt_iff_carries (pos : 0 < H) (wide : 2 * H ≤ M) (fitsA : Fits H a) (fitsB : Fits H b) :
    wrap H (a + b) % M < a % M ↔ Carries H a b := by
  rw [emod_of_fits pos wide (fits_wrap pos _), emod_of_fits pos wide fitsA, Carries,
    emod_of_fits pos (le_refl _) fitsA, emod_of_fits pos (le_refl _) fitsB]
  have cases := wrap_add fitsA fitsB
  unfold Fits at fitsA fitsB cases
  rcases cases with ⟨_, eq⟩ | ⟨_, eq⟩ | ⟨_, eq⟩ <;> rw [eq] <;> split_ifs <;> omega

/-- What is kept of a difference is at most what it is taken from when there is no borrow. -/
theorem le_iff_not_borrows (pos : 0 < H) (wide : 2 * H ≤ M) (fitsA : Fits H a)
    (fitsB : Fits H b) : wrap H (a - b) % M ≤ a % M ↔ ¬ Borrows H a b := by
  rw [emod_of_fits pos wide (fits_wrap pos _), emod_of_fits pos wide fitsA, Borrows,
    emod_of_fits pos (le_refl _) fitsA, emod_of_fits pos (le_refl _) fitsB]
  have cases := wrap_sub fitsA fitsB
  unfold Fits at fitsA fitsB cases
  rcases cases with ⟨_, eq⟩ | ⟨_, eq⟩ | ⟨_, eq⟩ <;> rw [eq] <;> split_ifs <;> omega

/-- Both summands differ from what is kept in their sign when the sum does not fit. -/
theorem signs_iff_add (fitsA : Fits H a) (fitsB : Fits H b) :
    ((a < 0 ↔ ¬ wrap H (a + b) < 0) ∧ (b < 0 ↔ ¬ wrap H (a + b) < 0)) ↔ ¬ Fits H (a + b) := by
  have cases := wrap_add fitsA fitsB
  unfold Fits at *
  rcases cases with ⟨_, eq⟩ | ⟨_, eq⟩ | ⟨_, eq⟩ <;> rw [eq] <;> omega

/-- As for a sum, of the negated number. -/
theorem signs_iff_sub (fitsA : Fits H a) (fitsB : Fits H b) :
    ((a < 0 ↔ ¬ wrap H (a - b) < 0) ∧ (-b < 0 ↔ ¬ wrap H (a - b) < 0)) ↔ ¬ Fits H (a - b) := by
  have cases := wrap_sub fitsA fitsB
  unfold Fits at *
  rcases cases with ⟨_, eq⟩ | ⟨_, eq⟩ | ⟨_, eq⟩ <;> rw [eq] <;> omega

end

end Phocoena
