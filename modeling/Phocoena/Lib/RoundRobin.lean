import Mathlib.Data.Nat.ModEq
import Mathlib.Tactic.Ring

/-! # Visiting slots in turn

Item `m` goes to slot `m % n`. After `m` items, `nextItem n m i` is the first item that slot `i`
has not seen yet.
-/

namespace Phocoena

def nextItem (n : Nat) : Nat → Nat → Nat
  | 0, i => i
  | m + 1, i => if m % n = i then nextItem n m i + n else nextItem n m i

section
variable {n m i : Nat}

theorem eq_of_mod_eq {x y : Nat} (eq : x % n = y % n) (le : x ≤ y) (lt : y < x + n) : x = y := by
  have h : (y - x) % n = 0 := (Nat.modEq_iff_dvd' le).mp eq |> Nat.mod_eq_zero_of_dvd
  rw [Nat.mod_eq_of_lt (by omega)] at h
  omega

theorem nextItem_mod (lt : i < n) : nextItem n m i % n = i := by
  induction m with
  | zero => exact Nat.mod_eq_of_lt lt
  | succ m ih =>
      rw [nextItem]
      split
      · rw [Nat.add_mod_right, ih]
      · exact ih

theorem nextItem_range (lt : i < n) : m ≤ nextItem n m i ∧ nextItem n m i < m + n := by
  induction m with
  | zero => exact ⟨Nat.zero_le i, by rw [nextItem]; omega⟩
  | succ m ih =>
      obtain ⟨low, high⟩ := ih
      rw [nextItem]
      split
      · rename_i eq
        have now := eq_of_mod_eq (eq.trans (nextItem_mod lt).symm) low high
        omega
      · rename_i ne
        refine ⟨?_, by omega⟩
        rcases Nat.lt_or_ge m (nextItem n m i) with above | below
        · exact above
        · exact absurd (by rw [← nextItem_mod (m := m) lt, Nat.le_antisymm below low]) ne

/-- The slot whose turn it is has the next item. -/
theorem nextItem_turn (pos : 0 < n) : nextItem n m (m % n) = m := by
  obtain ⟨low, high⟩ := nextItem_range (m := m) (Nat.mod_lt m pos)
  exact (eq_of_mod_eq (nextItem_mod (Nat.mod_lt m pos)).symm low high).symm

theorem nextItem_succ_turn (pos : 0 < n) : nextItem n (m + 1) (m % n) = m + n := by
  rw [nextItem, if_pos rfl, nextItem_turn pos]

theorem nextItem_succ_of_ne (ne : m % n ≠ i) : nextItem n (m + 1) i = nextItem n m i :=
  if_neg ne

end

end Phocoena
