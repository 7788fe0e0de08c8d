import Mathlib.Tactic.Ring
import Mathlib.Order.Bounds.Basic

/-! # Tiles and ranges

Where the cells of a grid are that is stored tile by tile, and the smallest and the largest of a
list of numbers.
-/

namespace Phocoena.Tiles

/-- The place of the cell `(s, t)` in a grid that is `W` tiles wide, the tiles having `bw` columns
and `bh` rows. -/
def tileAddress (W bw bh s t : Nat) : Nat :=
  ((t / bh) * W + s / bw) * (bw * bh) + ((t % bh) * bw + s % bw)

variable {W H bw bh s t n : Nat}

theorem inside_lt (wide : 0 < bw) (high : 0 < bh) : (t % bh) * bw + s % bw < bw * bh := by
  have column : s % bw < bw := Nat.mod_lt s wide
  have row : t % bh + 1 ≤ bh := Nat.mod_lt t high
  calc (t % bh) * bw + s % bw < (t % bh) * bw + bw := Nat.add_lt_add_left column _
    _ = (t % bh + 1) * bw := by ring
    _ ≤ bh * bw := Nat.mul_le_mul_right bw row
    _ = bw * bh := Nat.mul_comm bh bw

theorem tileAddress_lt (wide : 0 < bw) (high : 0 < bh) (column : s < W * bw) (row : t < H * bh) :
    tileAddress W bw bh s t < W * H * (bw * bh) := by
  have tile_column : s / bw < W := Nat.div_lt_of_lt_mul (by rwa [Nat.mul_comm] at column)
  have tile_row : t / bh + 1 ≤ H := Nat.div_lt_of_lt_mul (by rwa [Nat.mul_comm] at row)
  have tile : (t / bh) * W + s / bw + 1 ≤ W * H := by
    calc (t / bh) * W + s / bw + 1 ≤ (t / bh) * W + W := Nat.add_le_add_left tile_column _
      _ = (t / bh + 1) * W := by ring
      _ ≤ H * W := Nat.mul_le_mul_right W tile_row
      _ = W * H := Nat.mul_comm H W
  calc tileAddress W bw bh s t
      < ((t / bh) * W + s / bw) * (bw * bh) + bw * bh :=
        Nat.add_lt_add_left (inside_lt wide high) _
    _ = ((t / bh) * W + s / bw + 1) * (bw * bh) := by ring
    _ ≤ W * H * (bw * bh) := Nat.mul_le_mul_right _ tile

/-- Every place belongs to a cell. -/
theorem exists_tileAddress (wide : 0 < bw) (high : 0 < bh) (inside : n < W * H * (bw * bh)) :
    ∃ s < W * bw, ∃ t < H * bh, tileAddress W bw bh s t = n := by
  have area : 0 < bw * bh := Nat.mul_pos wide high
  have tile : n / (bw * bh) < W * H := Nat.div_lt_of_lt_mul (by rwa [Nat.mul_comm] at inside)
  have W_pos : 0 < W := Nat.pos_of_ne_zero fun zero => by
    rw [zero, Nat.zero_mul] at tile
    exact Nat.not_lt_zero _ tile
  have column : n / (bw * bh) % W < W := Nat.mod_lt _ W_pos
  have row : n / (bw * bh) / W < H := Nat.div_lt_of_lt_mul tile
  have inner : n % (bw * bh) < bw * bh := Nat.mod_lt n area
  have inner_row : n % (bw * bh) / bw < bh := Nat.div_lt_of_lt_mul inner
  have inner_column : n % (bw * bh) % bw < bw := Nat.mod_lt _ wide
  refine ⟨n / (bw * bh) % W * bw + n % (bw * bh) % bw, ?_,
    n / (bw * bh) / W * bh + n % (bw * bh) / bw, ?_, ?_⟩
  · calc _ < n / (bw * bh) % W * bw + bw := Nat.add_lt_add_left inner_column _
      _ = (n / (bw * bh) % W + 1) * bw := by ring
      _ ≤ W * bw := Nat.mul_le_mul_right bw column
  · calc _ < n / (bw * bh) / W * bh + bh := Nat.add_lt_add_left inner_row _
      _ = (n / (bw * bh) / W + 1) * bh := by ring
      _ ≤ H * bh := Nat.mul_le_mul_right bh row
  · have divide {a b c : Nat} (pos : 0 < b) (small : c < b) :
        (a * b + c) / b = a ∧ (a * b + c) % b = c := by
      rw [Nat.add_comm, Nat.add_mul_div_right _ _ pos, Nat.add_mul_mod_self_right,
        Nat.div_eq_of_lt small, Nat.mod_eq_of_lt small, Nat.zero_add]
      exact ⟨rfl, rfl⟩
    rw [tileAddress, (divide wide inner_column).1, (divide wide inner_column).2,
      (divide high inner_row).1, (divide high inner_row).2, Nat.div_add_mod', Nat.div_add_mod',
      Nat.div_add_mod']

/-- The smallest and the largest number of a list, with the bounds a search begins with. -/
def extremes (values : List Nat) (low high : Nat) : Nat × Nat :=
  values.foldl (fun r v => (min r.1 v, max r.2 v)) (low, high)

theorem extremes_spec (values : List Nat) (low high : Nat) :
    IsLeast {v | v = low ∨ v ∈ values} (extremes values low high).1 ∧
      IsGreatest {v | v = high ∨ v ∈ values} (extremes values low high).2 := by
  induction values generalizing low high with
  | nil =>
      refine ⟨⟨.inl rfl, fun v member => ?_⟩, ⟨.inl rfl, fun v member => ?_⟩⟩
      · cases member with
        | inl eq => exact eq.ge
        | inr inside => exact absurd inside List.not_mem_nil
      · cases member with
        | inl eq => exact eq.le
        | inr inside => exact absurd inside List.not_mem_nil
  | cons c values ih =>
      obtain ⟨least, greatest⟩ := ih (min low c) (max high c)
      refine ⟨⟨?_, fun v member => ?_⟩, ⟨?_, fun v member => ?_⟩⟩
      · cases least.1 with
        | inl eq =>
            have first : (extremes (c :: values) low high).1 = min low c := eq
            cases le_total low c with
            | inl below => exact .inl (first.trans (min_eq_left below))
            | inr above =>
                rw [min_eq_right above] at first
                exact .inr (List.mem_cons.mpr (.inl first))
        | inr inside => exact .inr (List.mem_cons_of_mem c inside)
      · have bound := least.2 (.inl rfl : min low c = min low c ∨ min low c ∈ values)
        cases member with
        | inl eq => exact bound.trans (eq ▸ min_le_left low c)
        | inr inside =>
            cases List.mem_cons.mp inside with
            | inl eq => exact bound.trans (eq ▸ min_le_right low c)
            | inr later => exact least.2 (.inr later)
      · cases greatest.1 with
        | inl eq =>
            have second : (extremes (c :: values) low high).2 = max high c := eq
            cases le_total high c with
            | inl below =>
                rw [max_eq_right below] at second
                exact .inr (List.mem_cons.mpr (.inl second))
            | inr above => exact .inl (second.trans (max_eq_left above))
        | inr inside => exact .inr (List.mem_cons_of_mem c inside)
      · have bound := greatest.2 (.inl rfl : max high c = max high c ∨ max high c ∈ values)
        cases member with
        | inl eq => exact (eq ▸ le_max_left high c : v ≤ _).trans bound
        | inr inside =>
            cases List.mem_cons.mp inside with
            | inl eq => exact (eq ▸ le_max_right high c : v ≤ _).trans bound
            | inr later => exact greatest.2 (.inr later)

/-- The bounds the search begins with do not matter where the numbers lie between them. -/
theorem extremes_eq {values : List Nat} {low high least greatest : Nat}
    (below : ∀ v ∈ values, v ≤ low) (above : ∀ v ∈ values, high ≤ v)
    (is_least : IsLeast {v | v ∈ values} least) (is_greatest : IsGreatest {v | v ∈ values} greatest) :
    extremes values low high = (least, greatest) := by
  obtain ⟨first, second⟩ := extremes_spec values low high
  have first_eq : (extremes values low high).1 = least := by
    refine le_antisymm (first.2 (.inr is_least.1)) ?_
    cases first.1 with
    | inl eq => exact (below least is_least.1).trans eq.ge
    | inr inside => exact is_least.2 inside
  have second_eq : (extremes values low high).2 = greatest := by
    refine le_antisymm ?_ (second.2 (.inr is_greatest.1))
    cases second.1 with
    | inl eq => exact eq.le.trans (above greatest is_greatest.1)
    | inr inside => exact is_greatest.2 inside
  exact Prod.ext first_eq second_eq

end Phocoena.Tiles
