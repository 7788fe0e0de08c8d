import Mathlib.Tactic.Ring

/-! # Words in parts of 16 bits

Reading a part of a word and replacing it. Where two words differ is a list of positions, and
replacing the parts at these positions turns one word into the other.
-/

namespace Phocoena.BitParts

variable {w : Nat}

/-- The part at position `i`. -/
def part (x : BitVec w) (i : Nat) : BitVec 16 := (x >>> (16 * i)).setWidth 16

/-- The word with `p` as its part at position `i`. -/
def patch (x : BitVec w) (i : Nat) (p : BitVec 16) : BitVec w :=
  (x &&& ~~~((0xFFFF : BitVec 16).setWidth w <<< (16 * i))) ||| (p.setWidth w <<< (16 * i))

theorem getLsbD_part (x : BitVec w) (i : Nat) {k : Nat} (lt : k < 16) :
    (part x i).getLsbD k = x.getLsbD (16 * i + k) := by
  rw [part, BitVec.getLsbD_setWidth, decide_eq_true lt, Bool.true_and, BitVec.getLsbD_ushiftRight]

theorem getLsbD_shifted (p : BitVec 16) (i : Nat) {j : Nat} (lt : j < w) :
    (p.setWidth w <<< (16 * i)).getLsbD j = (decide (j / 16 = i) && p.getLsbD (j % 16)) := by
  rw [BitVec.getLsbD_shiftLeft, BitVec.getLsbD_setWidth, decide_eq_true lt, Bool.true_and]
  by_cases here : j / 16 = i
  · rw [decide_eq_true here, decide_eq_false (show ¬ j < 16 * i by omega),
      decide_eq_true (show j - 16 * i < w by omega), show j - 16 * i = j % 16 by omega]
    rfl
  · rw [decide_eq_false here, Bool.false_and]
    by_cases below : j < 16 * i
    · rw [decide_eq_true below]
      rfl
    · rw [BitVec.getLsbD_of_ge p (j - 16 * i) (by omega), Bool.and_false, Bool.and_false]

theorem getLsbD_patch (x : BitVec w) (i : Nat) (p : BitVec 16) {j : Nat} (lt : j < w) :
    (patch x i p).getLsbD j = if j / 16 = i then p.getLsbD (j % 16) else x.getLsbD j := by
  have ones : (0xFFFF : BitVec 16).getLsbD (j % 16) = true := by
    have all : ∀ k < 16, (0xFFFF : BitVec 16).getLsbD k = true := by decide
    exact all _ (Nat.mod_lt _ (by decide))
  rw [patch, BitVec.getLsbD_or, BitVec.getLsbD_and, BitVec.getLsbD_not, getLsbD_shifted _ _ lt,
    getLsbD_shifted _ _ lt, ones, decide_eq_true lt]
  by_cases here : j / 16 = i <;> simp [here]

/-- The positions at which the words differ. -/
def differing (x base : BitVec w) : List Nat :=
  (List.range (w / 16)).filter fun i => part x i ≠ part base i

theorem getLsbD_foldl_patch (x base : BitVec w) (is : List Nat) {j : Nat} (lt : j < w) :
    (is.foldl (fun v i => patch v i (part x i)) base).getLsbD j =
      if j / 16 ∈ is then x.getLsbD j else base.getLsbD j := by
  induction is generalizing base with
  | nil => rfl
  | cons i is ih =>
      rw [List.foldl_cons, ih, getLsbD_patch _ _ _ lt]
      by_cases later : j / 16 ∈ is
      · rw [if_pos later, if_pos (List.mem_cons_of_mem i later)]
      · by_cases here : j / 16 = i
        · rw [if_neg later, if_pos here, if_pos (List.mem_cons.mpr (.inl here)),
            getLsbD_part _ _ (Nat.mod_lt _ (by decide)), ← here, Nat.div_add_mod]
        · rw [if_neg later, if_neg here,
            if_neg fun member => (List.mem_cons.mp member).elim here later]

/-- Replacing the parts that differ. -/
theorem foldl_patch_differing (whole : 16 ∣ w) (x base : BitVec w) :
    (differing x base).foldl (fun v i => patch v i (part x i)) base = x := by
  refine BitVec.eq_of_getLsbD_eq fun j lt => ?_
  rw [getLsbD_foldl_patch x base _ lt]
  split
  · rfl
  · next same =>
    have inside : j / 16 < w / 16 := by omega
    have equal : part x (j / 16) = part base (j / 16) := by
      by_contra ne
      exact same (List.mem_filter.mpr ⟨List.mem_range.mpr inside, by simpa using ne⟩)
    have bit := congrArg (BitVec.getLsbD · (j % 16)) equal
    simp only [getLsbD_part _ _ (Nat.mod_lt j (show 0 < 16 by decide)), Nat.div_add_mod] at bit
    exact bit.symm

/-- The lowest position comes first. -/
theorem differing_zero_first (x base : BitVec w) :
    ∃ is, 0 ∉ is ∧ (differing x base = is ∨ differing x base = 0 :: is) := by
  rw [differing]
  cases w / 16 with
  | zero => exact ⟨[], List.not_mem_nil, .inl rfl⟩
  | succ n =>
      rw [List.range_succ_eq_map]
      refine ⟨((List.range n).map Nat.succ).filter fun i => part x i ≠ part base i, ?_, ?_⟩
      · intro member
        obtain ⟨i, -, zero⟩ := List.mem_map.mp (List.mem_filter.mp member).1
        exact Nat.succ_ne_zero i zero
      · by_cases same : part x 0 ≠ part base 0
        · exact .inr (List.filter_cons_of_pos (by simpa using same))
        · exact .inl (List.filter_cons_of_neg (by simpa using same))

theorem patch_zero (i : Nat) (p : BitVec 16) :
    patch (0#w) i p = p.setWidth w <<< (16 * i) := by
  rw [patch, BitVec.zero_and, BitVec.zero_or]

theorem patch_allOnes (i : Nat) (p : BitVec 16) :
    patch (BitVec.allOnes w) i p = ~~~((~~~p).setWidth w <<< (16 * i)) := by
  refine BitVec.eq_of_getLsbD_eq fun j lt => ?_
  rw [getLsbD_patch _ _ _ lt, BitVec.getLsbD_not, getLsbD_shifted _ _ lt, BitVec.getLsbD_not,
    decide_eq_true lt, decide_eq_true (Nat.mod_lt j (show 0 < 16 by decide))]
  by_cases here : j / 16 = i <;> simp [here, lt]

end Phocoena.BitParts
