import Mathlib.Logic.Function.Basic

/-! # Feistel networks

A round changes one half of the block by a function of the other half, so the same rounds with
their keys in the opposite order, on exchanged halves, undo it, whatever the function is. The bits
that a mask selects are exchanged by an involution.
-/

namespace Phocoena.Feistel

variable {w : Nat} {κ : Type}

/-- Exchange the bits of both words that the mask selects. -/
def exchange (mask : BitVec w) (b : BitVec w × BitVec w) : BitVec w × BitVec w :=
  let t := (b.1 ^^^ b.2) &&& mask
  (b.1 ^^^ t, b.2 ^^^ t)

theorem xor_xor_cancel (x t : BitVec w) : x ^^^ t ^^^ t = x := by
  rw [BitVec.xor_assoc, BitVec.xor_self, BitVec.xor_zero]

theorem exchange_exchange (mask : BitVec w) (b : BitVec w × BitVec w) :
    exchange mask (exchange mask b) = b := by
  obtain ⟨x, y⟩ := b
  have same : (x ^^^ ((x ^^^ y) &&& mask)) ^^^ (y ^^^ ((x ^^^ y) &&& mask)) = x ^^^ y := by
    rw [BitVec.xor_assoc, BitVec.xor_comm y, ← BitVec.xor_assoc _ _ y, BitVec.xor_self,
      BitVec.zero_xor]
  simp only [exchange, same, xor_xor_cancel]

theorem getLsbD_rotateLeft (x : BitVec w) {n i : Nat} (small : n < w) (inside : i < w) :
    (x.rotateLeft n).getLsbD i = if i < n then x.getLsbD (w - n + i) else x.getLsbD (i - n) := by
  rw [BitVec.getLsbD_rotateLeft, Nat.mod_eq_of_lt small, decide_eq_true inside, Bool.true_and,
    Bool.cond_decide]

theorem getLsbD_rotateRight (x : BitVec w) {n i : Nat} (small : n < w) (inside : i < w) :
    (x.rotateRight n).getLsbD i
      = if i < w - n then x.getLsbD (n + i) else x.getLsbD (i - (w - n)) := by
  rw [BitVec.getLsbD_rotateRight, Nat.mod_eq_of_lt small, decide_eq_true inside, Bool.true_and,
    Bool.cond_decide]

theorem rotateRight_rotateLeft (x : BitVec w) {n : Nat} (small : n < w) :
    (x.rotateLeft n).rotateRight n = x := by
  apply BitVec.eq_of_getLsbD_eq
  intro i inside
  rw [getLsbD_rotateRight _ small inside]
  by_cases low : i < w - n
  · rw [if_pos low, getLsbD_rotateLeft _ small (by omega), if_neg (by omega),
      Nat.add_sub_cancel_left]
  · rw [if_neg low, getLsbD_rotateLeft _ small (by omega), if_pos (by omega)]
    congr 1
    omega

theorem rotateLeft_rotateRight (x : BitVec w) {n : Nat} (small : n < w) :
    (x.rotateRight n).rotateLeft n = x := by
  apply BitVec.eq_of_getLsbD_eq
  intro i inside
  rw [getLsbD_rotateLeft _ small inside]
  by_cases low : i < n
  · rw [if_pos low, getLsbD_rotateRight _ small (by omega), if_neg (by omega)]
    congr 1
    omega
  · rw [if_neg low, getLsbD_rotateRight _ small (by omega), if_pos (by omega)]
    congr 1
    omega

/-- Two rounds: the first half by the second, then the second half by the first. -/
def double (F : κ → BitVec w → BitVec w) (b : BitVec w × BitVec w) (keys : κ × κ) :
    BitVec w × BitVec w :=
  let x := b.1 ^^^ F keys.1 b.2
  (x, b.2 ^^^ F keys.2 x)

/-- The double rounds, one for each pair of keys. -/
def network (F : κ → BitVec w → BitVec w) (keys : List (κ × κ)) (b : BitVec w × BitVec w) :
    BitVec w × BitVec w :=
  keys.foldl (double F) b

/-- The pairs of keys in the opposite order. -/
def reversed (keys : List (κ × κ)) : List (κ × κ) :=
  (keys.map Prod.swap).reverse

theorem reversed_reversed (keys : List (κ × κ)) : reversed (reversed keys) = keys := by
  simp [reversed]

variable (F : κ → BitVec w → BitVec w)

theorem double_swap (keys : κ × κ) (b : BitVec w × BitVec w) :
    double F (double F b keys).swap keys.swap = b.swap := by
  simp only [double, Prod.fst_swap, Prod.snd_swap, xor_xor_cancel]
  rfl

/-- The network is undone by itself, with the keys reversed and the halves exchanged. -/
theorem network_swap (keys : List (κ × κ)) (b : BitVec w × BitVec w) :
    network F (reversed keys) (network F keys b).swap = b.swap := by
  induction keys generalizing b with
  | nil => rfl
  | cons k keys ih =>
      have inner := ih (double F b k)
      rw [reversed, List.map_cons, List.reverse_cons, network, List.foldl_append]
      change double F (network F (reversed keys) (network F keys (double F b k)).swap) k.swap = _
      rw [inner, double_swap]

end Phocoena.Feistel
