import Mathlib.Data.BitVec
import Mathlib.Logic.Function.Iterate

/-! # Cyclic redundancy checks

The check of a byte sequence with the low bit first, one bit at a time, at any width and for any
polynomial; and the step that takes a byte at once from a table of the checks of single bytes.
-/

namespace Phocoena.Crc

section
variable {w : Nat} (polynomial : BitVec w)

/-- Shifts out one bit. -/
def shiftBit (x : BitVec w) : BitVec w :=
  x >>> 1 ^^^ (if x.getLsbD 0 then polynomial else 0)

def shiftBits (n : Nat) (x : BitVec w) : BitVec w := (shiftBit polynomial)^[n] x

/-- Takes in one byte. -/
def byte (crc : BitVec w) (b : BitVec 8) : BitVec w := shiftBits polynomial 8 (crc ^^^ b.setWidth w)

def update (crc : BitVec w) (bytes : List (BitVec 8)) : BitVec w := bytes.foldl (byte polynomial) crc

theorem shiftBit_xor (x y : BitVec w) :
    shiftBit polynomial (x ^^^ y) = shiftBit polynomial x ^^^ shiftBit polynomial y := by
  have added (p q : Bool) : (if (p ^^ q) then polynomial else 0) =
      (if p then polynomial else 0) ^^^ (if q then polynomial else 0) := by
    cases p <;> cases q <;> simp
  unfold shiftBit
  rw [BitVec.getLsbD_xor, BitVec.ushiftRight_xor_distrib, added]
  ac_rfl

theorem shiftBits_xor (n : Nat) (x y : BitVec w) :
    shiftBits polynomial n (x ^^^ y) = shiftBits polynomial n x ^^^ shiftBits polynomial n y := by
  unfold shiftBits
  induction n generalizing x y with
  | zero => rfl
  | succ n ih => rw [Function.iterate_succ_apply, shiftBit_xor, ih]; rfl

/-- Zero bits are shifted out without a trace. -/
theorem shiftBits_of_low_zero (n : Nat) (x : BitVec w) (zero : ∀ i < n, x.getLsbD i = false) :
    shiftBits polynomial n x = x >>> n := by
  unfold shiftBits
  induction n generalizing x with
  | zero => simp
  | succ n ih =>
      have first : shiftBit polynomial x = x >>> 1 := by
        simp [shiftBit, zero 0 (Nat.succ_pos n)]
      rw [Function.iterate_succ_apply, first, ih, ← BitVec.shiftRight_add, Nat.add_comm]
      intro i lt
      rw [BitVec.getLsbD_ushiftRight]
      exact zero (1 + i) (by omega)

/-- The low bits decide what is added to the rest. -/
theorem shiftBits_split (n : Nat) (x : BitVec w) :
    shiftBits polynomial n x =
      shiftBits polynomial n ((x.setWidth n).setWidth w) ^^^ x >>> n := by
  generalize low_eq : (x.setWidth n).setWidth w = low
  have bit (i : Nat) : low.getLsbD i = (decide (i < n) && x.getLsbD i) := by
    rw [← low_eq, BitVec.getLsbD_setWidth, BitVec.getLsbD_setWidth]
    by_cases inside : i < w
    · simp [inside]
    · simp [inside, BitVec.getLsbD_of_ge x i (by omega)]
  have parts : x = low ^^^ (low ^^^ x) := by
    rw [← BitVec.xor_assoc, BitVec.xor_self, BitVec.zero_xor]
  have high : (low ^^^ x) >>> n = x >>> n := by
    apply BitVec.eq_of_getLsbD_eq
    intro i _
    have above : ¬ n + i < n := by omega
    simp [bit, above]
  conv => lhs; rw [parts]
  rw [shiftBits_xor, shiftBits_of_low_zero polynomial n (low ^^^ x), high]
  intro i lt
  simp [bit, lt]

/-- A byte taken at once: the entry of a table for its low bits, on what is left. -/
theorem byte_eq_table (crc : BitVec w) (b : BitVec 8) :
    byte polynomial crc b =
      shiftBits polynomial 8 (((crc ^^^ b.setWidth w).setWidth 8).setWidth w) ^^^ crc >>> 8 := by
  have beyond : (crc ^^^ b.setWidth w) >>> 8 = crc >>> 8 := by
    apply BitVec.eq_of_getLsbD_eq
    intro i _
    simp
  rw [byte, shiftBits_split, beyond]

end

end Phocoena.Crc
