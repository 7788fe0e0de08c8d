import Phocoena.Lib.BitRuns
import Mathlib.Tactic.Ring
import Mathlib.Tactic.IntervalCases

/-! # Logical immediates

The constructor of `LogicalImm`: which values the logical instructions take as an immediate.
-/

namespace Phocoena.Common.LogicalImm

/-- `LogicalImm(value, size)` for a value of `size = 64` bits. -/
def valid64 (value : BitVec 64) : Bool :=
  if value = 0 ∨ ~~~value = 0 then false
  else
    let rotation := (value &&& (value + 1)).ctz.toNat
    let normalized := value.rotateRight rotation
    let elementSize := (normalized &&& (normalized + 1)).ctz.toNat
    value.rotateRight elementSize = value

/-- A 32-bit value is repeated twice to make a 64-bit word. -/
def repeat32 (value : BitVec 64) : BitVec 64 := value <<< 32 ||| (value &&& 0xFFFFFFFF)

def valid (size : Nat) (value : BitVec 64) : Bool :=
  valid64 (if size = 32 then repeat32 value else value)

example : valid 32 0x0FF00FF0 = true ∧ valid 32 0x12345678 = false := by decide +kernel

end Phocoena.Common.LogicalImm

/-! ## The encoding of logical immediates

The fields the constructor of `LogicalImm` computes, and the rule by which the processor reads
them. The constructor accepts exactly the words that repeat one run of ones, and what it encodes
is read back as the value.
-/

namespace Phocoena

/-- An element of `ones` ones in `size` bits, rotated right by `shift` and repeated over `M`
bits. -/
def repeated (M size ones shift : Nat) : BitVec M :=
  (((BitVec.ofNat size (2 ^ ones - 1)).rotateRight shift).replicate (M / size)).setWidth M

theorem getLsbD_repeated {M size ones : Nat} (divides : size ∣ M) (proper : ones < size)
    (shift : Nat) {i : Nat} (lt : i < M) :
    (repeated M size ones shift).getLsbD i = decide ((i + shift) % size < ones) := by
  have pos : 0 < size := by omega
  have inside : i < size * (M / size) := by rwa [Nat.mul_div_cancel' divides]
  have element := circle_rotateRight (BitVec.ofNat size (2 ^ ones - 1)) shift i
  have below := Nat.mod_lt (i + shift) pos
  rw [repeated, BitVec.getLsbD_setWidth, BitVec.getLsbD_replicate, decide_eq_true lt,
    decide_eq_true inside, Bool.true_and, Bool.true_and, ← circle, element, circle,
    BitVec.getLsbD_ofNat, Nat.testBit_two_pow_sub_one, decide_eq_true below, Bool.true_and]

theorem oneRun_repeated {M size ones : Nat} (divides : size ∣ M) (nonempty : 0 < ones)
    (proper : ones < size) (shift : Nat) :
    OneRun (repeated M size ones shift) size ones shift :=
  ⟨nonempty, proper, divides, fun _ lt => getLsbD_repeated divides proper shift lt⟩

theorem OneRun.eq_repeated {M size ones shift : Nat} {x : BitVec M}
    (h : OneRun x size ones shift) : x = repeated M size ones shift :=
  BitVec.eq_of_getLsbD_eq fun i lt =>
    (h.bits i lt).trans (getLsbD_repeated h.divides h.proper shift lt).symm

namespace A64

/-- `DecodeBitMasks` of the architecture for an immediate of `M` bits. -/
def decodeBitMasks (M : Nat) (immN : Bool) (imms immr : BitVec 6) : Option (BitVec M) :=
  let len := (BitVec.ofBool immN ++ ~~~imms).toNat.log2
  if len < 1 ∨ M < 2 ^ len then none
  else
    let S := imms.toNat % 2 ^ len
    let R := immr.toNat % 2 ^ len
    if S = 2 ^ len - 1 then none else some (repeated M (2 ^ len) (S + 1) R)

end A64

namespace Arm64Emitter

inductive GPRSize where
  | B32 | B64
deriving DecidableEq, Repr

def GPRSize.bits : GPRSize → Nat
  | B32 => 32
  | B64 => 64

structure LogicalImm where
  r : BitVec 8
  s : BitVec 8
  n : Bool
  valid : Bool
deriving DecidableEq, Repr

namespace LogicalImm

open Common.LogicalImm (repeat32)

/-- The members' initializers with `valid = false`. -/
def invalid : LogicalImm := ⟨0, 0, false, false⟩

def rField (elementSize rotation : Nat) : BitVec 8 :=
  ((BitVec.ofNat 32 elementSize - BitVec.ofNat 32 rotation) &&&
    (BitVec.ofNat 32 elementSize - 1)).setWidth 8

def sField (elementSize ones : Nat) : BitVec 8 :=
  (((~~~BitVec.ofNat 32 elementSize + 1) <<< 1 ||| (BitVec.ofNat 32 ones - 1)) &&& 0x3f).setWidth 8

/-- `Common::ExtractBit<6>(element_size)`. -/
def nField (elementSize : Nat) : Bool := (BitVec.ofNat 32 elementSize).getLsbD 6

/-- The constructor from where both sizes are treated alike. -/
def ofWord (value : BitVec 64) : LogicalImm :=
  if value = 0 ∨ ~~~value = 0 then invalid
  else
    let rotation := nextRun value
    let normalized := value.rotateRight rotation
    let element_size := nextRun normalized
    let ones := countrOne normalized
    if value.rotateRight element_size ≠ value then invalid
    else ⟨rField element_size rotation, sField element_size ones, nField element_size, true⟩

/-- The value at its size, repeated to 64 bits. -/
def word (value : BitVec 64) : GPRSize → BitVec 64
  | .B32 => repeat32 value
  | .B64 => value

def ofValue (value : BitVec 64) (size : GPRSize) : LogicalImm := ofWord (word value size)

/-- The values a logical instruction can take: neither all zeros nor all ones, and the
repetition of an element of `2 ^ k` bits with one rotated run of ones. -/
def IsRepetition (value : BitVec 64) : Prop :=
  value ≠ 0 ∧ ~~~value ≠ 0 ∧
    ∃ k ones shift, k ≤ 6 ∧ 0 < ones ∧ ones < 2 ^ k ∧ value = repeated 64 (2 ^ k) ones shift

/-! ## The fields -/

theorem rField_eq : ∀ k < 7, ∀ rotation < 65,
    (rField (2 ^ k) rotation).toNat = (2 ^ k - rotation % 2 ^ k) % 2 ^ k := by
  decide +kernel

theorem sField_eq : ∀ k < 7, ∀ ones < 2 ^ k, 0 < ones →
    (sField (2 ^ k) ones).toNat < 64 ∧
    (BitVec.ofBool (nField (2 ^ k)) ++ ~~~(sField (2 ^ k) ones).setWidth 6).toNat.log2 = k ∧
    ((sField (2 ^ k) ones).setWidth 6).toNat % 2 ^ k + 1 = ones := by
  decide +kernel

/-- The fields of an accepted value are read back as the element found. -/
theorem decode_fields {M k ones : Nat} (small : k ≤ 6) (nonempty : 0 < ones) (proper : ones < 2 ^ k)
    (fits : 2 ^ k ≤ M) {rotation : Nat} (range : rotation ≤ 64) :
    A64.decodeBitMasks M (nField (2 ^ k)) ((sField (2 ^ k) ones).setWidth 6)
      ((rField (2 ^ k) rotation).setWidth 6) =
        some (repeated M (2 ^ k) ones ((2 ^ k - rotation % 2 ^ k) % 2 ^ k)) := by
  obtain ⟨-, len, S⟩ := sField_eq k (by omega) ones proper nonempty
  have R := rField_eq k (by omega) rotation (by omega)
  have one : 1 ≤ k := by
    by_contra none
    rw [show k = 0 by omega] at proper
    omega
  have pow : 2 ^ k ∣ 64 := Nat.pow_dvd_pow 2 small
  have R' : ((rField (2 ^ k) rotation).setWidth 6).toNat % 2 ^ k =
      (2 ^ k - rotation % 2 ^ k) % 2 ^ k := by
    rw [BitVec.toNat_setWidth, R, Nat.mod_mod_of_dvd _ pow, Nat.mod_mod]
  simp only [A64.decodeBitMasks, len, S, R']
  rw [if_neg (by omega), if_neg (by omega)]

/-! ## Soundness and completeness -/

theorem ofWord_valid_iff {value : BitVec 64} : (ofWord value).valid = true ↔
    value ≠ 0 ∧ ~~~value ≠ 0 ∧
      value.rotateRight (nextRun (value.rotateRight (nextRun value))) = value := by
  unfold ofWord
  split
  · next trivial =>
    simp only [invalid, Bool.false_eq_true, false_iff]
    tauto
  · next proper =>
    dsimp only
    split
    · next different => simp [invalid, different]
    · next same =>
      rw [not_or] at proper
      exact iff_of_true rfl ⟨proper.1, proper.2, not_not.mp same⟩

/-- What the constructor finds in a word it accepts. -/
theorem oneRun_of_valid {value : BitVec 64} (valid : (ofWord value).valid = true) :
    ∃ k ≤ 6, ∃ ones, 0 < ones ∧ ones < 2 ^ k ∧
      ofWord value = ⟨rField (2 ^ k) (nextRun value), sField (2 ^ k) ones, nField (2 ^ k), true⟩ ∧
      OneRun value (2 ^ k) ones ((2 ^ k - nextRun value % 2 ^ k) % 2 ^ k) := by
  obtain ⟨nonzero, notAll, repeats⟩ := ofWord_valid_iff.mp valid
  have run := oneRun_of_rotateRight nonzero notAll repeats
  have fields : ofWord value = ⟨rField (nextRun (value.rotateRight (nextRun value))) (nextRun value),
      sField (nextRun (value.rotateRight (nextRun value)))
        (countrOne (value.rotateRight (nextRun value))),
      nField (nextRun (value.rotateRight (nextRun value))), true⟩ := by
    rw [ofWord, if_neg (not_or.mpr ⟨nonzero, notAll⟩)]
    exact if_neg (not_not.mpr repeats)
  obtain ⟨k, le, size⟩ := (Nat.dvd_prime_pow Nat.prime_two).mp
    (show nextRun (value.rotateRight (nextRun value)) ∣ 2 ^ 6 from run.divides)
  rw [size] at fields run
  exact ⟨k, le, _, run.nonempty, run.proper, fields, run⟩

theorem valid_of_repetition {value : BitVec 64} (h : IsRepetition value) :
    (ofWord value).valid = true := by
  obtain ⟨nonzero, notAll, k, ones, shift, small, nonempty, proper, same⟩ := h
  have run : OneRun value (2 ^ k) ones shift := by
    rw [same]
    exact oneRun_repeated (Nat.pow_dvd_pow 2 small) nonempty proper shift
  obtain ⟨size, repeats⟩ := run.nextRun_normalized nonzero notAll
  exact ofWord_valid_iff.mpr ⟨nonzero, notAll, by rw [size, repeats]⟩

theorem repetition_iff {value : BitVec 64} :
    (ofWord value).valid = true ↔ IsRepetition value := by
  constructor
  · intro valid
    obtain ⟨k, small, ones, nonempty, proper, -, run⟩ := oneRun_of_valid valid
    obtain ⟨nonzero, notAll, -⟩ := ofWord_valid_iff.mp valid
    exact ⟨nonzero, notAll, k, ones, _, small, nonempty, proper, run.eq_repeated⟩
  · exact valid_of_repetition

theorem getLsbD_repeat32 (value : BitVec 64) {i : Nat} (lt : i < 32) :
    (repeat32 value).getLsbD i = value.getLsbD i ∧
      (repeat32 value).getLsbD (i + 32) = value.getLsbD i := by
  have mask : ∀ j < 64, (0xFFFFFFFF : BitVec 64).getLsbD j = decide (j < 32) := by decide
  have low : i < 64 := by omega
  have high : i + 32 < 64 := by omega
  constructor
  · rw [repeat32, BitVec.getLsbD_or, BitVec.getLsbD_and, BitVec.getLsbD_shiftLeft, mask i low]
    simp [lt]
  · rw [repeat32, BitVec.getLsbD_or, BitVec.getLsbD_and, BitVec.getLsbD_shiftLeft, mask _ high]
    simp [high]

/-- A repeated 32-bit value has no element of more than 32 bits. -/
theorem word_period (value : BitVec 64) (i : Nat) :
    circle (repeat32 value) (i + 32) = circle (repeat32 value) i := by
  rw [circle, circle]
  have lt := Nat.mod_lt i (show 0 < 64 by decide)
  have wrap : (i + 32) % 64 = if i % 64 < 32 then i % 64 + 32 else i % 64 - 32 := by
    split <;> omega
  rw [wrap]
  split
  · next low =>
    obtain ⟨same, up⟩ := getLsbD_repeat32 value low
    rw [same, up]
  · next high =>
    obtain ⟨same, up⟩ := @getLsbD_repeat32 value (i % 64 - 32) (by omega)
    rw [show i % 64 - 32 + 32 = i % 64 by omega] at up
    rw [same, up]

/-- The constructor accepts exactly the repetitions of one run of ones, and the processor reads
the fields it computes as the value at its size. -/
theorem ofValue_exact (value : BitVec 64) (size : GPRSize) :
    ((ofValue value size).valid = true ↔ IsRepetition (word value size)) ∧
    ((ofValue value size).valid = true →
      (ofValue value size).r.toNat < 64 ∧ (ofValue value size).s.toNat < 64 ∧
      A64.decodeBitMasks size.bits (ofValue value size).n ((ofValue value size).s.setWidth 6)
        ((ofValue value size).r.setWidth 6) = some (value.setWidth size.bits)) := by
  refine ⟨repetition_iff, fun valid => ?_⟩
  obtain ⟨k, small, ones, nonempty, proper, fields, run⟩ := oneRun_of_valid valid
  have range := nextRun_le (word value size)
  have pow : 2 ^ k ∣ 64 := Nat.pow_dvd_pow 2 small
  have fits : 2 ^ k ∣ size.bits := by
    cases size with
    | B32 => exact run.dvd_of_period (by decide) (word_period value)
    | B64 => exact pow
  have bound := Nat.le_of_dvd (by cases size <;> decide) fits
  rw [ofValue, fields]
  refine ⟨?_, (sField_eq k (by omega) ones proper nonempty).1, ?_⟩
  · rw [rField_eq k (by omega) _ (by omega)]
    have := Nat.mod_lt (2 ^ k - nextRun (word value size) % 2 ^ k) (Nat.two_pow_pos k)
    have := Nat.le_of_dvd (by decide) pow
    omega
  · rw [decode_fields small nonempty proper bound range]
    refine congrArg some (BitVec.eq_of_getLsbD_eq fun i lt => ?_)
    rw [getLsbD_repeated fits proper _ lt, BitVec.getLsbD_setWidth, decide_eq_true lt,
      Bool.true_and]
    cases size with
    | B32 =>
        have lt : i < 32 := lt
        rw [← (getLsbD_repeat32 value lt).1]
        exact (run.bits i (by omega)).symm
    | B64 => exact (run.bits i lt).symm

end LogicalImm

end Arm64Emitter

end Phocoena
