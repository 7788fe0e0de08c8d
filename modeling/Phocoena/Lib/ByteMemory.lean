import Mathlib.Data.Nat.Basic
import Mathlib.Tactic.Ring

/-! # Byte memories

A memory of bytes at 64-bit addresses, which wrap around. Values of any width are stored with
their lowest byte first; lists of values of one width follow each other in memory.
-/

namespace Phocoena

abbrev ByteMemory := BitVec 64 → BitVec 8

namespace ByteMemory

variable {w : Nat}

/-- The address lies among the `n` bytes from `a` on. -/
def Among (a : BitVec 64) (n : Nat) (b : BitVec 64) : Prop := (b - a).toNat < n

instance (a : BitVec 64) (n : Nat) (b : BitVec 64) : Decidable (Among a n b) :=
  inferInstanceAs (Decidable (_ < _))

def store (m : ByteMemory) (a : BitVec 64) (v : BitVec w) : ByteMemory := fun b =>
  if Among a (w / 8) b then v.extractLsb' (8 * (b - a).toNat) 8 else m b

def load (m : ByteMemory) (w : Nat) (a : BitVec 64) : BitVec w :=
  (BitVec.ofBoolListLE ((List.range w).map fun i =>
    (m (a + BitVec.ofNat 64 (i / 8))).getLsbD (i % 8))).setWidth w

theorem getLsbD_load (m : ByteMemory) (a : BitVec 64) {i : Nat} (lt : i < w) :
    (load m w a).getLsbD i = (m (a + BitVec.ofNat 64 (i / 8))).getLsbD (i % 8) := by
  rw [load, BitVec.getLsbD_setWidth, decide_eq_true lt, Bool.true_and,
    BitVec.getLsbD_ofBoolListLE, List.getD_eq_getElem?_getD, List.getElem?_map,
    List.getElem?_range lt, Option.map_some, Option.getD_some]

theorem add_sub_toNat (a : BitVec 64) {k : Nat} (lt : k < 2 ^ 64) :
    (a + BitVec.ofNat 64 k - a).toNat = k := by
  rw [BitVec.add_comm, BitVec.add_sub_cancel, BitVec.toNat_ofNat, Nat.mod_eq_of_lt lt]

theorem among_iff {a b : BitVec 64} {n : Nat} :
    Among a n b ↔ ∃ k < n, k < 2 ^ 64 ∧ b = a + BitVec.ofNat 64 k := by
  constructor
  · intro among
    refine ⟨(b - a).toNat, among, (b - a).isLt, ?_⟩
    rw [BitVec.ofNat_toNat, BitVec.setWidth_eq, BitVec.add_comm, BitVec.sub_add_cancel]
  · rintro ⟨k, lt, small, rfl⟩
    rw [Among, add_sub_toNat a small]
    exact lt

/-- A load sees the bytes of its range only. -/
theorem load_congr {m m' : ByteMemory} {a : BitVec 64} (small : w ≤ 8 * 2 ^ 64)
    (whole : w % 8 = 0) (same : ∀ b, Among a (w / 8) b → m b = m' b) :
    load m w a = load m' w a := by
  refine BitVec.eq_of_getLsbD_eq fun i lt => ?_
  rw [getLsbD_load m a lt, getLsbD_load m' a lt,
    same _ (among_iff.mpr ⟨i / 8, by omega, by omega, rfl⟩)]

theorem load_store (m : ByteMemory) (a : BitVec 64) (v : BitVec w) (small : w ≤ 8 * 2 ^ 64)
    (whole : w % 8 = 0) : load (store m a v) w a = v := by
  refine BitVec.eq_of_getLsbD_eq fun i lt => ?_
  have inside := @add_sub_toNat a (i / 8) (by omega)
  rw [getLsbD_load _ a lt, store, if_pos (by rw [Among, inside]; omega), inside,
    BitVec.getLsbD_extractLsb', decide_eq_true (Nat.mod_lt i (by decide)), Bool.true_and,
    Nat.div_add_mod]

theorem store_of_not_among {m : ByteMemory} {a b : BitVec 64} {v : BitVec w}
    (outside : ¬ Among a (w / 8) b) : store m a v b = m b := if_neg outside

/-! ## Values that follow each other -/

/-- The address `n` values of `w` bits behind `a`. -/
def skip (w : Nat) (a : BitVec 64) (n : Nat) : BitVec 64 := a + BitVec.ofNat 64 (w / 8 * n)

theorem skip_zero (a : BitVec 64) : skip w a 0 = a := by simp [skip]

theorem skip_add (a : BitVec 64) (m n : Nat) : skip w (skip w a m) n = skip w a (m + n) := by
  rw [skip, skip, skip, BitVec.add_assoc, ← BitVec.ofNat_add, Nat.mul_add]

def storeAll : ByteMemory → BitVec 64 → List (BitVec w) → ByteMemory
  | m, _, [] => m
  | m, a, v :: vs => storeAll (store m a v) (skip w a 1) vs

/-- The values stand in memory from `a` on. -/
def Holds (m : ByteMemory) : BitVec 64 → List (BitVec w) → Prop
  | _, [] => True
  | a, v :: vs => load m w a = v ∧ Holds m (skip w a 1) vs

theorem holds_append {m : ByteMemory} {a : BitVec 64} {vs us : List (BitVec w)} :
    Holds m a (vs ++ us) ↔ Holds m a vs ∧ Holds m (skip w a vs.length) us := by
  induction vs generalizing a with
  | nil => simp [Holds, skip_zero]
  | cons v vs ih =>
      rw [List.cons_append, Holds, Holds, ih, skip_add, List.length_cons, Nat.add_comm 1, and_assoc]

theorem among_skip {a b : BitVec 64} {m n total : Nat} (fits : w / 8 * total ≤ 2 ^ 64)
    (le : m + n ≤ total) (among : Among (skip w a m) (w / 8 * n) b) :
    Among a (w / 8 * total) b := by
  obtain ⟨k, lt, -, rfl⟩ := among_iff.mp among
  have le : w / 8 * (m + n) ≤ w / 8 * total := Nat.mul_le_mul_left _ le
  rw [Nat.mul_add] at le
  refine among_iff.mpr ⟨w / 8 * m + k, by omega, by omega, ?_⟩
  rw [skip, BitVec.add_assoc, ← BitVec.ofNat_add]

theorem not_among_skip {a b : BitVec 64} {n m k : Nat} (fits : w / 8 * (m + k) ≤ 2 ^ 64)
    (le : n ≤ m) (among : Among (skip w a m) (w / 8 * k) b) : ¬ Among a (w / 8 * n) b := by
  obtain ⟨j, lt, -, rfl⟩ := among_iff.mp among
  rw [Nat.mul_add] at fits
  have le : w / 8 * n ≤ w / 8 * m := Nat.mul_le_mul_left _ le
  rw [Among, skip, BitVec.add_assoc, ← BitVec.ofNat_add, add_sub_toNat a (by omega)]
  omega

theorem Holds.congr {m m' : ByteMemory} {a : BitVec 64} {vs : List (BitVec w)}
    (small : w ≤ 8 * 2 ^ 64) (whole : w % 8 = 0) (fits : w / 8 * vs.length ≤ 2 ^ 64)
    (holds : Holds m a vs) (same : ∀ b, Among a (w / 8 * vs.length) b → m b = m' b) :
    Holds m' a vs := by
  induction vs generalizing a with
  | nil => trivial
  | cons v vs ih =>
      obtain ⟨first, rest⟩ := holds
      rw [List.length_cons] at fits same
      have less : w / 8 * vs.length ≤ w / 8 * (vs.length + 1) :=
        Nat.mul_le_mul_left _ (Nat.le_succ _)
      refine ⟨?_, ih (by omega) rest fun b among => same b (among_skip fits (by omega) among)⟩
      rw [← load_congr small whole fun b among => same b ?_, first]
      refine among_skip fits (show 0 + 1 ≤ vs.length + 1 by omega) ?_
      rwa [skip_zero, Nat.mul_one]

theorem storeAll_of_not_among {m : ByteMemory} {a b : BitVec 64} {vs : List (BitVec w)}
    (fits : w / 8 * vs.length ≤ 2 ^ 64) (outside : ¬ Among a (w / 8 * vs.length) b) :
    storeAll m a vs b = m b := by
  induction vs generalizing m a with
  | nil => rfl
  | cons v vs ih =>
      rw [List.length_cons] at fits outside
      have less : w / 8 * vs.length ≤ w / 8 * (vs.length + 1) :=
        Nat.mul_le_mul_left _ (Nat.le_succ _)
      rw [storeAll, ih (by omega) fun among => outside (among_skip fits (by omega) among)]
      refine store_of_not_among fun among => outside ?_
      refine among_skip fits (show 0 + 1 ≤ vs.length + 1 by omega) ?_
      rwa [skip_zero, Nat.mul_one]

theorem holds_storeAll (m : ByteMemory) (a : BitVec 64) {vs : List (BitVec w)}
    (small : w ≤ 8 * 2 ^ 64) (whole : w % 8 = 0) (fits : w / 8 * vs.length ≤ 2 ^ 64) :
    Holds (storeAll m a vs) a vs := by
  induction vs generalizing m a with
  | nil => trivial
  | cons v vs ih =>
      rw [List.length_cons] at fits
      have less : w / 8 * vs.length ≤ w / 8 * (vs.length + 1) :=
        Nat.mul_le_mul_left _ (Nat.le_succ _)
      refine ⟨?_, ih _ _ (by omega)⟩
      rw [storeAll, ← load_store m a v small whole]
      refine load_congr small whole fun b among => ?_
      rw [load_store m a v small whole]
      refine storeAll_of_not_among (by omega) fun later => ?_
      refine not_among_skip (n := 1) (by rwa [Nat.add_comm]) (Nat.le_refl 1) later ?_
      rwa [Nat.mul_one]

end ByteMemory

end Phocoena
