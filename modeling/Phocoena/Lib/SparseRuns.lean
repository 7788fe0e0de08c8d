import Mathlib.Data.List.Basic
import Mathlib.Algebra.Notation.Defs

/-! # Sparse sequences

A sequence that is zero outside of some runs, given by where they start and stop. The runs are in
order, and more than a fixed gap apart, so that a fixed cost for each of them that is not more
than the gap is paid for by the zeros that are left out.
-/

namespace Phocoena

variable {α : Type} [Zero α]

/-- The elements from index `start` up to `stop` are zero. -/
def ZerosBetween (l : List α) (start stop : Nat) : Prop :=
  ∀ i, start ≤ i → i < stop → ∀ lt : i < l.length, l[i] = 0

/-- From `position` on, `l` is zero outside of the runs. -/
inductive SparseFrom (gap : Nat) (l : List α) : Nat → List (Nat × Nat) → Prop where
  | nil {position : Nat} (zeros : ZerosBetween l position l.length) : SparseFrom gap l position []
  | cons {position start stop : Nat} {runs : List (Nat × Nat)} (after : position ≤ start)
      (nonempty : start < stop) (inside : stop ≤ l.length) (zeros : ZerosBetween l position start)
      (apart : ∀ next ∈ runs.head?, stop + gap < next.1) (rest : SparseFrom gap l stop runs) :
      SparseFrom gap l position ((start, stop) :: runs)

variable {gap : Nat} {l : List α}

theorem ZerosBetween.mono {i j i' j' : Nat} (zeros : ZerosBetween l i j) (le : i ≤ i')
    (ge : j' ≤ j) : ZerosBetween l i' j' :=
  fun k first last lt => zeros k (Nat.le_trans le first) (Nat.lt_of_lt_of_le last ge) lt

theorem take_zeros {position count : Nat} (zeros : ZerosBetween l position (position + count))
    (inside : position + count ≤ l.length) :
    l.take (position + count) = l.take position ++ List.replicate count 0 := by
  induction count with
  | zero => simp
  | succ count ih =>
      have before := ih (zeros.mono (Nat.le_refl _) (by omega)) (by omega)
      have lt : position + count < l.length := by omega
      have last : l[position + count] = 0 := zeros (position + count) (by omega) (by omega) lt
      rw [← Nat.add_assoc, List.take_add_one, before, List.getElem?_eq_getElem lt, last]
      simp [List.replicate_succ', List.append_assoc]

/-- What the runs hold, with a cost for each of them. -/
def runsSize (cost : Nat) : List (Nat × Nat) → Nat
  | [] => 0
  | run :: runs => cost + (run.2 - run.1) + runsSize cost runs

theorem SparseFrom.of_mem {position : Nat} {runs : List (Nat × Nat)}
    (sparse : SparseFrom gap l position runs) :
    ∀ run ∈ runs, run.1 < run.2 ∧ run.2 ≤ l.length := by
  induction sparse with
  | nil => intro run mem; cases mem
  | cons _ nonempty inside _ _ _ ih =>
      intro run mem
      rcases List.mem_cons.mp mem with rfl | mem
      · exact ⟨nonempty, inside⟩
      · exact ih run mem

/-- Only the first run is not paid for by zeros before it. -/
theorem SparseFrom.size_le_of_head {position : Nat} {runs : List (Nat × Nat)}
    (sparse : SparseFrom gap l position runs) {cost : Nat} (paid : cost ≤ gap) :
    ∀ next ∈ runs.head?, runsSize cost runs + next.1 ≤ l.length + cost := by
  induction sparse with
  | nil => intro next mem; cases mem
  | @cons position start stop runs _ nonempty inside _ apart rest ih =>
      intro next mem
      cases mem
      rw [runsSize]
      cases runs with
      | nil =>
          rw [runsSize]
          omega
      | cons second runs =>
          have far := apart second rfl
          have fits := ih second rfl
          omega

theorem SparseFrom.size_le {position : Nat} {runs : List (Nat × Nat)}
    (sparse : SparseFrom gap l position runs) {cost : Nat} (paid : cost ≤ gap) :
    runsSize cost runs ≤ l.length + cost := by
  cases runs with
  | nil => exact Nat.zero_le _
  | cons run runs => exact Nat.le_trans (Nat.le_add_right _ _) (sparse.size_le_of_head paid run rfl)

end Phocoena
