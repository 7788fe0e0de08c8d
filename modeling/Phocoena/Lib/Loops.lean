import Phocoena.Lib.Runs
import Mathlib.Logic.Function.Iterate

/-! # While loops

A loop over a state, with a bound on its rounds, and the rule that compares two loops with
the same condition where a round of one is several rounds of the other.
-/

namespace Phocoena

section
variable {σ : Type} (cond : σ → Bool) (body : σ → σ)

/-- `while (cond) body`, given up after `fuel` rounds. -/
def whileLoop : Nat → σ → Option σ
  | 0, s => if cond s then none else some s
  | fuel + 1, s => if cond s then whileLoop fuel (body s) else some s

/-- A round of the loop as a step of a system, to speak of the states at its head. -/
def whileStep (_ : Unit) (s : σ) : Option σ := if cond s then some (body s) else none

/-- `s` is the state at the loop's head after some of its rounds from `s₀`. -/
abbrev AtHead (s₀ s : σ) : Prop := Reaches (whileStep cond body) (fun _ _ => True) s₀ s

variable {cond body}

theorem whileLoop_of_not {s : σ} (done : cond s = false) (fuel : Nat) :
    whileLoop cond body fuel s = some s := by
  cases fuel <;> simp [whileLoop, done]

theorem whileLoop_succ {s : σ} (running : cond s = true) (fuel : Nat) :
    whileLoop cond body (fuel + 1) s = whileLoop cond body fuel (body s) := by
  simp [whileLoop, running]

/-- Rounds that all enter the body can be taken together. -/
theorem whileLoop_iterate {k : Nat} {s : σ} (running : ∀ i < k, cond (body^[i] s) = true)
    (fuel : Nat) : whileLoop cond body (fuel + k) s = whileLoop cond body fuel (body^[k] s) := by
  induction k generalizing s with
  | zero => rfl
  | succ k ih =>
      have first : cond s = true := running 0 (by omega)
      rw [← Nat.add_assoc, whileLoop_succ first, Function.iterate_succ_apply]
      apply ih
      intro i lt
      rw [← Function.iterate_succ_apply]
      exact running (i + 1) (by omega)

theorem AtHead.invariant {s₀ s : σ} (run : AtHead cond body s₀ s) {I : σ → Prop} (start : I s₀)
    (preserved : ∀ s, I s → cond s = true → I (body s)) : I s := by
  refine Reaches.invariant run start fun _ s s' holds _ next => ?_
  unfold whileStep at next
  split at next
  · rename_i running
    cases next
    exact preserved s holds running
  · cases next

/-- Two loops with one condition, where a round of the first is one or more rounds of the
second: both end, after at most as many rounds as the measure says, in the same state. -/
theorem whileLoop_refines {coarse fine : σ → σ} {I : σ → Prop} {measure : σ → Nat}
    (round : ∀ s, I s → cond s = true → I (coarse s) ∧ ∃ k, 1 ≤ k ∧ measure (coarse s) + k ≤
      measure s ∧ coarse s = fine^[k] s ∧ ∀ i < k, cond (fine^[i] s) = true)
    {s : σ} (start : I s) :
    ∃ r, I r ∧ cond r = false ∧ ∀ fuel, measure s ≤ fuel →
      whileLoop cond coarse fuel s = some r ∧ whileLoop cond fine fuel s = some r := by
  induction bound : measure s using Nat.strongRecOn generalizing s with
  | ind n ih =>
      cases running : cond s with
      | false =>
          exact ⟨s, start, running, fun fuel _ =>
            ⟨whileLoop_of_not running fuel, whileLoop_of_not running fuel⟩⟩
      | true =>
          obtain ⟨next, k, pos, less, eq, inside⟩ := round s start running
          obtain ⟨r, holds, ended, ends⟩ := ih (measure (coarse s)) (by omega) next rfl
          refine ⟨r, holds, ended, fun fuel le => ⟨?_, ?_⟩⟩
          · obtain ⟨fuel, rfl⟩ : ∃ f, fuel = f + 1 := ⟨fuel - 1, by omega⟩
            rw [whileLoop_succ running]
            exact (ends fuel (by omega)).1
          · obtain ⟨rest, rfl⟩ : ∃ f, fuel = f + k := ⟨fuel - k, by omega⟩
            rw [whileLoop_iterate inside, ← eq]
            exact (ends rest (by omega)).2

end

end Phocoena
