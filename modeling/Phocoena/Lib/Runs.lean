import Mathlib.Logic.Function.Basic

/-! # Runs of a partial step function

A system is a function `step : α → σ → Option σ`: an action is possible in a state when it
leads somewhere. `Reaches` collects the states of all runs whose steps meet a condition on
the action and the state it is taken in, and `Reaches.invariant` is the induction on them.
-/

namespace Phocoena

section
variable {σ α : Type} (step : α → σ → Option σ)

/-- `s` ends a run from `s₀` in which every step meets `ok`. -/
inductive Reaches (ok : α → σ → Prop) (s₀ : σ) : σ → Prop where
  | refl : Reaches ok s₀ s₀
  | tail {s s' : σ} {a : α} (run : Reaches ok s₀ s) (meets : ok a s)
      (next : step a s = some s') : Reaches ok s₀ s'

/-- The state a sequence of actions leads to, when each of them is possible in its turn. -/
def runActions : List α → σ → Option σ
  | [], s => some s
  | a :: as, s => (step a s).bind (runActions as)

/-- No action is possible. -/
def Stuck (s : σ) : Prop := ∀ a, step a s = none

variable {step}

theorem Reaches.invariant {ok : α → σ → Prop} {s₀ s : σ} (run : Reaches step ok s₀ s)
    {I : σ → Prop} (start : I s₀)
    (preserved : ∀ a s s', I s → ok a s → step a s = some s' → I s') : I s := by
  induction run with
  | refl => exact start
  | tail _ meets next ih => exact preserved _ _ _ ih meets next

theorem Reaches.trans {ok : α → σ → Prop} {s₀ s₁ s₂ : σ} (first : Reaches step ok s₀ s₁)
    (second : Reaches step ok s₁ s₂) : Reaches step ok s₀ s₂ := by
  induction second with
  | refl => exact first
  | tail _ meets next ih => exact ih.tail meets next

theorem Reaches.of_runActions {s₀ s : σ} {as : List α} (run : runActions step as s₀ = some s) :
    Reaches step (fun _ _ => True) s₀ s := by
  induction as generalizing s₀ with
  | nil =>
      cases run
      exact .refl
  | cons a as ih =>
      obtain ⟨s₁, first, rest⟩ := Option.bind_eq_some_iff.mp run
      exact (Reaches.refl.tail trivial first).trans (ih rest)

/-- The run of a sequence of actions, each checked before it is taken. -/
theorem Reaches.of_checked {ok : α → σ → Prop} [∀ a s, Decidable (ok a s)] {s₀ s : σ} {as : List α}
    (run : runActions (fun a s => if ok a s then step a s else none) as s₀ = some s) :
    Reaches step ok s₀ s := by
  induction as generalizing s₀ with
  | nil =>
      cases run
      exact .refl
  | cons a as ih =>
      obtain ⟨s₁, first, rest⟩ := Option.bind_eq_some_iff.mp run
      dsimp only at first
      split at first
      · rename_i meets
        exact (Reaches.refl.tail meets first).trans (ih rest)
      · cases first

end

end Phocoena
