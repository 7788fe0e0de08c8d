import Mathlib.Logic.Function.Basic
import Mathlib.Data.List.Induction

/-! # A memory behind a write-back cache

At every place two values count: the one that a reader sees and the one that is stored in the
memory behind. Writing changes what is seen; what is stored may follow at any time, or later,
or when it is asked to. Dropping forgets what was seen and not yet stored.
-/

namespace Phocoena.WriteBack

structure Memory (π β : Type) where
  visible : π → β
  stored : π → β

inductive Action (π β : Type) where
  | put (writes : List (π × β))
  | sync (at_ : π → Prop)
  | drop (at_ : π → Prop)

section
variable {π β : Type} [DecidableEq π]

def overwrite (f : π → β) (writes : List (π × β)) : π → β :=
  writes.foldl (fun f w => Function.update f w.1 w.2) f

inductive Step : Action π β → Memory π β → Memory π β → Prop where
  | put {s s' : Memory π β} {writes : List (π × β)}
      (seen : s'.visible = overwrite s.visible writes)
      (behind : ∀ p, s'.stored p = s.stored p ∨ s'.stored p = s.visible p ∨
        (p, s'.stored p) ∈ writes) : Step (.put writes) s s'
  | sync {s s' : Memory π β} {at_ : π → Prop} (seen : s'.visible = s.visible)
      (here : ∀ p, at_ p → s'.stored p = s.visible p)
      (there : ∀ p, ¬ at_ p → s'.stored p = s.stored p) : Step (.sync at_) s s'
  | drop {s s' : Memory π β} {at_ : π → Prop} (behind : s'.stored = s.stored)
      (here : ∀ p, at_ p → s'.visible p = s.stored p)
      (there : ∀ p, ¬ at_ p → s'.visible p = s.visible p) : Step (.drop at_) s s'

inductive Run : List (Action π β) → Memory π β → Memory π β → Prop where
  | nil (s : Memory π β) : Run [] s s
  | cons {a : Action π β} {as : List (Action π β)} {s s₁ s' : Memory π β}
      (first : Step a s s₁) (rest : Run as s₁ s') : Run (a :: as) s s'

/-- What an action writes. -/
def Action.writes : Action π β → List (π × β)
  | .put ws => ws
  | .sync _ => []
  | .drop _ => []

def Action.Keeps : Action π β → Prop
  | .put _ => True
  | .sync _ => True
  | .drop _ => False

theorem overwrite_append (f : π → β) (ws vs : List (π × β)) :
    overwrite f (ws ++ vs) = overwrite (overwrite f ws) vs := List.foldl_append

theorem overwrite_cases (f : π → β) (ws : List (π × β)) (p : π) :
    overwrite f ws p = f p ∨ (p, overwrite f ws p) ∈ ws := by
  induction ws using List.reverseRecOn with
  | nil => exact .inl rfl
  | append_singleton ws w ih =>
      obtain ⟨q, b⟩ := w
      have last : overwrite f (ws ++ [(q, b)]) = Function.update (overwrite f ws) q b := by
        simp [overwrite]
      by_cases same : p = q
      · subst same
        right
        simp [last]
      · rw [last, Function.update_of_ne same]
        cases ih with
        | inl kept => exact .inl kept
        | inr written => exact .inr (List.mem_append_left _ written)

/-- As long as nothing is dropped, a reader sees what was written last. -/
theorem Run.visible {as : List (Action π β)} {s s' : Memory π β} (run : Run as s s')
    (keeps : ∀ a ∈ as, a.Keeps) :
    s'.visible = overwrite s.visible (as.flatMap Action.writes) := by
  induction run with
  | nil s => rfl
  | cons first rest ih =>
      have later := ih fun a member => keeps a (List.mem_cons_of_mem _ member)
      rw [later, List.flatMap_cons, overwrite_append]
      cases first with
      | put seen _ => rw [seen, Action.writes]
      | sync seen _ _ =>
          rw [seen]
          rfl
      | drop _ _ _ => exact (keeps _ List.mem_cons_self).elim

end

end Phocoena.WriteBack
