import Mathlib.Tactic.Ring

/-! # Programs over an interface of operations

A code generator is a program that asks its environment to perform operations (allocate a
register, emit an instruction) and continues with the answers. The same program is run
in two ways: `compile` threads a compile-time state and collects the emitted code, and `wp`
folds an abstract specification of each operation over it. `wp_sound` says that reasoning
with the second is reasoning about executions of the first.
-/

namespace Phocoena

/-- A program that returns an `α` and performs operations `o : Op` answered by `Ret o`. -/
inductive Program (Op : Type) (Ret : Op → Type) (α : Type) where
  | pure (a : α)
  | op (o : Op) (k : Ret o → Program Op Ret α)

namespace Program

variable {Op : Type} {Ret : Op → Type} {α β : Type}

def bind : Program Op Ret α → (α → Program Op Ret β) → Program Op Ret β
  | .pure a, f => f a
  | .op o k, f => .op o fun r => (k r).bind f

instance : Monad (Program Op Ret) where
  pure := .pure
  bind := .bind

/-- The program that performs one operation and returns its answer. -/
def perform (o : Op) : Program Op Ret (Ret o) := .op o .pure

/-! ## Compiling a program -/

section
variable {κ ι : Type}

/-- One operation at compile time: its answer, the next compile-time state and the code it
emits. -/
abbrev Handler (Op : Type) (Ret : Op → Type) (κ ι : Type) : Type :=
  (o : Op) → κ → Ret o × κ × List ι

def compile (h : Handler Op Ret κ ι) : Program Op Ret α → κ → α × κ × List ι
  | .pure a, s => (a, s, [])
  | .op o k, s =>
      let (r, s', code) := h o s
      let (a, s'', rest) := (k r).compile h s'
      (a, s'', code ++ rest)

end

/-! ## Weakest preconditions -/

section
variable {σ : Type}

/-- What one operation promises on abstract states, as a predicate transformer. -/
abbrev OpSpec (Op : Type) (Ret : Op → Type) (σ : Type) : Type :=
  (o : Op) → (Ret o → σ → Prop) → σ → Prop

def wp (spec : OpSpec Op Ret σ) : Program Op Ret α → (α → σ → Prop) → σ → Prop
  | .pure a, Q, s => Q a s
  | .op o k, Q, s => spec o (fun r s' => (k r).wp spec Q s') s

variable {spec : OpSpec Op Ret σ} {Q : α → σ → Prop} {s : σ}

@[simp] theorem wp_pure (a : α) : (Pure.pure a : Program Op Ret α).wp spec Q s ↔ Q a s := Iff.rfl

@[simp] theorem wp_perform (o : Op) {Q : Ret o → σ → Prop} :
    (perform o : Program Op Ret (Ret o)).wp spec Q s ↔ spec o Q s := Iff.rfl

@[simp] theorem wp_bind (p : Program Op Ret α) (f : α → Program Op Ret β)
    {Q : β → σ → Prop} :
    (p >>= f).wp spec Q s ↔ p.wp spec (fun a s' => (f a).wp spec Q s') s := by
  suffices same : (p >>= f).wp spec Q = p.wp spec (fun a s' => (f a).wp spec Q s') by rw [same]
  induction p with
  | pure a => rfl
  | op o k ih =>
      funext s
      have step : (fun r s' => ((k r).bind f).wp spec Q s') =
          fun r s' => (k r).wp spec (fun a s'' => (f a).wp spec Q s'') s' := by
        funext r s'
        exact congrFun (ih r) s'
      exact congrArg (fun K => spec o K s) step

@[simp] theorem wp_map (f : α → β) (p : Program Op Ret α) {Q : β → σ → Prop} :
    (f <$> p).wp spec Q s ↔ p.wp spec (fun a s' => Q (f a) s') s :=
  wp_bind p (fun a => Pure.pure (f a))

@[simp] theorem wp_ite {c : Prop} [Decidable c] (p q : Program Op Ret α) :
    (if c then p else q).wp spec Q s ↔ if c then p.wp spec Q s else q.wp spec Q s := by
  split <;> rfl

theorem wp_cases {c : Prop} [Decidable c] {p q : Program Op Ret α} {Q : α → σ → Prop}
    (pos : c → p.wp spec Q s) (neg : ¬ c → q.wp spec Q s) : (if c then p else q).wp spec Q s := by
  rw [wp_ite]
  split
  · next h => exact pos h
  · next h => exact neg h

end

/-! ## Reasoning about the compiled code -/

section
variable {κ ι μ σ : Type} (h : Handler Op Ret κ ι) (step : ι → μ → μ)

def execute (code : List ι) (m : μ) : μ := code.foldl (fun m i => step i m) m

@[simp] theorem execute_nil (m : μ) : execute step [] m = m := rfl

@[simp] theorem execute_cons (i : ι) (code : List ι) (m : μ) :
    execute step (i :: code) m = execute step code (step i m) := rfl

theorem execute_append (c₁ c₂ : List ι) (m : μ) :
    execute step (c₁ ++ c₂) m = execute step c₂ (execute step c₁ m) := by
  simp only [execute, List.foldl_append]

/-- Every operation, compiled and executed from related states, does what its specification
says, and the code it emits is `Good`. -/
def Implements (Good : ι → Prop) (spec : OpSpec Op Ret σ) (Rel : κ → μ → σ → Prop) : Prop :=
  ∀ (o : Op) (Q : Ret o → σ → Prop) (k : κ) (m : μ) (s : σ), Rel k m s → spec o Q s →
    (∀ i ∈ (h o k).2.2, Good i) ∧
      ∃ s', Rel (h o k).2.1 (execute step (h o k).2.2 m) s' ∧ Q (h o k).1 s'

variable {h step}

/-- A weakest precondition that holds before a program holds of its compiled code. -/
theorem wp_sound {Good : ι → Prop} {spec : OpSpec Op Ret σ} {Rel : κ → μ → σ → Prop}
    (sound : Implements h step Good spec Rel) (p : Program Op Ret α) :
    ∀ (Q : α → σ → Prop) (k : κ) (m : μ) (s : σ), Rel k m s → p.wp spec Q s →
      (∀ i ∈ (p.compile h k).2.2, Good i) ∧
        ∃ s', Rel (p.compile h k).2.1 (execute step (p.compile h k).2.2 m) s' ∧
          Q (p.compile h k).1 s' := by
  induction p with
  | pure a =>
      intro Q k m s rel post
      refine ⟨?_, s, rel, post⟩
      intro i member
      cases member
  | op o cont ih =>
      intro Q k m s rel pre
      obtain ⟨good₁, s₁, rel₁, pre₁⟩ := sound o _ k m s rel pre
      obtain ⟨good₂, s₂, rel₂, post⟩ := ih _ Q _ _ s₁ rel₁ pre₁
      refine ⟨?_, s₂, ?_, post⟩
      · intro i member
        rcases List.mem_append.mp member with first | rest
        · exact good₁ i first
        · exact good₂ i rest
      · simpa only [compile, execute_append] using rel₂

end

end Program

end Phocoena
