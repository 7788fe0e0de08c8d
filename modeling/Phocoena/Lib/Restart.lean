import Mathlib.Data.List.Basic
import Mathlib.Data.List.Forall2
import Mathlib.Data.Set.Basic

/-! # Until

`Until p q l`: some element of `l` satisfies `q`, and all elements before it satisfy `p`.
-/

namespace Phocoena

variable {α : Type}

def Until (p q : α → Prop) (l : List α) : Prop :=
  ∃ before x after, l = before ++ x :: after ∧ q x ∧ ∀ y ∈ before, p y

variable {p q : α → Prop}

theorem until_cons {x : α} {l : List α} : Until p q (x :: l) ↔ q x ∨ p x ∧ Until p q l := by
  constructor
  · rintro ⟨before, y, after, eq, goal, hold⟩
    cases before with
    | nil =>
        cases eq
        exact .inl goal
    | cons z before =>
        cases eq
        exact .inr ⟨hold x List.mem_cons_self, before, y, after, rfl, goal,
          fun w mem => hold w (List.mem_cons_of_mem x mem)⟩
  · rintro (goal | ⟨hold, before, y, after, rfl, goal, rest⟩)
    · exact ⟨[], x, l, rfl, goal, fun _ mem => absurd mem List.not_mem_nil⟩
    · refine ⟨x :: before, y, after, rfl, goal, ?_⟩
      intro w mem
      rcases List.mem_cons.mp mem with rfl | mem
      · exact hold
      · exact rest w mem

end Phocoena

/-! ## Restarting a straight run

A state is seen through cells, and each step of a run reads some cells and writes some. If the run
writes no cell that it reads before writing it, then the run from its own final state reads what
it read the first time, and ends where it ended the first time.
-/

namespace Phocoena.Restart

variable {σ ι : Type*}

/-- Runs the steps one after the other. -/
def runAll : List (σ → Option σ) → σ → Option σ
  | [], s => some s
  | f :: fs, s => (f s).bind (runAll fs)

/-- A cell that some step reads while no earlier step has written it. -/
def Exposed (c : ι) : List (Set ι × Set ι) → Prop
  | [] => False
  | (reads, writes) :: later => c ∈ reads ∨ c ∉ writes ∧ Exposed c later

/-- A cell that some step writes. -/
def Written (c : ι) (steps : List (Set ι × Set ι)) : Prop := ∃ step ∈ steps, c ∈ step.2

theorem written_cons {c : ι} {step : Set ι × Set ι} {steps : List (Set ι × Set ι)} :
    Written c (step :: steps) ↔ c ∈ step.2 ∨ Written c steps := by
  simp [Written]

/-- Reading less and writing more exposes fewer cells. -/
theorem Exposed.mono {c : ι} {steps steps' : List (Set ι × Set ι)}
    (sub : List.Forall₂ (fun x y => x.1 ⊆ y.1 ∧ y.2 ⊆ x.2) steps steps')
    (exposed : Exposed c steps) : Exposed c steps' := by
  induction sub with
  | nil => exact exposed
  | cons head _ ih =>
      rcases exposed with read | ⟨unwritten, later⟩
      · exact .inl (head.1 read)
      · exact .inr ⟨fun mem => unwritten (head.2 mem), ih later⟩

/-- Two states that agree in a cell, and in whatever else the steps look at. -/
structure View (σ ι : Type*) where
  same : ι → σ → σ → Prop
  link : σ → σ → Prop
  symm : ∀ {c s t}, same c s t → same c t s
  trans : ∀ {c s t u}, same c s t → same c t u → same c s u

variable (view : View σ ι)

/-- A step from `s` to `s'` that reads and writes the given cells: from a state that agrees in
what it reads, it does the same. -/
structure Transfers (f : σ → Option σ) (reads writes : Set ι) (s s' : σ) : Prop where
  run : f s = some s'
  frame : ∀ c, c ∉ writes → view.same c s s'
  again : ∀ t, view.link s t → (∀ c ∈ reads, view.same c s t) → ∃ t', f t = some t' ∧
    view.link s' t' ∧ (∀ c ∈ writes, view.same c s' t') ∧ ∀ c, c ∉ writes → view.same c t t'

/-- A run, with what each of its steps reads and writes. -/
inductive Trace : List (σ → Option σ) → List (Set ι × Set ι) → σ → σ → Prop
  | nil (s : σ) : Trace [] [] s s
  | cons {f : σ → Option σ} {fs : List (σ → Option σ)} {reads writes : Set ι}
      {steps : List (Set ι × Set ι)} {s s' s'' : σ} :
      Transfers view f reads writes s s' → Trace fs steps s' s'' →
      Trace (f :: fs) ((reads, writes) :: steps) s s''

variable {view} {fs : List (σ → Option σ)} {steps : List (Set ι × Set ι)} {s s' : σ}

theorem Trace.frame (trace : Trace view fs steps s s') (refl : ∀ c s, view.same c s s) (c : ι)
    (unwritten : ¬ Written c steps) : view.same c s s' := by
  induction trace with
  | nil s => exact refl c s
  | cons step _ ih =>
      rw [written_cons, not_or] at unwritten
      exact view.trans (step.frame c unwritten.1) (ih unwritten.2)

/-- From a state that agrees in the exposed cells the run ends in one that agrees in the cells
written too. -/
theorem Trace.again (trace : Trace view fs steps s s') :
    ∀ t, view.link s t → (∀ c, Exposed c steps → view.same c s t) →
      ∃ t', runAll fs t = some t' ∧ view.link s' t' ∧
        ∀ c, view.same c s t ∨ Written c steps → view.same c s' t' := by
  induction trace with
  | nil s =>
      intro t link _
      refine ⟨t, rfl, link, ?_⟩
      rintro c (same | ⟨_, mem, -⟩)
      · exact same
      · cases mem
  | @cons f fs reads writes steps s s' s'' step _ ih =>
      intro t link exposed
      obtain ⟨t', run, link', written, kept⟩ :=
        step.again t link fun c mem => exposed c (.inl mem)
      have agree : ∀ c, view.same c s t ∨ c ∈ writes → view.same c s' t' := by
        intro c known
        by_cases mem : c ∈ writes
        · exact written c mem
        · have before := known.resolve_right mem
          exact view.trans (view.symm (step.frame c mem)) (view.trans before (kept c mem))
      obtain ⟨t'', run', link'', same⟩ := ih t' link' fun c later => by
        by_cases mem : c ∈ writes
        · exact agree c (.inr mem)
        · exact agree c (.inl (exposed c (.inr ⟨mem, later⟩)))
      refine ⟨t'', by rw [runAll, run, Option.bind_some, run'], link'', ?_⟩
      intro c known
      apply same
      rw [written_cons] at known
      rcases known with before | now | later
      · exact .inl (agree c (.inl before))
      · exact .inl (agree c (.inr now))
      · exact .inr later

/-- A run that writes no exposed cell, started again where it ended. -/
theorem Trace.restart (trace : Trace view fs steps s s') (refl : ∀ c s, view.same c s s)
    (link : view.link s s') (settled : ∀ c, Exposed c steps → ¬ Written c steps) :
    ∃ t', runAll fs s' = some t' ∧ view.link s' t' ∧ ∀ c, view.same c s' t' := by
  obtain ⟨t', run, link', same⟩ :=
    trace.again s' link fun c exposed => trace.frame refl c (settled c exposed)
  refine ⟨t', run, link', fun c => same c ?_⟩
  by_cases written : Written c steps
  · exact .inr written
  · exact .inl (trace.frame refl c written)

end Phocoena.Restart
