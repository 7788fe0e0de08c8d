/-! # Computations that can fail -/

namespace Phocoena

variable {ε α β : Type} {x : Except ε α} {f : α → Except ε β} {b : β}

/-- A sequence of two computations succeeds when both do. -/
theorem bind_eq_ok : x >>= f = .ok b ↔ ∃ a, x = .ok a ∧ f a = .ok b := by
  cases x with
  | error e =>
      constructor
      · intro h
        cases h
      · rintro ⟨a, h, -⟩
        cases h
  | ok a =>
      constructor
      · exact fun h => ⟨a, rfl, h⟩
      · rintro ⟨a', h, done⟩
        cases h
        exact done

/-! ## Computations that can stop early

`none` is an ordinary result without a value, an error is a fault. -/

/-- No fault, and a value that meets `post` if there is one. -/
def Returns (x : OptionT (Except ε) α) (post : α → Prop) : Prop :=
  ∃ r, x.run = .ok r ∧ ∀ a, r = some a → post a

/-- The value of a read, if there is one. -/
def OptionT.ofRead (r : Option α) : OptionT (Except ε) α := OptionT.mk (.ok r)

section
variable {y : OptionT (Except ε) α} {g : α → OptionT (Except ε) β} {P P' : α → Prop} {Q : β → Prop}

theorem Returns.pure {a : α} (holds : P a) : Returns (Pure.pure a : OptionT (Except ε) α) P :=
  ⟨some a, rfl, fun _ same => Option.some_inj.mp same ▸ holds⟩

theorem Returns.ofRead {r : Option α} :
    Returns (OptionT.ofRead r : OptionT (Except ε) α) fun a => r = some a :=
  ⟨r, rfl, fun _ same => same⟩

theorem Returns.bind (first : Returns y P) (rest : ∀ a, P a → Returns (g a) Q) :
    Returns (y >>= g) Q := by
  obtain ⟨r, run, holds⟩ := first
  cases r with
  | none =>
      refine ⟨none, ?_, fun _ same => by cases same⟩
      rw [OptionT.run_bind, run]
      rfl
  | some a =>
      obtain ⟨r', run', holds'⟩ := rest a (holds a rfl)
      refine ⟨r', ?_, holds'⟩
      rw [OptionT.run_bind, run]
      exact run'

theorem Returns.mono (returns : Returns y P) (weaker : ∀ a, P a → P' a) : Returns y P' := by
  obtain ⟨r, run, holds⟩ := returns
  exact ⟨r, run, fun a same => weaker a (holds a same)⟩

end

end Phocoena

/-! ## Loops that can fault -/

namespace Phocoena

section
variable {α σ : Type} {f : σ → α → Option σ} {I : List α → σ → Prop}

/-- A loop ends without a fault if each of its rounds does. `I` says what holds while there are
rounds left. -/
theorem foldlM_succeeds (step : ∀ a l s, I (a :: l) s → ∃ s', f s a = some s' ∧ I l s') {l : List α}
    {s : σ} (start : I l s) : ∃ s', l.foldlM f s = some s' ∧ I [] s' := by
  induction l generalizing s with
  | nil => exact ⟨s, rfl, start⟩
  | cons a l ih =>
      obtain ⟨s₁, first, left⟩ := step a l s start
      obtain ⟨s', rest, done⟩ := ih left
      exact ⟨s', by simp [first, rest], done⟩

end

end Phocoena
