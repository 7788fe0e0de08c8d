import Mathlib.Logic.Function.Basic

/-! # Mirrors with marks

A mirror holds values that are computed from something else. Instead of computing all of them
again, the entries that may have changed are marked, and refreshing the mirror computes the
marked ones. That gives what computing everything gives as long as every entry that does not
hold its value is marked.

Marks are often kept as one span of rows, the hull of what was written since the last refresh.
-/

namespace Phocoena

section Mirror
variable {ε : Type} {ν : ε → Type} {marked marked' : ε → Prop}
  {mirror mirror' value value' : ∀ e, ν e}

/-- Every entry holds its value, or is marked. -/
def Mirrors (marked : ε → Prop) (mirror value : ∀ e, ν e) : Prop :=
  ∀ e, marked e ∨ mirror e = value e

theorem Mirrors.of_eq (h : mirror = value) : Mirrors marked mirror value :=
  fun e => .inr (congrFun h e)

/-- The values change where the marks are afterwards. -/
theorem Mirrors.write (h : Mirrors marked mirror value) (kept : ∀ e, marked e → marked' e)
    (noted : ∀ e, marked' e ∨ value' e = value e) : Mirrors marked' mirror value' := by
  intro e
  rcases h e with old | fresh
  · exact .inl (kept e old)
  · rcases noted e with new | same
    · exact .inl new
    · exact .inr (fresh.trans same.symm)

theorem Mirrors.refresh (h : Mirrors marked mirror value)
    (copied : ∀ e, marked e → mirror' e = value e) (kept : ∀ e, ¬ marked e → mirror' e = mirror e) :
    mirror' = value := by
  funext e
  by_cases m : marked e
  · exact copied e m
  · exact (kept e m).trans ((h e).resolve_left m)

end Mirror

/-! ## Spans -/

/-- The words `min`, …, `max - 1`. -/
structure Span where
  min : Nat
  max : Nat
deriving DecidableEq, Repr

namespace Span

/-- The rows of `width` words that the span has words of. -/
def first (width : Nat) (s : Span) : Nat := s.min / width

def last (width : Nat) (s : Span) : Nat := (s.max + (width - 1)) / width

/-- The row is one of a pending span. -/
def Marks (width : Nat) (pending : Option Span) (row : Nat) : Prop :=
  ∃ s, pending = some s ∧ s.first width ≤ row ∧ row < s.last width

instance (width : Nat) (pending : Option Span) (row : Nat) : Decidable (Marks width pending row) :=
  match pending with
  | none => .isFalse (by rintro ⟨s, eq, -⟩; cases eq)
  | some s => decidable_of_iff (s.first width ≤ row ∧ row < s.last width)
      ⟨fun h => ⟨s, rfl, h⟩, fun ⟨_, eq, h⟩ => Option.some.inj eq ▸ h⟩

@[simp] theorem marks_none {width row : Nat} : ¬ Marks width none row := by simp [Marks]

@[simp] theorem marks_some {width row : Nat} {s : Span} :
    Marks width (some s) row ↔ s.first width ≤ row ∧ row < s.last width := by simp [Marks]

/-- A pending span lies in an array of `size` words, and is not turned around. -/
def Fits (size : Nat) (pending : Option Span) : Prop :=
  ∀ s, pending = some s → s.min ≤ s.max ∧ s.max ≤ size

@[simp] theorem fits_none {size : Nat} : Fits size none := by simp [Fits]

@[simp] theorem fits_some {size : Nat} {s : Span} :
    Fits size (some s) ↔ s.min ≤ s.max ∧ s.max ≤ size := by simp [Fits]

theorem first_le_last {width : Nat} {s : Span} (h : s.min ≤ s.max) :
    s.first width ≤ s.last width :=
  Nat.div_le_div_right (by omega)

theorem last_le {width : Nat} {s : Span} (rows : Nat) (pos : 0 < width) (h : s.max ≤ rows * width) :
    s.last width ≤ rows := by
  rw [last, Nat.div_le_iff_le_mul_add_pred pos, Nat.mul_comm width]
  omega

/-- A span that reaches at least as far on both sides marks at least as much. -/
theorem Marks.widen {width row : Nat} {s t : Span} (lower : t.min ≤ s.min) (upper : s.max ≤ t.max)
    (h : Marks width (some s) row) : Marks width (some t) row := by
  rw [marks_some] at h ⊢
  have first := Nat.div_le_div_right (c := width) lower
  have last := Nat.div_le_div_right (c := width) (Nat.add_le_add_right upper (width - 1))
  simp only [Span.first, Span.last] at h first last ⊢
  omega

theorem lt_last {width word : Nat} {s : Span} (pos : 0 < width) (upper : word < s.max) :
    word / width < s.last width := by
  rw [last, Nat.lt_iff_add_one_le, Nat.le_div_iff_mul_le pos, Nat.add_mul]
  have := Nat.div_mul_le_self word width
  omega

/-- The rows of the words of a span are marked. -/
theorem marks_of_mem {width word : Nat} {s : Span} (pos : 0 < width) (lower : s.min ≤ word)
    (upper : word < s.max) : Marks width (some s) (word / width) :=
  marks_some.mpr ⟨Nat.div_le_div_right lower, lt_last pos upper⟩

end Span

end Phocoena
