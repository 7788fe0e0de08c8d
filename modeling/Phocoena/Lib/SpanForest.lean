import Mathlib.Data.List.Range

/-! # Forests stored as spans

The nodes of a forest in preorder, of which the inner ones say where their contents end. Nothing
else is needed to read the forest back, and the innermost span around a node is its parent.
-/

namespace Phocoena

inductive SpanForest where
  | nil
  | leaf (i : Nat) (others : SpanForest)
  | node (i : Nat) (contents others : SpanForest)

namespace SpanForest

def preorder : SpanForest → List Nat
  | nil => []
  | leaf i others => i :: others.preorder
  | node i contents others => i :: (contents.preorder ++ others.preorder)

def roots : SpanForest → List Nat
  | nil => []
  | leaf i others => i :: others.roots
  | node i _ others => i :: others.roots

/-- The leaves, from the first to the last. -/
def leaves : SpanForest → List Nat
  | nil => []
  | leaf i others => i :: others.leaves
  | node _ contents others => contents.leaves ++ others.leaves

end SpanForest

/-- A sequence of nodes. The inner ones name their parent and the position behind their contents. -/
structure SpanTable where
  inner : Nat → Prop
  finish : Nat → Nat
  parent : Nat → Nat
  acceptable : Nat → Prop

namespace SpanTable

variable {S : SpanTable} {d e stop i j : Nat} {f g : SpanForest}

/-- The positions from `i` up to `stop` hold the forest, whose roots are in `d`. -/
inductive Holds (S : SpanTable) : (d stop i : Nat) → SpanForest → Prop where
  | nil {d stop : Nat} : Holds S d stop stop .nil
  | leaf {d stop i : Nat} {others : SpanForest} : S.acceptable i → ¬ S.inner i →
      Holds S d stop (i + 1) others → Holds S d stop i (.leaf i others)
  | node {d stop i : Nat} {contents others : SpanForest} : S.acceptable i → S.inner i →
      S.parent i = d → i < S.finish i → S.finish i ≤ stop →
      Holds S i (S.finish i) (i + 1) contents → Holds S d stop (S.finish i) others →
      Holds S d stop i (.node i contents others)

theorem Holds.le (held : S.Holds d stop i f) : i ≤ stop := by
  induction held with
  | nil => exact le_rfl
  | leaf _ _ _ after => exact Nat.le_of_succ_le after
  | node _ _ _ starts _ _ _ _ after => exact starts.le.trans after

theorem Holds.preorder (held : S.Holds d stop i f) : f.preorder = List.range' i (stop - i) := by
  induction held with
  | nil => simp [SpanForest.preorder]
  | @leaf d stop i others _ _ rest after =>
      have := rest.le
      rw [SpanForest.preorder, after, show stop - i = stop - (i + 1) + 1 by omega,
        List.range'_succ]
  | @node d stop i contents others _ _ _ starts ends inside rest below after =>
      have lengths : stop - i = (S.finish i - (i + 1) + (stop - S.finish i)) + 1 := by omega
      have joined := @List.range'_append_1 (i + 1) (S.finish i - (i + 1)) (stop - S.finish i)
      rw [show i + 1 + (S.finish i - (i + 1)) = S.finish i by omega] at joined
      rw [SpanForest.preorder, below, after, lengths, List.range'_succ, joined]

/-- What the positions in a forest say. -/
theorem Holds.inside (held : S.Holds d stop i f) (after : i ≤ j) (before : j < stop) :
    S.acceptable j ∧ (S.inner j → j < S.finish j ∧ S.finish j ≤ stop ∧
      ∃ contents, S.Holds j (S.finish j) (j + 1) contents) := by
  induction held with
  | nil => omega
  | @leaf d stop i others ok outer rest ih =>
      by_cases here : j = i
      · exact here ▸ ⟨ok, fun inner => absurd inner outer⟩
      · exact ih (by omega) before
  | @node d stop i contents others ok inner _ starts ends inside rest below ih =>
      by_cases here : j = i
      · exact here ▸ ⟨ok, fun _ => ⟨starts, ends, contents, inside⟩⟩
      · by_cases within : j < S.finish i
        · have ⟨okay, spans⟩ := below (by omega) within
          refine ⟨okay, fun inner => ?_⟩
          have ⟨first, last, held⟩ := spans inner
          exact ⟨first, last.trans ends, held⟩
        · exact ih (by omega) before

theorem Holds.parent (held : S.Holds d stop i f) (root : j ∈ f.roots) (inner : S.inner j) :
    S.parent j = d := by
  induction held with
  | nil => simp [SpanForest.roots] at root
  | leaf _ outer _ ih =>
      obtain rfl | later := List.mem_cons.mp root
      · exact absurd inner outer
      · exact ih later
  | node _ _ within _ _ _ _ _ ih =>
      obtain rfl | later := List.mem_cons.mp root
      · exact within
      · exact ih later

theorem Holds.leaves_eq (held : S.Holds d stop i f) [DecidablePred S.inner] :
    f.leaves = (List.range' i (stop - i)).filter fun j => ¬ S.inner j := by
  rw [← held.preorder]
  induction held with
  | nil => rfl
  | leaf _ outer _ ih => simp [SpanForest.leaves, SpanForest.preorder, outer, ih]
  | node _ inner _ _ _ _ _ below after =>
      simp [SpanForest.leaves, SpanForest.preorder, inner, below, after]

/-- The innermost span around a position. -/
structure Encloses (S : SpanTable) (d j : Nat) : Prop where
  inner : S.inner d
  before : d < j
  within : j < S.finish d
  innermost : ∀ k, d < k → k < j → S.inner k → S.finish k ≤ j

theorem Encloses.unique (encloses : S.Encloses d j) (other : S.Encloses e j) : d = e := by
  rcases Nat.lt_trichotomy d e with less | same | more
  · exact absurd (encloses.innermost e less other.before other.inner) (by have := other.within; omega)
  · exact same
  · exact absurd (other.innermost d more encloses.before encloses.inner)
      (by have := encloses.within; omega)

theorem Holds.mem_roots (held : S.Holds d stop i f) :
    j ∈ f.roots ↔ i ≤ j ∧ j < stop ∧ ∀ k, i ≤ k → k < j → S.inner k → S.finish k ≤ j := by
  induction held with
  | nil => simp only [SpanForest.roots, List.not_mem_nil, false_iff]; omega
  | @leaf d stop i others ok outer rest ih =>
      have := rest.le
      simp only [SpanForest.roots, List.mem_cons, ih]
      constructor
      · rintro (rfl | ⟨after, before, spans⟩)
        · exact ⟨le_rfl, by omega, fun k _ _ => by omega⟩
        · refine ⟨by omega, before, fun k first last inner => ?_⟩
          by_cases here : k = i
          · exact absurd (here ▸ inner) outer
          · exact spans k (by omega) last inner
      · rintro ⟨after, before, spans⟩
        by_cases here : j = i
        · exact .inl here
        · exact .inr ⟨by omega, before, fun k first => spans k (by omega)⟩
  | @node d stop i contents others ok inner _ starts ends inside rest below ih =>
      have := rest.le
      simp only [SpanForest.roots, List.mem_cons, ih]
      constructor
      · rintro (rfl | ⟨after, before, spans⟩)
        · exact ⟨le_rfl, by omega, fun k _ _ => by omega⟩
        · refine ⟨by omega, before, fun k first last innerk => ?_⟩
          by_cases here : k = i
          · exact here ▸ after
          · by_cases within : k < S.finish i
            · have ⟨_, fits, _⟩ := (inside.inside (by omega) within).2 innerk
              omega
            · exact spans k (by omega) last innerk
      · rintro ⟨after, before, spans⟩
        by_cases here : j = i
        · exact .inl here
        · have := spans i le_rfl (by omega) inner
          exact .inr ⟨this, before, fun k first => spans k (by omega)⟩

theorem Holds.roots_enclosed (held : S.Holds d (S.finish d) (d + 1) f) (inner : S.inner d) :
    j ∈ f.roots ↔ S.Encloses d j := by
  rw [held.mem_roots]
  exact ⟨fun ⟨after, before, spans⟩ => ⟨inner, after, before, spans⟩,
    fun ⟨_, after, before, spans⟩ => ⟨after, before, spans⟩⟩

/-- Every position but the one of the root is among the contents of one inner node. -/
theorem Holds.enclosed (held : S.Holds d (S.finish d) (d + 1) f) (inner : S.inner d)
    (after : d < j) (before : j < S.finish d) : ∃ e, d ≤ e ∧ S.Encloses e j := by
  induction gap : j - d using Nat.strong_induction_on generalizing d f with
  | _ _ ih =>
      by_cases own : S.Encloses d j
      · exact ⟨d, le_rfl, own⟩
      · have ⟨k, first, last, innerk, spans⟩ :
            ∃ k, d < k ∧ k < j ∧ S.inner k ∧ j < S.finish k := by
          by_contra none
          push Not at none
          exact own ⟨inner, after, before, fun k first last innerk => none k first last innerk⟩
        have ⟨_, _, contents, inside⟩ := (held.inside (by omega) (by omega)).2 innerk
        have ⟨e, above, encloses⟩ := ih (j - k) (by omega) inside innerk last spans rfl
        exact ⟨e, by omega, encloses⟩

end SpanTable

end Phocoena
