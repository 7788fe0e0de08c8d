import Mathlib.Data.List.Sort

/-! # Binary heaps in a list

The entry at position `i` of a list is a child of the entry at `(i - 1) / 2`. The heap
algorithms are known by what they are documented to do: where each entry of the heap ends up is
left to their implementation.
-/

namespace Phocoena

section
variable {α κ : Type}

/-- `R` holds between the parent and the child at every position. -/
def EachParent (R : α → α → Prop) (l : List α) : Prop :=
  ∀ i < l.length, ∀ p ∈ l[(i - 1) / 2]?, ∀ c ∈ l[i]?, R p c

instance (R : α → α → Prop) [∀ p c, Decidable (R p c)] (l : List α) :
    Decidable (EachParent R l) :=
  inferInstanceAs (Decidable (∀ i < l.length, ∀ p ∈ l[(i - 1) / 2]?, ∀ c ∈ l[i]?, R p c))

theorem EachParent.imp {R S : α → α → Prop} {l : List α} (each : EachParent R l)
    (weaker : ∀ p ∈ l, ∀ c ∈ l, R p c → S p c) : EachParent S l := by
  intro i bound p parent c child
  exact weaker p (List.mem_of_getElem? parent) c (List.mem_of_getElem? child)
    (each i bound p parent c child)

theorem EachParent.map_iff {β : Type} {R : β → β → Prop} {f : α → β} {l : List α} :
    EachParent R (l.map f) ↔ EachParent (fun p c => R (f p) (f c)) l := by
  simp only [EachParent, List.length_map, List.getElem?_map, Option.mem_def,
    Option.map_eq_some_iff, forall_exists_index, and_imp, forall_apply_eq_imp_iff₂]

variable [LinearOrder κ] (key : α → κ)

/-- No child precedes its parent. -/
def IsHeap (l : List α) : Prop := EachParent (fun p c => key p ≤ key c) l

instance (l : List α) : Decidable (IsHeap key l) :=
  inferInstanceAs (Decidable (EachParent _ l))

variable {key}

theorem IsHeap.nil : IsHeap key [] := by
  intro i bound
  cases bound

theorem IsHeap.of_pairwise {l : List α} (sorted : l.Pairwise (fun a b => key a ≤ key b)) :
    IsHeap key l := by
  intro i bound p parent c child
  obtain ⟨parentBound, rfl⟩ := List.getElem?_eq_some_iff.mp parent
  obtain ⟨childBound, rfl⟩ := List.getElem?_eq_some_iff.mp child
  obtain root | inner := Nat.eq_zero_or_pos i
  · subst root
    exact le_refl _
  · exact List.pairwise_iff_getElem.mp sorted _ _ parentBound childBound (by omega)

/-- The entry in front is a least one. -/
theorem IsHeap.front_le {x : α} {l : List α} (heap : IsHeap key (x :: l)) {y : α}
    (member : y ∈ x :: l) : key x ≤ key y := by
  obtain ⟨i, bound, rfl⟩ := List.mem_iff_getElem.mp member
  -- up the path from the entry to the root
  induction i using Nat.strongRecOn with
  | ind i ih =>
    obtain root | inner := Nat.eq_zero_or_pos i
    · subst root
      exact le_refl _
    · have parentBound : (i - 1) / 2 < (x :: l).length := by omega
      have parent : key x ≤ key (x :: l)[(i - 1) / 2] :=
        ih _ (by omega) parentBound (List.getElem_mem parentBound)
      exact parent.trans (heap i bound _ (List.getElem?_eq_getElem parentBound) _
        (List.getElem?_eq_getElem bound))

variable (key)

/-- The heap algorithms on arrays whose entries are compared by `key`. Each is applied to an
array that its precondition allows: all but the last entry of the array form a heap
(`push_heap`), all entries do (`pop_heap`), or nothing (`make_heap`). -/
structure HeapAlgorithms where
  push_heap : List α → List α
  pop_heap : List α → List α
  make_heap : List α → List α
  push_heap_perm {l : List α} {x : α} : IsHeap key l → (push_heap (l ++ [x])).Perm (l ++ [x])
  push_heap_isHeap {l : List α} {x : α} : IsHeap key l → IsHeap key (push_heap (l ++ [x]))
  pop_heap_eq {l : List α} {x : α} : IsHeap key (x :: l) →
    ∃ rest, pop_heap (x :: l) = rest ++ [x] ∧ rest.Perm l ∧ IsHeap key rest
  make_heap_perm (l : List α) : (make_heap l).Perm l
  make_heap_isHeap (l : List α) : IsHeap key (make_heap l)

/-- Heaps whose arrays are sorted. -/
def HeapAlgorithms.sorted : HeapAlgorithms key :=
  let sort := List.insertionSort (fun a b : α => key a ≤ key b)
  have sort_isHeap (l : List α) : IsHeap key (sort l) :=
    .of_pairwise (@List.pairwise_insertionSort _ _ _ ⟨fun a b => le_total (key a) (key b)⟩
      ⟨fun _ _ _ => le_trans⟩ l)
  { push_heap := sort
    pop_heap := fun
      | [] => []
      | x :: l => sort l ++ [x]
    make_heap := sort
    push_heap_perm := fun _ => List.perm_insertionSort _ _
    push_heap_isHeap := fun _ => sort_isHeap _
    pop_heap_eq := fun {l _} _ => ⟨sort l, rfl, List.perm_insertionSort _ _, sort_isHeap l⟩
    make_heap_perm := List.perm_insertionSort _
    make_heap_isHeap := sort_isHeap }

end

end Phocoena
