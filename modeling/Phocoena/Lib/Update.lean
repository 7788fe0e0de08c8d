import Mathlib.Data.List.Perm.Basic

/-! # A list with one entry changed -/

namespace Phocoena

section
variable {α β : Type}

/-- What the entries stand for, when one of them is changed. -/
theorem flatMap_set_perm (f : α → List β) {a : α} (b : α) {l : List α} {i : Nat}
    (entry : l[i]? = some a) : (f a ++ (l.set i b).flatMap f).Perm (f b ++ l.flatMap f) := by
  induction l generalizing i with
  | nil => simp at entry
  | cons x l ih =>
      cases i with
      | zero =>
          obtain rfl : x = a := by simpa using entry
          simp only [List.set_cons_zero, List.flatMap_cons]
          exact List.perm_append_comm_assoc ..
      | succ i =>
          simp only [List.set_cons_succ, List.flatMap_cons]
          have rest := ih (by simpa using entry)
          calc
            List.Perm (f a ++ (f x ++ (l.set i b).flatMap f))
                (f x ++ (f a ++ (l.set i b).flatMap f)) := List.perm_append_comm_assoc ..
            List.Perm _ (f x ++ (f b ++ l.flatMap f)) := rest.append_left (f x)
            List.Perm _ (f b ++ (f x ++ l.flatMap f)) := List.perm_append_comm_assoc ..

theorem countP_set_add (p : α → Bool) {a : α} (b : α) {l : List α} {i : Nat}
    (entry : l[i]? = some a) :
    (l.set i b).countP p + (p a).toNat = l.countP p + (p b).toNat := by
  induction l generalizing i with
  | nil => simp at entry
  | cons x l ih =>
      cases i with
      | zero =>
          obtain rfl : x = a := by simpa using entry
          cases holds : p x <;> cases holds' : p b <;> simp [holds, holds']
      | succ i =>
          have rest := ih (by simpa using entry)
          simp only [List.set_cons_succ, List.countP_cons]
          omega

/-- The list with room for the first entry that meets `p`. -/
theorem getElem?_findIdx_room (p : α → Bool) (l : List α) (d : α) :
    ∃ a, (if l.findIdx p = l.length then l ++ [d] else l)[l.findIdx p]? = some a ∧
      (a = d ∨ a ∈ l ∧ p a = true) := by
  split
  · rename_i last
    refine ⟨d, ?_, .inl rfl⟩
    simp [last]
  · rename_i inside
    have bound : l.findIdx p < l.length := by
      have := @List.findIdx_le_length _ p l
      omega
    exact ⟨l[l.findIdx p], List.getElem?_eq_getElem bound,
      .inr ⟨List.getElem_mem bound, List.findIdx_getElem⟩⟩

end

end Phocoena
