import Mathlib.Data.List.Lex
import Mathlib.Data.List.Nodup
import Mathlib.Data.List.Sort

/-! # Maps ordered by a view of the keys

`std::map` under a comparison that sees a key only through a view of it: keys with the same view are
one key, and the map keeps the spelling that came first.
-/

namespace Phocoena

structure ViewedMap {α γ : Type} [LinearOrder γ] (view : α → γ) (β : Type) where
  entries : List (α × β)
  sorted : entries.Pairwise fun e e' => view e.1 ≤ view e'.1
  once : (entries.map fun e => view e.1).Nodup

namespace ViewedMap

variable {α β γ : Type} [LinearOrder γ] {view : α → γ}

def empty : ViewedMap view β := ⟨[], .nil, .nil⟩

def keys (m : ViewedMap view β) : List α := m.entries.map Prod.fst

/-- The entry of a key, with the spelling that the map has. -/
def find? (m : ViewedMap view β) (key : α) : Option (α × β) :=
  m.entries.find? fun e => view e.1 = view key

/-- The entry with another value, when it is that of the key. -/
def assign (view : α → γ) (key : α) (value : β) (e : α × β) : α × β :=
  if view e.1 = view key then (e.1, value) else e

@[simp] theorem assign_fst (key : α) (value : β) (e : α × β) :
    (assign view key value e).1 = e.1 := by
  rw [assign]
  split <;> rfl

theorem find?_eq_none {m : ViewedMap view β} {key : α} :
    m.find? key = none ↔ view key ∉ m.entries.map fun e => view e.1 := by
  rw [find?, List.find?_eq_none]
  simp only [decide_eq_true_eq, List.mem_map, not_exists, not_and]

instance : Std.Total fun e e' : α × β => view e.1 ≤ view e'.1 :=
  ⟨fun e e' => le_total (view e.1) (view e'.1)⟩

instance : IsTrans (α × β) fun e e' => view e.1 ≤ view e'.1 :=
  ⟨fun _ _ _ first second => first.trans second⟩

def insertOrAssign (m : ViewedMap view β) (key : α) (value : β) : ViewedMap view β :=
  if new : m.find? key = none then
    { entries := m.entries.orderedInsert (fun e e' => view e.1 ≤ view e'.1) (key, value)
      sorted := m.sorted.orderedInsert _ _
      once := by
        have same := (List.perm_orderedInsert (fun e e' : α × β => view e.1 ≤ view e'.1)
          (key, value) m.entries).map fun e => view e.1
        exact same.nodup_iff.mpr (List.nodup_cons.mpr ⟨find?_eq_none.mp new, m.once⟩) }
  else
    { entries := m.entries.map (assign view key value)
      sorted := by
        rw [List.pairwise_map]
        simpa using m.sorted
      once := by
        rw [List.map_map]
        simpa [Function.comp_def] using m.once }

def erase (m : ViewedMap view β) (key : α) : ViewedMap view β where
  entries := m.entries.eraseP fun e => view e.1 = view key
  sorted := m.sorted.sublist List.eraseP_sublist
  once := m.once.sublist (List.eraseP_sublist.map _)

variable {m m' : ViewedMap view β} {key key' : α} {value : β} {e : α × β}

theorem perm_insert (new : m.find? key = none) :
    (m.insertOrAssign key value).entries.Perm ((key, value) :: m.entries) := by
  rw [insertOrAssign, dif_pos new]
  exact List.perm_orderedInsert ..

theorem entries_assign (known : m.find? key ≠ none) :
    (m.insertOrAssign key value).entries = m.entries.map (assign view key value) := by
  rw [insertOrAssign, dif_neg known]

theorem distinct (m : ViewedMap view β) : (m.keys.map view).Nodup := by
  rw [keys, List.map_map]
  exact m.once

/-- Assigning to a key that is there keeps the keys. -/
theorem keys_assign (known : m.find? key ≠ none) :
    (m.insertOrAssign key value).keys = m.keys := by
  rw [keys, entries_assign known, List.map_map]
  simp [Function.comp_def, keys]

theorem perm_keys_insert (new : m.find? key = none) :
    (m.insertOrAssign key value).keys.Perm (key :: m.keys) :=
  (perm_insert new).map Prod.fst

/-- An entry after an insertion was there before, or it is that of the key. -/
theorem mem_insert (member : e ∈ (m.insertOrAssign key value).entries) :
    e ∈ m.entries ∨ view e.1 = view key ∧ e.2 = value := by
  by_cases new : m.find? key = none
  · cases List.mem_cons.mp ((perm_insert new).mem_iff.mp member) with
    | inl same => exact .inr (by simp [same])
    | inr before => exact .inl before
  · rw [entries_assign new] at member
    obtain ⟨e', before, rfl⟩ := List.mem_map.mp member
    rw [assign]
    split
    · next same => exact .inr ⟨same, rfl⟩
    · exact .inl before

/-- Two entries with the same key are one. -/
theorem eq_of_view {e' : α × β} (member : e ∈ m.entries) (member' : e' ∈ m.entries)
    (same : view e.1 = view e'.1) : e = e' :=
  List.inj_on_of_nodup_map m.once member member' same

theorem find?_of_mem (member : e ∈ m.entries) : m.find? e.1 = some e := by
  cases found : m.find? e.1 with
  | none => exact absurd (List.mem_map_of_mem member) (find?_eq_none.mp found)
  | some e' =>
      have same : view e'.1 = view e.1 := by simpa using List.find?_some found
      rw [eq_of_view (List.mem_of_find?_eq_some found) member same]

/-- The keys are erased as from any list of them that differ in their views. -/
theorem keys_erase {p : α → Bool} (same : ∀ k, p k = true ↔ view k = view key) :
    (m.erase key).keys = m.keys.eraseP p := by
  have equal : (fun e : α × β => decide (view e.1 = view key)) = p ∘ Prod.fst := by
    funext e
    rw [Bool.eq_iff_iff, decide_eq_true_eq, Function.comp_apply, same]
  rw [keys, keys, List.eraseP_map, ← equal]
  rfl

/-- Maps with the same entries are equal. -/
theorem eq_of_perm (same : m.entries.Perm m'.entries) : m = m' := by
  have equal : m.entries = m'.entries := by
    refine same.eq_of_pairwise (fun e e' member member' le le' => ?_) m.sorted m'.sorted
    exact eq_of_view member (same.symm.mem_iff.mp member') (le_antisymm le le')
  cases m
  cases m'
  cases equal
  rfl

end ViewedMap

end Phocoena
