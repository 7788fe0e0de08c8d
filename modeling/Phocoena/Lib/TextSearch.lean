import Mathlib.Data.List.Infix

/-! # Finding a token from a position

`std::string::find`: the first place at or after a position where the token stands.
-/

namespace Phocoena

section
variable {α : Type} [DecidableEq α]

/-- The first place of the text where the token stands. -/
def firstAt (token : List α) : List α → Option Nat
  | [] => if token = [] then some 0 else none
  | c :: text => if token <+: c :: text then some 0 else (firstAt token text).map (· + 1)

/-- `text.find(token, pos)`; `std::string::npos` is `none`. -/
def find (text token : List α) (pos : Nat) : Option Nat :=
  if pos ≤ text.length then (firstAt token (text.drop pos)).map (pos + ·) else none

variable {token text head : List α} {n pos : Nat}

theorem firstAt_begins (here : token <+: text) : firstAt token text = some 0 := by
  cases text with
  | nil =>
      obtain rfl := List.prefix_nil.mp here
      rfl
  | cons c text => rw [firstAt, if_pos here]

theorem firstAt_cons {c : α} (absent : ¬ token <+: c :: text) :
    firstAt token (c :: text) = (firstAt token text).map (· + 1) := by
  rw [firstAt, if_neg absent]

/-- What a place found says: the token stands there, and at no earlier place. -/
theorem firstAt_spec (found : firstAt token text = some n) :
    token <+: text.drop n ∧ n + token.length ≤ text.length ∧
      ∀ m < n, ¬ token <+: text.drop m := by
  induction text generalizing n with
  | nil =>
      rw [firstAt] at found
      split at found
      · next empty =>
          obtain rfl := Option.some.inj found
          subst empty
          exact ⟨List.nil_prefix, by simp, fun m less => absurd less (Nat.not_lt_zero m)⟩
      · cases found
  | cons c text ih =>
      by_cases here : token <+: c :: text
      · rw [firstAt_begins here] at found
        obtain rfl := Option.some.inj found
        exact ⟨here, by simpa using here.length_le, fun m less => absurd less (Nat.not_lt_zero m)⟩
      · rw [firstAt_cons here] at found
        obtain ⟨k, inner, rfl⟩ := Option.map_eq_some_iff.mp found
        obtain ⟨stands, fits, first⟩ := ih inner
        refine ⟨stands, ?_, fun m less => ?_⟩
        · rw [List.length_cons]
          omega
        · cases m with
          | zero => exact here
          | succ m => exact first m (by omega)

/-- Nothing is found exactly where the token stands nowhere. -/
theorem firstAt_eq_none : firstAt token text = none ↔ ∀ m, ¬ token <+: text.drop m := by
  induction text with
  | nil =>
      simp only [firstAt, List.drop_nil, List.prefix_nil, forall_const]
      split
      · next empty => simp [empty]
      · next nonempty => simp [nonempty]
  | cons c text ih =>
      by_cases here : token <+: c :: text
      · rw [firstAt_begins here]
        exact iff_of_false (by simp) fun absent => absent 0 here
      · rw [firstAt_cons here, Option.map_eq_none_iff, ih]
        constructor
        · intro absent m
          cases m with
          | zero => exact here
          | succ m => exact absent m
        · exact fun absent m => absent (m + 1)

theorem find_append : find (head ++ text) token head.length
    = (firstAt token text).map (head.length + ·) := by
  rw [find, if_pos (by simp), List.drop_left]

/-- A place that is found lies at or after the position, and the token fits behind it. -/
theorem find_bounds (found : find text token pos = some n) :
    pos ≤ n ∧ n + token.length ≤ text.length := by
  rw [find] at found
  split at found
  · next inside =>
      obtain ⟨k, at_k, rfl⟩ := Option.map_eq_some_iff.mp found
      have fits := (firstAt_spec at_k).2.1
      rw [List.length_drop] at fits
      omega
  · cases found

end

/-! ## Searching a text for a token

The first and the last place of a token, with what stands before and after it. A part of the text
in which no occurrence begins stays in front of both.
-/

/-- A property of the letters of a text is checked on these letters, not on all there are. -/
instance decidableForallMemText {p : Char → Prop} [DecidablePred p] (text : List Char) :
    Decidable (∀ c ∈ text, p c) :=
  List.decidableBAll p text

section
variable {α : Type} [DecidableEq α]

/-- What stands before and after the first occurrence of the token. -/
def cutFirst (token : List α) : List α → Option (List α × List α)
  | [] => none
  | c :: text =>
      if token <+: c :: text then some ([], (c :: text).drop token.length)
      else (cutFirst token text).map fun parts => (c :: parts.1, parts.2)

/-- What stands before and after the last occurrence of the token. -/
def cutLast (token : List α) : List α → Option (List α × List α)
  | [] => none
  | c :: text =>
      match cutLast token text with
      | some parts => some (c :: parts.1, parts.2)
      | none => if token <+: c :: text then some ([], (c :: text).drop token.length) else none

omit [DecidableEq α] in
/-- No occurrence of the token begins in the text, whatever follows it. -/
def Absent (token text : List α) : Prop :=
  ∀ before after tail, text = before ++ after → after ≠ [] → ¬ token <+: after ++ tail

variable {token : List α}

omit [DecidableEq α]

theorem Absent.nil : Absent token [] := by
  intro before after tail eq nonempty
  exact absurd (List.append_eq_nil_iff.mp eq.symm).2 nonempty

theorem Absent.cons {c : α} {text : List α} (here : ∀ tail, ¬ token <+: c :: (text ++ tail))
    (rest : Absent token text) : Absent token (c :: text) := by
  intro before after tail eq nonempty
  cases before with
  | nil =>
      obtain rfl : c :: text = after := eq
      exact here tail
  | cons b before =>
      obtain ⟨_, eq⟩ := List.cons.inj eq
      exact rest before after tail eq nonempty

theorem Absent.tail {c : α} {text : List α} (absent : Absent token (c :: text)) :
    Absent token text := by
  intro before after tail eq nonempty
  exact absent (c :: before) after tail (by rw [eq, List.cons_append]) nonempty

theorem Absent.head {c : α} {text : List α} (absent : Absent token (c :: text)) (tail : List α) :
    ¬ token <+: c :: (text ++ tail) :=
  absent [] (c :: text) tail rfl (List.cons_ne_nil c text)

theorem Absent.append {a b : List α} (first : Absent token a) (second : Absent token b) :
    Absent token (a ++ b) := by
  induction a with
  | nil => exact second
  | cons c a ih =>
      refine .cons (fun tail => ?_) (ih first.tail)
      have here := first.head (b ++ tail)
      rw [← List.append_assoc] at here
      exact here

theorem Absent.flatMap {ι : Type} {l : List ι} {f : ι → List α}
    (each : ∀ i ∈ l, Absent token (f i)) : Absent token (l.flatMap f) := by
  induction l with
  | nil => exact .nil
  | cons i l ih =>
      rw [List.flatMap_cons]
      exact (each i List.mem_cons_self).append
        (ih fun j member => each j (List.mem_cons_of_mem i member))

/-- The token begins with another character. -/
theorem Absent.cons_of_ne {c d : α} {text : List α} (different : d ≠ c)
    (rest : Absent (c :: token) text) : Absent (c :: token) (d :: text) :=
  .cons (fun _ occurs => different (List.cons_prefix_cons.mp occurs).1.symm) rest

theorem Absent.of_forall_ne {c : α} {text : List α} (different : ∀ d ∈ text, d ≠ c) :
    Absent (c :: token) text := by
  induction text with
  | nil => exact .nil
  | cons d text ih =>
      exact .cons_of_ne (different d List.mem_cons_self)
        (ih fun e member => different e (List.mem_cons_of_mem d member))

variable [DecidableEq α] {head tail before after : List α}

theorem Absent.prefix_cutFirst (absent : Absent token head)
    (found : cutFirst token (head ++ tail) = some (before, after)) : head <+: before := by
  induction head generalizing before with
  | nil => exact List.nil_prefix
  | cons c head ih =>
      rw [List.cons_append, cutFirst, if_neg (absent.head tail)] at found
      obtain ⟨parts, inner, eq⟩ := Option.map_eq_some_iff.mp found
      cases eq
      exact List.cons_prefix_cons.mpr ⟨rfl, ih absent.tail inner⟩

theorem Absent.prefix_cutLast (absent : Absent token head)
    (found : cutLast token (head ++ tail) = some (before, after)) : head <+: before := by
  induction head generalizing before with
  | nil => exact List.nil_prefix
  | cons c head ih =>
      rw [List.cons_append, cutLast] at found
      split at found
      · rename_i parts last
        cases found
        exact List.cons_prefix_cons.mpr ⟨rfl, ih absent.tail last⟩
      · rw [if_neg (absent.head tail)] at found
        cases found

end

end Phocoena
