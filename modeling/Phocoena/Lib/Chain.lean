import Mathlib.Logic.Function.Iterate
import Mathlib.Data.List.Dedup
import Mathlib.Data.Finset.Card
import Mathlib.Order.Interval.Finset.Nat

/-! # Chains of links

Chains in a table of links: `next` gives what follows an element and a chain runs until it meets a
`stop`. A chain that ends visits no element twice, and it stays the same when links change that are
not on it.
-/

namespace Phocoena

/-- From `b` the links go through `blocks`, in this order, and then to `last`, which is a stop. -/
inductive Chain {α : Type} (next : α → α) (stop : α → Prop) : α → List α → α → Prop where
  | done {last : α} (ends : stop last) : Chain next stop last [] last
  | link {b : α} {blocks : List α} {last : α} (goes : ¬ stop b)
      (rest : Chain next stop (next b) blocks last) : Chain next stop b (b :: blocks) last

namespace Chain

variable {α : Type} {next next' : α → α} {stop : α → Prop} {b c last last' : α}
  {blocks blocks' : List α}

theorem nil_iff : Chain next stop b [] last ↔ b = last ∧ stop b := by
  constructor
  · intro h
    cases h with
    | done ends => exact ⟨rfl, ends⟩
  · rintro ⟨rfl, ends⟩
    exact .done ends

theorem cons_iff : Chain next stop b (c :: blocks) last ↔
    b = c ∧ ¬ stop b ∧ Chain next stop (next b) blocks last := by
  constructor
  · intro h
    cases h with
    | link goes rest => exact ⟨rfl, goes, rest⟩
  · rintro ⟨rfl, goes, rest⟩
    exact .link goes rest

theorem unique (h : Chain next stop b blocks last) (h' : Chain next stop b blocks' last') :
    blocks = blocks' ∧ last = last' := by
  induction h generalizing blocks' with
  | done ends =>
    cases h' with
    | done => exact ⟨rfl, rfl⟩
    | link goes => exact absurd ends goes
  | link goes rest ih =>
    cases h' with
    | done ends => exact absurd ends goes
    | link _ rest' =>
      obtain ⟨rfl, rfl⟩ := ih rest'
      exact ⟨rfl, rfl⟩

theorem stop_last (h : Chain next stop b blocks last) : stop last := by
  induction h with
  | done ends => exact ends
  | link _ _ ih => exact ih

theorem goes_of_mem (h : Chain next stop b blocks last) (mem : c ∈ blocks) : ¬ stop c := by
  induction h with
  | done => cases mem
  | link goes _ ih =>
    cases mem with
    | head => exact goes
    | tail _ mem => exact ih mem

/-- From each element on it, a chain goes on to the same end. -/
theorem from_mem (h : Chain next stop b blocks last) (mem : c ∈ blocks) :
    ∃ rest, Chain next stop c rest last ∧ rest <:+ blocks := by
  induction h with
  | done => cases mem
  | link goes rest ih =>
    cases mem with
    | head => exact ⟨_, .link goes rest, List.suffix_refl _⟩
    | tail _ mem =>
      obtain ⟨onward, chain, suffix⟩ := ih mem
      exact ⟨onward, chain, suffix.trans (List.suffix_cons _ _)⟩

theorem nodup (h : Chain next stop b blocks last) : blocks.Nodup := by
  induction h with
  | done => exact List.nodup_nil
  | @link b blocks last goes rest ih =>
    refine List.nodup_cons.mpr ⟨fun mem => ?_, ih⟩
    -- Met again, `b` would start two chains of different lengths.
    obtain ⟨onward, chain, suffix⟩ := rest.from_mem mem
    obtain ⟨rfl, -⟩ := chain.unique (.link goes rest)
    exact absurd suffix.length_le (by simp)

theorem congr (h : Chain next stop b blocks last) (same : ∀ c ∈ blocks, next' c = next c) :
    Chain next' stop b blocks last := by
  induction h with
  | done ends => exact .done ends
  | @link b blocks last goes rest ih =>
    refine .link goes ?_
    rw [same b List.mem_cons_self]
    exact ih fun c mem => same c (List.mem_cons_of_mem b mem)

/-! ## Chains as iteration -/

theorem iterate_length (h : Chain next stop b blocks last) : next^[blocks.length] b = last := by
  induction h with
  | done => rfl
  | link _ _ ih => exact ih

theorem of_iterate [DecidablePred stop] {n : Nat} (ends : stop (next^[n] b)) :
    ∃ blocks last, Chain next stop b blocks last ∧ blocks.length ≤ n := by
  induction n generalizing b with
  | zero => exact ⟨[], b, .done ends, Nat.le_refl 0⟩
  | succ n ih =>
    by_cases here : stop b
    · exact ⟨[], b, .done here, Nat.zero_le _⟩
    · obtain ⟨blocks, last, chain, le⟩ := ih ends
      exact ⟨b :: blocks, last, .link here chain, Nat.succ_le_succ le⟩

/-! ## Links between numbers -/

/-- The last element apart, what lies on a chain has a link to something that is not a stop. -/
theorem goes_next_of_mem_dropLast (h : Chain next stop b blocks last)
    (mem : c ∈ blocks.dropLast) : ¬ stop (next c) := by
  induction h with
  | done => cases mem
  | link _ rest ih =>
    cases rest with
    | done => cases mem
    | link goes =>
      rcases List.mem_cons.mp mem with rfl | mem
      · exact goes
      · exact ih mem

/-- If only numbers from `lo` to `hi` have a link that goes on, a chain is at most one longer than
their number. -/
theorem length_le {next : Nat → Nat} {stop : Nat → Prop} {b last lo hi : Nat} {blocks : List Nat}
    (h : Chain next stop b blocks last) (bounded : ∀ c, ¬ stop (next c) → c ∈ Finset.Icc lo hi) :
    blocks.length ≤ hi + 1 - lo + 1 := by
  have inside : blocks.dropLast.toFinset ⊆ Finset.Icc lo hi := by
    intro c mem
    exact bounded c (h.goes_next_of_mem_dropLast (List.mem_toFinset.mp mem))
  have count := Finset.card_le_card inside
  rw [List.toFinset_card_of_nodup (h.nodup.sublist (List.dropLast_sublist _)), Nat.card_Icc,
    List.length_dropLast] at count
  omega

end Chain

end Phocoena
