import Phocoena.Common.RangeSizeSet
import Phocoena.Lib.Runs
import Mathlib.Data.Set.Basic
import Mathlib.Order.Interval.Set.Defs

/-! # Range sets over whole runs

The rest of the interface of `RangeSizeSet`: the queries, and the removals through an iterator.
An iterator is a position, in the map or in the multimap. Beside each run goes the mathematical
set that the same unions and differences make, and at every point of the run the two containers
describe exactly that set.
-/

namespace Phocoena.RangeSizeSet

/-- The ranges before `Map.lower_bound(start)`, the last one first. -/
def beforeLowerBound (s : RangeSizeSet) (start : Nat) : List Range :=
  (s.Map.takeWhile (·.From < start)).reverse

def contains (s : RangeSizeSet) (value : Nat) : Bool :=
  match (s.upperBound value).1 with
  | [] => false
  | it :: _ => it.From ≤ value && value < it.To

def overlaps (s : RangeSizeSet) (start stop : Nat) : Bool :=
  if start ≥ stop then false else
  match s.beforeLowerBound stop with
  | [] => false
  | it :: _ => it.From < stop && start < it.To

/-- `erase(const_iterator)`, with the iterator behind the range it removes. -/
def eraseIterator (s : RangeSizeSet) (it : Fin s.Map.length) : RangeSizeSet × Nat :=
  (⟨s.Map.eraseIdx it, s.Sizes.erase (s.Map.get it)⟩, it)

/-- `erase(by_size_const_iterator)`, with the iterator behind the entry it removes. -/
def eraseBySize (s : RangeSizeSet) (it : Fin s.Sizes.length) : RangeSizeSet × Nat :=
  (⟨s.Map.erase (s.Sizes.get it), s.Sizes.eraseIdx it⟩, it)

def clear (_ : RangeSizeSet) : RangeSizeSet := empty

/-! ## The order of the multimap -/

/-- `std::greater<SizeT>`. -/
def BySize (sizes : List Range) : Prop := sizes.Pairwise (fun a b => calcSize b ≤ calcSize a)

section BySize
variable {sizes : List Range} {r : Range} {start stop : Nat}

theorem bySize_emplaceSize (h : BySize sizes) (r : Range) : BySize (emplaceSize r sizes) := by
  induction sizes with
  | nil => exact List.pairwise_singleton _ r
  | cons a sizes ih =>
      obtain ⟨first, rest⟩ := List.pairwise_cons.mp h
      rw [emplaceSize, List.orderedInsert_cons]
      split
      · next smaller =>
        refine List.pairwise_cons.mpr ⟨fun b hb => ?_, h⟩
        cases List.mem_cons.mp hb with
        | inl same => rw [same]; omega
        | inr hb =>
            have := first b hb
            omega
      · next fits =>
        refine List.pairwise_cons.mpr ⟨fun b hb => ?_, ih rest⟩
        cases List.mem_cons.mp ((emplaceSize_perm r sizes).mem_iff.mp hb) with
        | inl same => rw [same]; omega
        | inr hb => exact first b hb

theorem bySize_erase (h : BySize sizes) (r : Range) : BySize (sizes.erase r) :=
  h.sublist List.erase_sublist

theorem bySize_resizeTo (h : BySize sizes) (r : Range) (stop : Nat) :
    BySize (resizeTo r stop sizes).2 := bySize_emplaceSize (bySize_erase h r) _

theorem bySize_maybeExpandTo (h : BySize sizes) (r : Range) (stop : Nat) :
    BySize (maybeExpandTo r stop sizes).2 := by
  unfold maybeExpandTo
  split
  · exact h
  · exact bySize_resizeTo h r stop

theorem bySize_reduceFrom (h : BySize sizes) (r : Range) (start : Nat) :
    BySize (reduceFrom r start sizes).2 := bySize_emplaceSize (bySize_erase h r) _

theorem bySize_bisectRange (h : BySize sizes) (r : Range) (start stop : Nat) :
    BySize (bisectRange r start stop sizes).2 :=
  bySize_emplaceSize (bySize_resizeTo h r start) _

theorem bySize_merge (ranges : List Range) (h : BySize sizes) :
    BySize (mergeFromIteratorToValue r stop ranges sizes).2 := by
  induction ranges generalizing r sizes with
  | nil => exact h
  | cons bound rest ih =>
      unfold mergeFromIteratorToValue
      split
      · exact ih (bySize_erase (bySize_maybeExpandTo h r bound.To) bound)
      · exact h

theorem bySize_eraseLoop (ranges : List Range) (h : BySize sizes) :
    BySize (eraseFromIteratorToValue stop ranges sizes).2 := by
  induction ranges generalizing sizes with
  | nil => exact h
  | cons bound rest ih =>
      unfold eraseFromIteratorToValue
      split
      · exact h
      · split
        · exact bySize_reduceFrom h bound stop
        · split
          · exact bySize_erase h bound
          · exact ih (bySize_erase h bound)

end BySize

variable {s : RangeSizeSet}

theorem bySize_insert (h : BySize s.Sizes) (start stop : Nat) :
    BySize (s.insert start stop).Sizes := by
  have new := bySize_emplaceSize h ⟨start, stop⟩
  unfold insert
  split
  · exact h
  · split
    · exact new
    · next bound init _ =>
      split
      · exact new
      · exact bySize_maybeExpandTo h bound stop
    · exact bySize_merge _ new
    · next bound init abound rest _ =>
      split
      · exact bySize_merge _ (bySize_maybeExpandTo h bound stop)
      · split
        · exact bySize_merge _ (bySize_erase (bySize_emplaceSize h _) abound)
        · exact new

theorem bySize_eraseRange (h : BySize s.Sizes) (start stop : Nat) :
    BySize (s.erase start stop).Sizes := by
  unfold erase
  split
  · exact h
  · split
    · exact h
    · next bound init _ =>
      split
      · exact h
      · split
        · split
          · exact bySize_erase h bound
          · exact bySize_resizeTo h bound start
        · split
          · exact bySize_reduceFrom h bound stop
          · exact bySize_bisectRange h bound start stop
    · exact bySize_eraseLoop _ h
    · next bound init abound rest _ =>
      split
      · exact bySize_eraseLoop _ h
      · split
        · split
          · exact bySize_bisectRange h bound start stop
          · exact bySize_eraseLoop _ (bySize_resizeTo h bound start)
        · exact bySize_eraseLoop _ h

/-! ## Iterators -/

section
variable {l : List Range}

/-- The ranges other than the one an iterator points at. -/
theorem within_eraseIdx (h : Separated l) (it : Nat) (lt : it < l.length) (x : Nat) :
    Within x (l.eraseIdx it) ↔ Within x l ∧ x ∉ l[it] := by
  induction l generalizing it with
  | nil => cases lt
  | cons r l ih =>
      obtain ⟨first, after, rest⟩ := separated_cons.mp h
      cases it with
      | zero =>
          have apart : Within x l → r.To < x := by
            rintro ⟨b, hb, inB⟩
            have := after b hb
            rw [Range.mem_def] at inB
            omega
          simp only [List.eraseIdx_cons_zero, List.getElem_cons_zero, within_cons, Range.mem_def]
          grind -ring -linarith
      | succ it =>
          have lt : it < l.length := Nat.lt_of_succ_lt_succ lt
          have later := after l[it] (List.getElem_mem lt)
          rw [List.eraseIdx_cons_succ, within_cons, within_cons, ih rest it lt]
          simp only [List.getElem_cons_succ, Range.mem_def]
          grind -ring -linarith

theorem separated_eraseIdx (h : Separated l) (it : Nat) : Separated (l.eraseIdx it) :=
  ⟨fun r hr => h.nonempty r (List.mem_of_mem_eraseIdx hr), h.gaps.eraseIdx it⟩

theorem nodup_of_separated (h : Separated l) : l.Nodup :=
  h.sorted.imp fun {a b} lt same => by rw [same] at lt; omega

end

/-- Removal of the range at position `it` of the map. -/
theorem eraseIterator_holds (h : s.Valid) (it : Fin s.Map.length) :
    (s.eraseIterator it).1.Holds (fun x => Within x s.Map ∧ x ∉ s.Map.get it) := by
  refine ⟨⟨separated_eraseIdx h.separated it, ?_⟩, within_eraseIdx h.separated it it.isLt⟩
  have erased := h.indexed.erase (s.Map.get it)
  rwa [(nodup_of_separated h.separated).erase_get] at erased

/-- Removal through position `it` of the multimap: the range is the one its entry points at. -/
theorem eraseBySize_holds (h : s.Valid) (it : Fin s.Sizes.length) :
    (s.eraseBySize it).1.Holds (fun x => Within x s.Map ∧ x ∉ s.Sizes.get it) := by
  have member : s.Sizes.get it ∈ s.Map := h.indexed.mem_iff.mp (List.get_mem _ _)
  obtain ⟨at_, same⟩ := List.get_of_mem member
  have erased := eraseIterator_holds h at_
  have nodup := nodup_of_separated h.separated
  have map : s.Map.erase (s.Sizes.get it) = s.Map.eraseIdx at_ := by
    rw [← same, nodup.erase_get]
  refine ⟨⟨?_, ?_⟩, fun x => ?_⟩
  · simp only [eraseBySize, map]
    exact separated_eraseIdx h.separated at_
  · have entries := h.indexed.erase (s.Sizes.get it)
    rwa [(h.indexed.nodup_iff.mpr nodup).erase_get] at entries
  · rw [← same]
    simp only [eraseBySize, map]
    exact within_eraseIdx h.separated at_ at_.isLt x

/-! ## Queries -/

theorem contains_iff (h : s.Valid) (value : Nat) :
    s.contains value = true ↔ Within value s.Map := by
  obtain ⟨init, after, split⟩ : ∃ i a, s.upperBound value = (i, a) := ⟨_, _, rfl⟩
  obtain ⟨map, before, beyond⟩ := upperBound_spec h split
  have separated := map ▸ h.separated
  have late : ¬ Within value after := by
    rintro ⟨b, hb, inB⟩
    have := beyond b hb
    rw [Range.mem_def] at inB
    omega
  rw [contains, split, map, within_append]
  cases init with
  | nil => simpa using late
  | cons it init =>
      rw [List.reverse_cons, List.append_assoc, List.singleton_append] at separated
      have starts := before it (by simp)
      have early : ¬ Within value init.reverse := by
        rintro ⟨b, hb, inB⟩
        have := (separated_append.mp separated).2.2 b hb it (by simp)
        rw [Range.mem_def] at inB
        omega
      simp only [List.reverse_cons, within_append, within_cons, within_nil, early, late, or_false,
        false_or, Range.mem_def, Bool.and_eq_true, decide_eq_true_eq]

theorem beforeLowerBound_spec (h : s.Valid) (start : Nat) :
    ∃ after, s.Map = (s.beforeLowerBound start).reverse ++ after ∧
      (∀ b ∈ s.beforeLowerBound start, b.From < start) ∧ ∀ b ∈ after, start ≤ b.From := by
  cases start with
  | zero =>
      have none : s.beforeLowerBound 0 = [] := by
        rw [beforeLowerBound]
        cases s.Map <;> simp
      exact ⟨s.Map, by simp [none], by simp [none], fun b _ => Nat.zero_le _⟩
  | succ start =>
      have same : s.beforeLowerBound (start + 1) = (s.upperBound start).1 := by
        simp only [beforeLowerBound, upperBound, Nat.lt_succ_iff]
      obtain ⟨map, before, beyond⟩ := upperBound_spec h (Prod.eta (s.upperBound start)).symm
      rw [same]
      exact ⟨_, map, fun b hb => Nat.lt_succ_of_le (before b hb), beyond⟩

theorem overlaps_iff (h : s.Valid) (start stop : Nat) :
    s.overlaps start stop = true ↔ ∃ x, (start ≤ x ∧ x < stop) ∧ Within x s.Map := by
  unfold overlaps
  split
  · next ge =>
    simp only [Bool.false_eq_true, false_iff, not_exists]
    omega
  · next lt =>
    obtain ⟨after, map, before, beyond⟩ := beforeLowerBound_spec h stop
    have separated := map ▸ h.separated
    have late : ∀ x, x < stop → ¬ Within x after := by
      rintro x below ⟨b, hb, inB⟩
      have := beyond b hb
      rw [Range.mem_def] at inB
      omega
    rw [map]
    cases init : s.beforeLowerBound stop with
    | nil =>
        simp only [List.reverse_nil, List.nil_append, Bool.false_eq_true, false_iff, not_exists]
        exact fun x hx => late x hx.1.2 hx.2
    | cons it init' =>
        rw [init, List.reverse_cons, List.append_assoc, List.singleton_append] at separated
        obtain ⟨-, fromIt, between⟩ := separated_append.mp separated
        have nonempty := (separated_cons.mp fromIt).1
        have starts : it.From < stop := before it (by simp [init])
        simp only [starts, decide_true, Bool.true_and, decide_eq_true_eq, List.reverse_cons,
          within_append, within_cons, within_nil, or_false, Range.mem_def]
        constructor
        · intro reaches
          exact ⟨max start it.From, by omega, Or.inl (Or.inr (by omega))⟩
        · rintro ⟨x, hx, (⟨b, hb, inB⟩ | inIt) | inAfter⟩
          -- A range further left meets the interval too, but it ends before `it` starts.
          · have := between b hb it (by simp)
            rw [Range.mem_def] at inB
            omega
          · omega
          · exact absurd inAfter (late x hx.2)

theorem bySizeBegin_longest (h : s.Valid) (sorted : BySize s.Sizes) {r : Range} (hr : r ∈ s.Map) :
    ∃ longest ∈ s.Map, s.bySizeBegin = some longest ∧ calcSize r ≤ calcSize longest := by
  have entry : r ∈ s.Sizes := h.indexed.mem_iff.mpr hr
  unfold bySizeBegin
  cases sizes : s.Sizes with
  | nil => simp [sizes] at entry
  | cons longest rest =>
      refine ⟨longest, h.indexed.mem_iff.mp (by simp [sizes]), rfl, ?_⟩
      rw [sizes] at entry sorted
      cases List.mem_cons.mp entry with
      | inl same => rw [same]
      | inr later => exact (List.pairwise_cons.mp sorted).1 r later

/-! ## Runs -/

inductive Operation
  | insert (start stop : Nat)
  | erase (start stop : Nat)
  | eraseIterator (it : Nat)
  | eraseBySize (it : Nat)
  | clear
deriving DecidableEq, Repr

/-- Only an iterator that can be dereferenced can be erased. -/
def Operation.run (s : RangeSizeSet) : Operation → Option RangeSizeSet
  | insert start stop => some (s.insert start stop)
  | erase start stop => some (s.erase start stop)
  | eraseIterator it =>
      if h : it < s.Map.length then some (s.eraseIterator ⟨it, h⟩).1 else none
  | eraseBySize it => if h : it < s.Sizes.length then some (s.eraseBySize ⟨it, h⟩).1 else none
  | clear => some s.clear

/-- The same operation on a set: an iterator takes away the range it points at in `s`. -/
def Operation.onSet (s : RangeSizeSet) (S : Set Nat) : Operation → Set Nat
  | insert start stop => S ∪ Set.Ico start stop
  | erase start stop => S \ Set.Ico start stop
  | eraseIterator it => S \ {x | ∃ r, s.Map[it]? = some r ∧ x ∈ r}
  | eraseBySize it => S \ {x | ∃ r, s.Sizes[it]? = some r ∧ x ∈ r}
  | clear => ∅

/-- An operation on the range set and on the set beside it. -/
def step (op : Operation) (p : RangeSizeSet × Set Nat) : Option (RangeSizeSet × Set Nat) :=
  (op.run p.1).map fun s => (s, op.onSet p.1 p.2)

/-- The range set is valid, its multimap is in order, and the ranges make up the set `S`. -/
structure Represents (s : RangeSizeSet) (S : Set Nat) : Prop where
  holds : s.Holds (· ∈ S)
  sorted : BySize s.Sizes

theorem represents_step {op : Operation} {S : Set Nat} {s' : RangeSizeSet}
    (h : s.Represents S) (next : op.run s = some s') : s'.Represents (op.onSet s S) := by
  obtain ⟨⟨valid, within⟩, sorted⟩ := h
  cases op with
  | insert start stop =>
      cases next
      refine ⟨(insert_holds valid start stop).congr fun x => ?_, bySize_insert sorted start stop⟩
      rw [within]
      rfl
  | erase start stop =>
      cases next
      refine ⟨(erase_holds valid start stop).congr fun x => ?_, bySize_eraseRange sorted start stop⟩
      rw [within]
      rfl
  | eraseIterator it =>
      simp only [Operation.run] at next
      split at next
      · next lt =>
        cases next
        refine ⟨(eraseIterator_holds valid ⟨it, lt⟩).congr fun x => ?_, bySize_erase sorted _⟩
        simp [within, Operation.onSet, lt]
      · cases next
  | eraseBySize it =>
      simp only [Operation.run] at next
      split at next
      · next lt =>
        cases next
        refine ⟨(eraseBySize_holds valid ⟨it, lt⟩).congr fun x => ?_,
          List.Pairwise.eraseIdx it sorted⟩
        simp [within, Operation.onSet, lt]
      · cases next
  | clear =>
      cases next
      exact ⟨holds_empty, .nil⟩

theorem represents_run {S : Set Nat}
    (run : Reaches step (fun _ _ => True) (empty, ∅) (s, S)) : s.Represents S := by
  refine run.invariant (I := fun p => p.1.Represents p.2) ⟨holds_empty, .nil⟩ ?_
  rintro op ⟨s, S⟩ ⟨s', S'⟩ before - next
  obtain ⟨t, ran, same⟩ := Option.map_eq_some_iff.mp next
  cases same
  exact represents_step before ran

/-- What the interface of `s` says about the set `S`. -/
structure Describes (s : RangeSizeSet) (S : Set Nat) : Prop where
  nonempty : ∀ r ∈ s.Map, r.From < r.To
  gaps : s.Map.Pairwise (fun r r' => r.To < r'.From)
  union : {x | ∃ r ∈ s.Map, r.From ≤ x ∧ x < r.To} = S
  contains : ∀ x, s.contains x = true ↔ x ∈ S
  overlaps : ∀ start stop, s.overlaps start stop = true ↔ (Set.Ico start stop ∩ S).Nonempty
  /-- One entry for each range, with the size the range has now, and no other entry. -/
  indexed : ∀ r, s.Sizes.count r = if r ∈ s.Map then 1 else 0
  longest : ∀ r ∈ s.Map,
    ∃ l ∈ s.Map, s.bySizeBegin = some l ∧ r.To - r.From ≤ l.To - l.From

/-- After every sequence of operations the range set is the set made by the same unions and
differences. -/
theorem describes_run {s : RangeSizeSet} {S : Set Nat}
    (run : Reaches step (fun _ _ => True) (empty, ∅) (s, S)) : s.Describes S := by
  obtain ⟨⟨valid, within⟩, sorted⟩ := represents_run run
  refine ⟨valid.separated.nonempty, valid.separated.gaps, Set.ext within, ?_, ?_, ?_, ?_⟩
  · exact fun x => (contains_iff valid x).trans (within x)
  · intro start stop
    rw [overlaps_iff valid]
    exact exists_congr fun x => and_congr Iff.rfl (within x)
  · intro r
    rw [valid.indexed.count_eq]
    exact (nodup_of_separated valid.separated).count
  · exact fun r hr => bySizeBegin_longest valid sorted hr

theorem describes_cut : Describes ⟨[⟨0, 4⟩, ⟨8, 10⟩, ⟨12, 20⟩], [⟨12, 20⟩, ⟨0, 4⟩, ⟨8, 10⟩]⟩
    ((∅ ∪ Set.Ico 0 4 ∪ Set.Ico 8 20) \ Set.Ico 10 12) :=
  describes_run (@Reaches.of_runActions _ _ step _ _
    [.insert 0 4, .insert 8 20, .erase 10 12] rfl)

end Phocoena.RangeSizeSet
