import Phocoena.Lib.Ranges
import Mathlib.Data.List.TakeWhile

/-! # Range sets ordered by size

`RangeSizeSet<u8*>`: the map of the ranges by their start and the multimap of the same ranges
by their size. An iterator of the map is a position in the list of its ranges, so the loops
that walk the map recurse on the ranges from the iterator on.
-/

namespace Phocoena

/-- `Map` lists the ranges in the order of their starts, `Sizes` in the order of the multimap
`std::multimap<SizeT, …, std::greater<SizeT>>`. -/
structure RangeSizeSet where
  Map : List Range
  Sizes : List Range
deriving DecidableEq, Repr

def calcSize (r : Range) : Nat := r.To - r.From

/-- `Sizes.emplace`: behind every entry of the same or a larger size. -/
def emplaceSize (r : Range) (sizes : List Range) : List Range :=
  sizes.orderedInsert (fun a b => calcSize b < calcSize a) r

/-- What `insert`, `erase` and their loops return: the ranges from an iterator on, and the
multimap. -/
abbrev Suffix := List Range × List Range

/-- `expand_to` and `reduce_to` on the range `r`, which becomes `[r.From, stop)`. -/
def resizeTo (r : Range) (stop : Nat) (sizes : List Range) : Range × List Range :=
  (⟨r.From, stop⟩, emplaceSize ⟨r.From, stop⟩ (sizes.erase r))

def maybeExpandTo (r : Range) (stop : Nat) (sizes : List Range) : Range × List Range :=
  if stop ≤ r.To then (r, sizes) else resizeTo r stop sizes

def reduceFrom (r : Range) (start : Nat) (sizes : List Range) : Range × List Range :=
  (⟨start, r.To⟩, emplaceSize ⟨start, r.To⟩ (sizes.erase r))

/-- `bisect_range`: `r` without `[start, stop)`. -/
def bisectRange (r : Range) (start stop : Nat) (sizes : List Range) : Suffix :=
  let (left, sizes) := resizeTo r start sizes
  ([left, ⟨stop, r.To⟩], emplaceSize ⟨stop, r.To⟩ sizes)

/-- The loop of `merge_from_iterator_to_value`: `inserted` is followed by the ranges from
`bound` on. -/
def mergeFromIteratorToValue (inserted : Range) (stop : Nat) :
    List Range → List Range → Suffix
  | [], sizes => ([inserted], sizes)
  | bound :: rest, sizes =>
    if bound.From ≤ stop then
      let (inserted, sizes) := maybeExpandTo inserted bound.To sizes
      mergeFromIteratorToValue inserted stop rest (sizes.erase bound)
    else (inserted :: bound :: rest, sizes)

/-- The loop of `erase_from_iterator_to_value`. -/
def eraseFromIteratorToValue (stop : Nat) : List Range → List Range → Suffix
  | [], sizes => ([], sizes)
  | bound :: rest, sizes =>
    if stop ≤ bound.From then (bound :: rest, sizes)
    else if stop < bound.To then
      let (reduced, sizes) := reduceFrom bound stop sizes
      (reduced :: rest, sizes)
    else if stop = bound.To then (rest, sizes.erase bound)
    else eraseFromIteratorToValue stop rest (sizes.erase bound)

namespace RangeSizeSet

def empty : RangeSizeSet := ⟨[], []⟩

/-- The ranges before `Map.upper_bound(start)`, the last one first, and the ranges from it on. -/
def upperBound (s : RangeSizeSet) (start : Nat) : List Range × List Range :=
  ((s.Map.takeWhile (·.From ≤ start)).reverse, s.Map.dropWhile (·.From ≤ start))

/-- The set whose ranges are `init`, in reverse order, and the ones a branch returns. -/
def rebuild (init : List Range) (suffix : Suffix) : RangeSizeSet :=
  ⟨init.reverse ++ suffix.1, suffix.2⟩

def insert (s : RangeSizeSet) (start stop : Nat) : RangeSizeSet :=
  if start ≥ stop then s else
  let r : Range := ⟨start, stop⟩
  match s.upperBound start with
  -- No range yet.
  | ([], []) => rebuild [] ([r], emplaceSize r s.Sizes)
  -- No range starts after the given one.
  | (bound :: init, []) =>
    if start > bound.To then rebuild (bound :: init) ([r], emplaceSize r s.Sizes)
    else
      let (bound, sizes) := maybeExpandTo bound stop s.Sizes
      rebuild init ([bound], sizes)
  -- The given range starts before any of the existing ones.
  | ([], bound :: rest) =>
    rebuild [] (mergeFromIteratorToValue r stop (bound :: rest) (emplaceSize r s.Sizes))
  | (bound :: init, abound :: rest) =>
    if bound.To ≥ start then
      let (bound, sizes) := maybeExpandTo bound stop s.Sizes
      rebuild init (mergeFromIteratorToValue bound stop (abound :: rest) sizes)
    else if abound.From ≤ stop then
      let inserted : Range := ⟨start, if stop ≥ abound.To then stop else abound.To⟩
      rebuild (bound :: init) (mergeFromIteratorToValue inserted stop rest
        ((emplaceSize inserted s.Sizes).erase abound))
    else rebuild (bound :: init) (r :: abound :: rest, emplaceSize r s.Sizes)

def erase (s : RangeSizeSet) (start stop : Nat) : RangeSizeSet :=
  if start ≥ stop then s else
  match s.upperBound start with
  | ([], []) => s
  | (bound :: init, []) =>
    if start ≥ bound.To then s
    else if stop ≥ bound.To then
      if start = bound.From then rebuild init ([], s.Sizes.erase bound)
      else
        let (bound, sizes) := resizeTo bound start s.Sizes
        rebuild init ([bound], sizes)
    else if start = bound.From then
      let (bound, sizes) := reduceFrom bound stop s.Sizes
      rebuild init ([bound], sizes)
    else rebuild init (bisectRange bound start stop s.Sizes)
  | ([], bound :: rest) => rebuild [] (eraseFromIteratorToValue stop (bound :: rest) s.Sizes)
  | (bound :: init, abound :: rest) =>
    if start = bound.From then
      rebuild init (eraseFromIteratorToValue stop (bound :: abound :: rest) s.Sizes)
    else if start < bound.To then
      if stop < bound.To then
        let (halves, sizes) := bisectRange bound start stop s.Sizes
        rebuild init (halves ++ abound :: rest, sizes)
      else
        let (bound, sizes) := resizeTo bound start s.Sizes
        rebuild (bound :: init) (eraseFromIteratorToValue stop (abound :: rest) sizes)
    else rebuild (bound :: init) (eraseFromIteratorToValue stop (abound :: rest) s.Sizes)

/-- `by_size_begin`, or nothing where it is `by_size_end`. -/
def bySizeBegin (s : RangeSizeSet) : Option Range := s.Sizes.head?

/-- The assumptions the class makes about its data: the ranges never touch or overlap, and
the multimap has an entry for each of them. -/
structure Valid (s : RangeSizeSet) : Prop where
  separated : Separated s.Map
  indexed : s.Sizes.Perm s.Map

end RangeSizeSet

/-! ## The loops -/

/-- What the ranges from an iterator on and the multimap must be like for the set with the
ranges `before` in front to be valid again and to hold exactly the addresses `holds`. -/
structure Suffix.Meets (suffix : Suffix) (before : List Range) (holds : Nat → Prop) : Prop where
  separated : Separated (before ++ suffix.1)
  indexed : suffix.2.Perm (before ++ suffix.1)
  within : ∀ x, Within x (before ++ suffix.1) ↔ holds x

theorem emplaceSize_perm (r : Range) (sizes : List Range) :
    (emplaceSize r sizes).Perm (r :: sizes) := List.perm_orderedInsert _ _ _

section
variable {before rest sizes : List Range} {r q : Range} {stop : Nat}

theorem erase_perm (h : sizes.Perm (before ++ r :: rest)) :
    (sizes.erase r).Perm (before ++ rest) := by
  have := (h.trans List.perm_middle).erase r
  rwa [List.erase_cons_head] at this

theorem emplace_perm (h : sizes.Perm (before ++ rest)) :
    (emplaceSize r sizes).Perm (before ++ r :: rest) :=
  ((emplaceSize_perm r sizes).trans (h.cons r)).trans List.perm_middle.symm

theorem replace_perm (h : sizes.Perm (before ++ r :: rest)) :
    (emplaceSize q (sizes.erase r)).Perm (before ++ q :: rest) :=
  emplace_perm (erase_perm h)

theorem maybeExpandTo_fst : (maybeExpandTo r stop sizes).1 = ⟨r.From, max r.To stop⟩ := by
  unfold maybeExpandTo
  split
  · next le => rw [Nat.max_eq_left le]
  · next lt => rw [Nat.max_eq_right (by omega)]; rfl

theorem maybeExpandTo_perm (stop : Nat) (h : sizes.Perm (before ++ r :: rest)) :
    (maybeExpandTo r stop sizes).2.Perm (before ++ (maybeExpandTo r stop sizes).1 :: rest) := by
  unfold maybeExpandTo
  split
  · exact h
  · exact replace_perm h


theorem bisectRange_perm {start : Nat} (h : sizes.Perm (before ++ r :: rest)) :
    (bisectRange r start stop sizes).2.Perm
      (before ++ ⟨r.From, start⟩ :: ⟨stop, r.To⟩ :: rest) := by
  have left := replace_perm (q := ⟨r.From, start⟩) h
  rw [List.append_cons] at left ⊢
  exact emplace_perm left

/-- The loop unites the inserted range with every range that starts up to its end. -/
theorem mergeFromIteratorToValue_meets (left : Separated before)
    (between : ∀ b ∈ before, b.To < r.From) (nonempty : r.From < r.To) (right : Separated rest)
    (after : ∀ b ∈ rest, r.From < b.From) (reach : stop ≤ r.To)
    (gap : ∀ b ∈ rest, b.From ≤ stop ∨ r.To < b.From)
    (indexed : sizes.Perm (before ++ r :: rest)) :
    (mergeFromIteratorToValue r stop rest sizes).Meets before
      (fun x => Within x (before ++ r :: rest)) := by
  induction rest generalizing r sizes with
  | nil =>
      refine ⟨?_, indexed, fun x => Iff.rfl⟩
      refine separated_append.mpr ⟨left, separated_singleton.mpr nonempty, ?_⟩
      simpa [mergeFromIteratorToValue] using between
  | cons b rest ih =>
      obtain ⟨first, later, right⟩ := separated_cons.mp right
      have startsAfter := after b (by simp)
      have reaches := gap b (by simp)
      unfold mergeFromIteratorToValue
      split
      · next le =>
        have expanded := @maybeExpandTo_fst sizes r b.To
        have perm := maybeExpandTo_perm b.To indexed
        rw [expanded] at perm
        simp only [expanded]
        have step := @ih ((maybeExpandTo r b.To sizes).2.erase b) ⟨r.From, max r.To b.To⟩ between
          (by simp only; omega) right (fun c hc => after c (by simp [hc]))
          (by simp only; omega) ?_ ?_
        · refine ⟨step.separated, step.indexed, fun x => (step.within x).trans ?_⟩
          simp only [within_append, within_cons, Range.mem_def]
          constructor <;> intro h <;> grind -ring -linarith
        · intro c hc
          have := later c hc
          have := gap c (by simp [hc])
          simp only
          omega
        · rw [List.append_cons] at perm ⊢
          exact erase_perm perm
      · next gt =>
        refine ⟨?_, indexed, fun x => Iff.rfl⟩
        refine separated_append.mpr ⟨left, separated_cons.mpr ⟨nonempty, ?_, ?_⟩, ?_⟩
        · intro c hc
          cases List.mem_cons.mp hc with
          | inl h => subst h; omega
          | inr hc =>
              have := later c hc
              omega
        · exact separated_cons.mpr ⟨first, later, right⟩
        · intro p hp c hc
          have before := between p hp
          cases List.mem_cons.mp hc with
          | inl h => subst h; omega
          | inr hc =>
              have := after c hc
              omega

/-- The loop takes the addresses below `stop` from the ranges. -/
theorem eraseFromIteratorToValue_meets (ranges : Separated (before ++ rest))
    (indexed : sizes.Perm (before ++ rest)) :
    (eraseFromIteratorToValue stop rest sizes).Meets before
      (fun x => Within x before ∨ Within x rest ∧ stop ≤ x) := by
  induction rest generalizing sizes with
  | nil => exact ⟨ranges, indexed, fun x => by simp [eraseFromIteratorToValue]⟩
  | cons b rest ih =>
      obtain ⟨left, right, between⟩ := separated_append.mp ranges
      obtain ⟨first, later, right⟩ := separated_cons.mp right
      have startsAfter : ∀ x, Within x rest → b.To < x := by
        rintro x ⟨c, hc, inC⟩
        have := later c hc
        rw [Range.mem_def] at inC
        omega
      have shorter : Separated (before ++ rest) := separated_append.mpr
        ⟨left, right, fun p hp c hc => between p hp c (by simp [hc])⟩
      unfold eraseFromIteratorToValue
      split
      · next le =>
        refine ⟨ranges, indexed, fun x => ?_⟩
        have := startsAfter x
        simp only [within_append, within_cons, Range.mem_def]
        grind -ring -linarith
      · split
        · next low lt =>
          refine ⟨?_, replace_perm indexed, fun x => ?_⟩
          · refine separated_append.mpr ⟨left, separated_cons.mpr ⟨lt, later, right⟩, ?_⟩
            intro p hp c hc
            have := between p hp b (by simp)
            cases List.mem_cons.mp hc with
            | inl h =>
                subst h
                simp only [reduceFrom]
                omega
            | inr hc => exact between p hp c (by simp [hc])
          · have := startsAfter x
            simp only [reduceFrom, within_append, within_cons, Range.mem_def]
            grind -ring -linarith
        · split
          · next low ge eq =>
            refine ⟨shorter, erase_perm indexed, fun x => ?_⟩
            have := startsAfter x
            simp only [within_append, within_cons, Range.mem_def]
            grind -ring -linarith
          · next low ge ne =>
            have step := ih shorter (erase_perm indexed)
            refine ⟨step.separated, step.indexed, fun x => (step.within x).trans ?_⟩
            simp only [within_cons, Range.mem_def]
            grind -ring -linarith

end

/-! ## Insertion and removal -/

namespace RangeSizeSet

variable {s : RangeSizeSet} {start stop : Nat}

/-- A valid set with exactly the addresses `holds`. -/
structure Holds (s : RangeSizeSet) (holds : Nat → Prop) : Prop where
  valid : s.Valid
  within : ∀ x, Within x s.Map ↔ holds x

theorem Holds.congr {p q : Nat → Prop} (h : s.Holds p) (same : ∀ x, p x ↔ q x) : s.Holds q :=
  ⟨h.valid, fun x => (h.within x).trans (same x)⟩

theorem Valid.holds (h : s.Valid) : s.Holds (fun x => Within x s.Map) := ⟨h, fun _ => Iff.rfl⟩

theorem holds_empty : empty.Holds (fun _ => False) :=
  ⟨⟨separated_nil, .nil⟩, fun _ => by simp [empty]⟩

theorem Holds.of_meets {init : List Range} {suffix : Suffix} {p : Nat → Prop}
    (h : suffix.Meets init.reverse p) : (rebuild init suffix).Holds p :=
  ⟨⟨h.separated, h.indexed⟩, h.within⟩

theorem upperBound_spec (h : s.Valid) {init after : List Range}
    (split : s.upperBound start = (init, after)) :
    s.Map = init.reverse ++ after ∧ (∀ b ∈ init, b.From ≤ start) ∧ ∀ b ∈ after, start < b.From := by
  obtain ⟨rfl, rfl⟩ := Prod.mk.inj split
  refine ⟨by simp, ?_, ?_⟩
  · intro b hb
    simpa using List.mem_takeWhile_imp (List.mem_reverse.mp hb)
  · intro b hb
    have sorted := h.separated.sorted.sublist (List.dropWhile_sublist fun b => b.From ≤ start)
    cases rest : s.Map.dropWhile (fun b => b.From ≤ start) with
    | nil => simp [rest] at hb
    | cons c rest' =>
        have first : start < c.From := by
          have := @List.head_dropWhile_not _ (fun b : Range => decide (b.From ≤ start)) s.Map
            (by simp [rest])
          simpa [rest] using this
        rw [rest] at hb sorted
        cases List.mem_cons.mp hb with
        | inl same => rwa [same]
        | inr hb =>
            have := (List.pairwise_cons.mp sorted).1 b hb
            omega

/-- The branches of `insert` that extend the range before the given one. -/
theorem expand_holds {init after : List Range} {bound : Range}
    (separated : Separated (init.reverse ++ bound :: after))
    (indexed : s.Sizes.Perm (init.reverse ++ bound :: after))
    (starts : bound.From ≤ start) (reaches : start ≤ bound.To)
    (beyond : ∀ b ∈ after, start < b.From) :
    (rebuild init (mergeFromIteratorToValue (maybeExpandTo bound stop s.Sizes).1 stop after
      (maybeExpandTo bound stop s.Sizes).2)).Holds
      (fun x => Within x (init.reverse ++ bound :: after) ∨ start ≤ x ∧ x < stop) := by
  obtain ⟨left, right, between⟩ := separated_append.mp separated
  obtain ⟨nonempty, later, right⟩ := separated_cons.mp right
  have perm := maybeExpandTo_perm stop indexed
  rw [maybeExpandTo_fst] at perm ⊢
  refine (Holds.of_meets (mergeFromIteratorToValue_meets (r := ⟨bound.From, max bound.To stop⟩) left
    (fun b hb => between b hb bound (by simp)) (Nat.lt_of_lt_of_le nonempty (Nat.le_max_left _ _))
    right (fun b hb => ?_) (Nat.le_max_right _ _) (fun b hb => ?_) perm)).congr fun x => ?_
  · exact Nat.lt_of_le_of_lt starts (beyond b hb)
  · have := later b hb
    simp only
    omega
  · simp only [within_append, within_cons, Range.mem_def]
    grind -ring -linarith

theorem insert_holds (h : s.Valid) (start stop : Nat) :
    (s.insert start stop).Holds (fun x => Within x s.Map ∨ start ≤ x ∧ x < stop) := by
  unfold insert
  split
  · next ge => exact h.holds.congr fun x => by grind -ring -linarith
  · next lt =>
    obtain ⟨init, after, split⟩ : ∃ i a, s.upperBound start = (i, a) := ⟨_, _, rfl⟩
    obtain ⟨map, before, beyond⟩ := upperBound_spec h split
    have separated := map ▸ h.separated
    have indexed := map ▸ h.indexed
    simp only [split, map]
    cases init with
    | nil =>
        cases after with
        | nil =>
            have nonempty : start < stop := by omega
            refine .of_meets ⟨separated_singleton.mpr nonempty, emplace_perm indexed, ?_⟩
            simp
        | cons bound rest =>
            have lt' : start < stop := by omega
            have merged := @mergeFromIteratorToValue_meets [] (bound :: rest)
              (emplaceSize ⟨start, stop⟩ s.Sizes) ⟨start, stop⟩ stop separated_nil (by simp)
              lt' separated beyond (Nat.le_refl _) (fun b _ => (Nat.lt_or_ge stop b.From).symm)
              (emplace_perm indexed)
            exact (@Holds.of_meets [] _ _ merged).congr fun x => by simp [or_comm]
    | cons bound init =>
        have starts := before bound (by simp)
        rw [List.reverse_cons, List.append_assoc, List.singleton_append] at separated indexed ⊢
        obtain ⟨left, right, between⟩ := separated_append.mp separated
        obtain ⟨nonempty, later, right⟩ := separated_cons.mp right
        have apart : ∀ p ∈ (bound :: init).reverse, p.To ≤ bound.To := by
          intro p hp
          cases List.mem_cons.mp (List.mem_reverse.mp hp) with
          | inl same => rw [same]
          | inr hp =>
              have := between p (List.mem_reverse.mpr hp) bound (by simp)
              omega
        have kept : Separated (bound :: init).reverse := by
          rw [List.reverse_cons]
          exact separated_append.mpr ⟨left, separated_singleton.mpr nonempty,
            fun p hp c hc => between p hp c (by simp_all)⟩
        cases after with
        | nil =>
            simp only
            split
            · next beyondBound =>
              refine .of_meets ⟨?_, ?_, fun x => ?_⟩
              · have nonempty : start < stop := by omega
                refine separated_append.mpr ⟨kept, separated_singleton.mpr nonempty, ?_⟩
                intro p hp c hc
                have := apart p hp
                cases List.mem_singleton.mp hc
                simp only
                omega
              · exact emplace_perm (by simpa using indexed)
              · simp [or_assoc]
            · next reaches =>
              exact expand_holds separated indexed starts (by omega) beyond
        | cons abound rest =>
            simp only
            split
            · next reaches =>
              exact expand_holds separated indexed starts reaches beyond
            · next beyondBound =>
              have startsAfter := beyond abound (by simp)
              obtain ⟨next, afterNext, right⟩ := separated_cons.mp right
              have between' : ∀ p ∈ (bound :: init).reverse, p.To < start := by
                intro p hp
                have := apart p hp
                omega
              rw [List.append_cons, ← List.reverse_cons] at indexed
              split
              · next le =>
                have extent :
                    (if stop ≥ abound.To then stop else abound.To) = max stop abound.To := by
                  rw [Nat.max_def]
                  split <;> split <;> omega
                rw [extent]
                refine (Holds.of_meets (mergeFromIteratorToValue_meets kept between'
                  (show start < max stop abound.To by omega) right (fun b hb => ?_)
                  (Nat.le_max_left _ _) (fun b hb => ?_) ?_)).congr fun x => ?_
                · have := afterNext b hb
                  simp only
                  omega
                · have := afterNext b hb
                  simp only
                  omega
                · have perm := emplace_perm (r := ⟨start, max stop abound.To⟩) indexed
                  rw [List.append_cons] at perm ⊢
                  exact erase_perm perm
                · simp only [List.reverse_cons, within_append, within_cons, within_nil,
                    Range.mem_def]
                  grind -ring -linarith
              · next gt =>
                refine .of_meets ⟨?_, emplace_perm indexed, fun x => ?_⟩
                · refine separated_append.mpr ⟨kept, separated_cons.mpr ⟨by simp only; omega, ?_,
                    separated_cons.mpr ⟨next, afterNext, right⟩⟩, ?_⟩
                  · intro c hc
                    simp only
                    cases List.mem_cons.mp hc with
                    | inl same => rw [same]; omega
                    | inr hc =>
                        have := afterNext c hc
                        omega
                  · intro p hp c hc
                    have := between' p hp
                    cases List.mem_cons.mp hc with
                    | inl same => rw [same]; exact this
                    | inr hc =>
                        have := beyond c hc
                        omega
                · simp only [List.reverse_cons, within_append, within_cons, within_nil,
                    Range.mem_def]
                  grind -ring -linarith

/-- The branches of `erase` that cut into the range before the given one. -/
theorem cut_holds {init after : List Range} {bound : Range} {suffix : List Range}
    {sizes : List Range} {p : Nat → Prop} (separated : Separated (init.reverse ++ bound :: after))
    (indexed : sizes.Perm (init.reverse ++ suffix)) (pieces : Separated suffix)
    (starts : ∀ b ∈ suffix, bound.From ≤ b.From)
    (holds : ∀ x, Within x (init.reverse ++ suffix) ↔ p x) :
    (rebuild init (suffix, sizes)).Holds p := by
  obtain ⟨left, right, between⟩ := separated_append.mp separated
  refine .of_meets ⟨separated_append.mpr ⟨left, pieces, ?_⟩, indexed, holds⟩
  intro q hq b hb
  have := between q hq bound (by simp)
  have := starts b hb
  omega

theorem erase_holds (h : s.Valid) (start stop : Nat) :
    (s.erase start stop).Holds (fun x => Within x s.Map ∧ ¬ (start ≤ x ∧ x < stop)) := by
  unfold erase
  split
  · next ge => exact h.holds.congr fun x => by grind -ring -linarith
  · next lt =>
    obtain ⟨init, after, split⟩ : ∃ i a, s.upperBound start = (i, a) := ⟨_, _, rfl⟩
    obtain ⟨map, before, beyond⟩ := upperBound_spec h split
    have separated := map ▸ h.separated
    have indexed := map ▸ h.indexed
    have later : ∀ x, Within x after → start < x := by
      rintro x ⟨b, hb, inB⟩
      have := beyond b hb
      rw [Range.mem_def] at inB
      omega
    simp only [split]
    cases init with
    | nil =>
        cases after with
        | nil => exact h.holds.congr fun x => by simp [map]
        | cons bound rest =>
            have erased := @eraseFromIteratorToValue_meets [] (bound :: rest) s.Sizes stop
              separated indexed
            refine (@Holds.of_meets [] _ _ erased).congr fun x => ?_
            have := later x
            rw [map]
            simp only [List.reverse_nil, List.nil_append, within_nil]
            grind -ring -linarith
    | cons bound init =>
        have starts := before bound (by simp)
        have earlier : ∀ x, Within x init.reverse → x < bound.From := by
          rintro x ⟨b, hb, inB⟩
          rw [List.reverse_cons, List.append_assoc, List.singleton_append] at separated
          have := (separated_append.mp separated).2.2 b hb bound (by simp)
          rw [Range.mem_def] at inB
          omega
        have past : ∀ x, Within x after → bound.To < x := by
          rintro x ⟨b, hb, inB⟩
          rw [List.reverse_cons, List.append_assoc, List.singleton_append] at separated
          have := (separated_cons.mp (separated_append.mp separated).2.1).2.1 b hb
          rw [Range.mem_def] at inB
          omega
        rw [List.reverse_cons, List.append_assoc, List.singleton_append] at map separated indexed
        have nonempty := (separated_cons.mp (separated_append.mp separated).2.1).1
        have remaining : ∀ x, (Within x s.Map ∧ ¬ (start ≤ x ∧ x < stop)) ↔
            Within x init.reverse ∨ (bound.From ≤ x ∧ x < start ∧ x < bound.To) ∨
              (stop ≤ x ∧ x < bound.To) ∨ (Within x after ∧ stop ≤ x) := by
          intro x
          have := earlier x
          have := later x
          rw [map]
          simp only [within_append, within_cons, Range.mem_def]
          grind -ring -linarith
        cases after with
        | nil =>
            simp only
            split
            · next ge =>
              refine h.holds.congr fun x => ?_
              have := earlier x
              rw [remaining, map]
              simp only [within_append, within_cons, within_nil, Range.mem_def]
              grind -ring -linarith
            · next inside =>
              split
              · next whole =>
                split
                · next same =>
                  refine cut_holds separated (erase_perm indexed) separated_nil (by simp)
                    fun x => ?_
                  rw [remaining]
                  simp only [within_append, within_nil]
                  grind -ring -linarith
                · next proper =>
                  have left : bound.From < start := by omega
                  refine cut_holds separated (replace_perm indexed)
                    (separated_singleton.mpr left) (by simp [resizeTo]) fun x => ?_
                  rw [remaining]
                  simp only [resizeTo, within_append, within_cons, within_nil, Range.mem_def]
                  grind -ring -linarith
              · next part =>
                split
                · next same =>
                  have right : stop < bound.To := by omega
                  refine cut_holds separated (replace_perm indexed)
                    (separated_singleton.mpr right) ?_ fun x => ?_
                  · simp only [reduceFrom, List.mem_singleton, forall_eq]
                    omega
                  · rw [remaining]
                    simp only [reduceFrom, within_append, within_cons, within_nil, Range.mem_def]
                    grind -ring -linarith
                · next proper =>
                  refine cut_holds separated (bisectRange_perm indexed) ?_ ?_ fun x => ?_
                  · refine separated_cons.mpr ⟨by simp only; omega, ?_, separated_singleton.mpr ?_⟩
                    all_goals simp; omega
                  · simp; omega
                  · rw [remaining]
                    simp only [within_append, within_cons, within_nil, Range.mem_def]
                    grind -ring -linarith
        | cons abound rest =>
            obtain ⟨left, right, between⟩ := separated_append.mp separated
            obtain ⟨-, gap, right⟩ := separated_cons.mp right
            simp only
            split
            · next same =>
              refine (Holds.of_meets (eraseFromIteratorToValue_meets separated indexed)).congr
                fun x => ?_
              have := past x
              have := earlier x
              rw [remaining]
              simp only [within_cons, Range.mem_def] at this ⊢
              grind -ring -linarith
            · next proper =>
              split
              · next inside =>
                split
                · next part =>
                  show (rebuild init (⟨bound.From, start⟩ :: ⟨stop, bound.To⟩ :: abound :: rest,
                    (bisectRange bound start stop s.Sizes).2)).Holds _
                  refine cut_holds separated (bisectRange_perm indexed) ?_ ?_ fun x => ?_
                  · exact separated_cons.mpr ⟨by simp only; omega, by grind -ring -linarith,
                      separated_cons.mpr ⟨part, gap, right⟩⟩
                  · grind -ring -linarith
                  · have := past x
                    rw [remaining]
                    simp only [within_append, within_cons, Range.mem_def] at this ⊢
                    grind -ring -linarith
                · next rest' =>
                  have shorter :
                      Separated ((⟨bound.From, start⟩ :: init).reverse ++ abound :: rest) := by
                    rw [List.reverse_cons, List.append_assoc, List.singleton_append]
                    refine separated_append.mpr ⟨left, separated_cons.mpr ⟨?_, ?_, right⟩, ?_⟩
                    all_goals grind -ring -linarith
                  have perm := replace_perm (q := ⟨bound.From, start⟩) indexed
                  rw [List.append_cons, ← List.reverse_cons] at perm
                  refine (Holds.of_meets (eraseFromIteratorToValue_meets shorter perm)).congr
                    fun x => ?_
                  have := past x
                  rw [remaining]
                  simp only [List.reverse_cons, within_append, within_cons, within_nil,
                    Range.mem_def] at this ⊢
                  grind -ring -linarith
              · next outside =>
                rw [List.append_cons, ← List.reverse_cons] at separated indexed
                refine (Holds.of_meets (eraseFromIteratorToValue_meets separated indexed)).congr
                  fun x => ?_
                have := past x
                rw [remaining]
                simp only [List.reverse_cons, within_append, within_cons, within_nil,
                  Range.mem_def] at this ⊢
                grind -ring -linarith

end RangeSizeSet

end Phocoena

/-! ## Range sets

`RangeSet<T>::insert`: the map of `RangeSizeSet` without the multimap.
-/

namespace Phocoena.RangeSet

def maybeExpandTo (r : Range) (stop : Nat) : Range :=
  if stop ≤ r.To then r else ⟨r.From, stop⟩

/-- The loop of `merge_from_iterator_to_value`: `inserted` is followed by the ranges from `bound`
on. -/
def mergeFromIteratorToValue (inserted : Range) (stop : Nat) : List Range → List Range
  | [] => [inserted]
  | bound :: rest =>
    if bound.From ≤ stop then
      mergeFromIteratorToValue (maybeExpandTo inserted bound.To) stop rest
    else inserted :: bound :: rest

/-- The ranges before `Map.upper_bound(start)`, the last one first, and the ranges from it on. -/
def upperBound (map : List Range) (start : Nat) : List Range × List Range :=
  ((map.takeWhile (·.From ≤ start)).reverse, map.dropWhile (·.From ≤ start))

def insert (map : List Range) (start stop : Nat) : List Range :=
  if start ≥ stop then map else
  match upperBound map start with
  | ([], []) => [⟨start, stop⟩]
  | (bound :: init, []) =>
    if start > bound.To then (bound :: init).reverse ++ [⟨start, stop⟩]
    else init.reverse ++ [maybeExpandTo bound stop]
  | ([], bound :: rest) => mergeFromIteratorToValue ⟨start, stop⟩ stop (bound :: rest)
  | (bound :: init, abound :: rest) =>
    if bound.To ≥ start then
      init.reverse ++ mergeFromIteratorToValue (maybeExpandTo bound stop) stop (abound :: rest)
    else if abound.From ≤ stop then
      let inserted : Range := ⟨start, if stop ≥ abound.To then stop else abound.To⟩
      (bound :: init).reverse ++ mergeFromIteratorToValue inserted stop rest
    else (bound :: init).reverse ++ ⟨start, stop⟩ :: abound :: rest

theorem maybeExpandTo_eq (r : Range) (stop : Nat) (sizes : List Range) :
    maybeExpandTo r stop = (Phocoena.maybeExpandTo r stop sizes).1 := by
  rw [maybeExpandTo, Phocoena.maybeExpandTo]
  split <;> rfl

theorem merge_eq (r : Range) (stop : Nat) (rest sizes : List Range) :
    mergeFromIteratorToValue r stop rest =
      (Phocoena.mergeFromIteratorToValue r stop rest sizes).1 := by
  induction rest generalizing r sizes with
  | nil => rfl
  | cons bound rest ih =>
      rw [mergeFromIteratorToValue, Phocoena.mergeFromIteratorToValue]
      split
      · rw [maybeExpandTo_eq r bound.To sizes]
        exact ih _ _
      · rfl

/-- The multimap has no influence on the map. -/
theorem insert_eq (s : RangeSizeSet) (start stop : Nat) :
    insert s.Map start stop = (s.insert start stop).Map := by
  rw [insert, RangeSizeSet.insert]
  split
  · rfl
  · have bounds : upperBound s.Map start = s.upperBound start := rfl
    rw [bounds]
    obtain ⟨init, after⟩ := s.upperBound start
    cases init with
    | nil =>
        cases after with
        | nil => rfl
        | cons bound rest => exact merge_eq _ _ _ _
    | cons bound init =>
        cases after with
        | nil =>
            simp only
            split
            · rfl
            · rw [maybeExpandTo_eq bound stop s.Sizes]
              rfl
        | cons abound rest =>
            simp only
            split
            · rw [maybeExpandTo_eq bound stop s.Sizes,
                merge_eq _ _ _ (Phocoena.maybeExpandTo bound stop s.Sizes).2]
              rfl
            · split
              · rw [merge_eq _ _ _ ((emplaceSize _ s.Sizes).erase abound)]
                rfl
              · rfl

/-- An insertion keeps the ranges apart and adds its addresses. -/
theorem insert_spec {map : List Range} (separated : Separated map) (start stop : Nat) :
    Separated (insert map start stop) ∧
      ∀ x, Within x (insert map start stop) ↔ Within x map ∨ start ≤ x ∧ x < stop := by
  have valid : (⟨map, map⟩ : RangeSizeSet).Valid := ⟨separated, List.Perm.refl _⟩
  have holds := RangeSizeSet.insert_holds valid start stop
  rw [insert_eq ⟨map, map⟩]
  exact ⟨holds.valid.separated, holds.within⟩

end Phocoena.RangeSet
