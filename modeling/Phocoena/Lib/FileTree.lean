import Mathlib.Data.List.Infix

/-! # Trees of files

A file system is what stands under each path, a path being the list of the names on the way from
the root. Whatever exists stands in a directory; so a file has nothing below it, and moving a path
moves everything below it.
-/

namespace Phocoena

inductive FileNode (β : Type) where
  | file (content : β)
  | directory
  deriving DecidableEq

instance FileNode.decidableDirectory {β : Type} :
    (found : Option (FileNode β)) → Decidable (found = some .directory)
  | none => .isFalse (by simp)
  | some (.file _) => .isFalse (by simp)
  | some .directory => .isTrue rfl

@[ext]
structure FileTree (κ β : Type) where
  entry : List κ → Option (FileNode β)
  inDirectory : ∀ path name, entry (path ++ [name]) ≠ none → entry path = some .directory

/-- Neither of two paths leads through the other. -/
def Separate {κ : Type} (p q : List κ) : Prop := ¬ p <+: q ∧ ¬ q <+: p

instance {κ : Type} [DecidableEq κ] (p q : List κ) : Decidable (Separate p q) :=
  inferInstanceAs (Decidable (_ ∧ _))

section
variable {κ : Type} {p q r path : List κ}

theorem Separate.symm (separate : Separate p q) : Separate q p := ⟨separate.2, separate.1⟩

/-- What lies below one of two paths does not lie below the other. -/
theorem Separate.not_below (separate : Separate p q) (below : q <+: path) : ¬ p <+: path :=
  fun other => (List.prefix_or_prefix_of_prefix other below).elim separate.1 separate.2

theorem Separate.append (separate : Separate p q) (below : List κ) : ¬ p <+: q ++ below :=
  separate.not_below (List.prefix_append q below)

/-- Two different names in one directory. -/
theorem separate_siblings {a b : κ} (different : a ≠ b) : Separate (path ++ [a]) (path ++ [b]) := by
  constructor
  · intro below
    have same := List.IsPrefix.eq_of_length below (by simp)
    exact different (by simpa using same)
  · intro below
    have same := List.IsPrefix.eq_of_length below (by simp)
    exact different (by simpa using same.symm)

end

namespace FileTree

variable {κ β : Type} {t t' t'' : FileTree κ β} {p source target path : List κ}

/-- What a path leads to, and everything below it. -/
def subtree (t : FileTree κ β) (path : List κ) : List κ → Option (FileNode β) :=
  fun below => t.entry (path ++ below)

theorem subtree_nil : t.subtree path [] = t.entry path := by
  rw [subtree, List.append_nil]

theorem entry_parent (exists_ : t.entry path ≠ none) (nonempty : path ≠ []) :
    t.entry path.dropLast = some .directory := by
  rw [← List.dropLast_append_getLast nonempty] at exists_
  exact t.inDirectory _ _ exists_

/-- Whatever lies on the way to something that exists is a directory. -/
theorem entry_above {below : List κ} (nonempty : below ≠ [])
    (exists_ : t.entry (path ++ below) ≠ none) : t.entry path = some .directory := by
  induction below using List.reverseRecOn with
  | nil => exact absurd rfl nonempty
  | append_singleton below name ih =>
      rw [← List.append_assoc] at exists_
      have here := t.inDirectory _ _ exists_
      cases below with
      | nil => rwa [List.append_nil] at here
      | cons c below => exact ih (List.cons_ne_nil _ _) (by rw [here]; exact Option.some_ne_none _)

/-! ## Moving -/

variable [DecidableEq κ]

/-- The directories on the way to a path, and the files in the last of them. -/
def directoryAt (above : List κ) (files : κ → Option β) : FileTree κ β where
  entry path :=
    if path <+: above then some .directory
    else if path.dropLast = above then (path.getLast?.bind files).map .file
    else none
  inDirectory path name exists_ := by
    have leads : path <+: above := by
      split at exists_
      · next further => exact (List.prefix_append path [name]).trans further
      · split at exists_
        · next inside =>
            rw [List.dropLast_concat] at inside
            exact inside ▸ List.prefix_rfl
        · exact absurd rfl exists_
    exact if_pos leads

theorem entry_directoryAt (above : List κ) (files : κ → Option β) (name : κ) :
    (directoryAt above files).entry (above ++ [name]) = (files name).map .file := by
  have longer : ¬ above ++ [name] <+: above := by
    intro leads
    have := leads.length_le
    rw [List.length_append, List.length_singleton] at this
    omega
  simp [directoryAt, longer]

/-- What can be moved where: it exists, and goes into a directory that is not below it, in the
place of something that it is not below. -/
structure CanMove (t : FileTree κ β) (source target : List κ) : Prop where
  here : t.entry source ≠ none
  parent : t.entry target.dropLast = some .directory
  separate : Separate source target

instance : Decidable (t.CanMove source target) :=
  decidable_of_iff (t.entry source ≠ none ∧ t.entry target.dropLast = some .directory ∧
    Separate source target) ⟨fun ⟨here, parent, separate⟩ => ⟨here, parent, separate⟩,
      fun can => ⟨can.here, can.parent, can.separate⟩⟩

/-- What stands under a path when everything under `source` is under `to`. -/
def movedEntry (t : FileTree κ β) (source target path : List κ) : Option (FileNode β) :=
  if target <+: path then t.entry (source ++ path.drop target.length)
  else if source <+: path then none
  else t.entry path

theorem movedEntry_inDirectory (can : t.CanMove source target) (path : List κ) (name : κ)
    (exists_ : t.movedEntry source target (path ++ [name]) ≠ none) :
    t.movedEntry source target path = some .directory := by
  have nonempty : target ≠ [] := fun empty => can.separate.2 (empty ▸ List.nil_prefix)
  by_cases below : target <+: path
  · obtain ⟨rest, rfl⟩ := below
    rw [movedEntry, List.append_assoc, if_pos (List.prefix_append _ _), List.drop_left,
      ← List.append_assoc] at exists_
    rw [movedEntry, if_pos (List.prefix_append _ _), List.drop_left]
    exact t.inDirectory _ _ exists_
  · by_cases last : target = path ++ [name]
    · have parent := can.parent
      rw [last, List.dropLast_concat] at parent
      have outside : ¬ source <+: path := fun above =>
        can.separate.1 (last ▸ above.trans (List.prefix_append _ _))
      rw [movedEntry, if_neg below, if_neg outside, parent]
    · have notBelow : ¬ target <+: path ++ [name] :=
        fun above => (List.prefix_concat_iff.mp above).elim last below
      rw [movedEntry, if_neg notBelow] at exists_
      split at exists_
      · exact absurd rfl exists_
      · next outside =>
          have outside' : ¬ source <+: path :=
            fun above => outside (above.trans (List.prefix_append _ _))
          rw [movedEntry, if_neg below, if_neg outside']
          exact t.inDirectory _ _ exists_

/-- The tree in which a path and everything below it has been moved. -/
def moved (t : FileTree κ β) (can : t.CanMove source target) : FileTree κ β :=
  ⟨t.movedEntry source target, movedEntry_inDirectory can⟩

section
variable (can : t.CanMove source target)

@[simp] theorem moved_entry (path : List κ) :
    (t.moved can).entry path = t.movedEntry source target path := rfl

/-- The target holds what the source held. -/
theorem subtree_moved : (t.moved can).subtree target = t.subtree source := by
  funext below
  rw [subtree, moved_entry, movedEntry, if_pos (List.prefix_append _ _), List.drop_left, subtree]

/-- Nothing is left at the source. -/
theorem subtree_moved_source : (t.moved can).subtree source = fun _ => none := by
  funext below
  rw [subtree, moved_entry, movedEntry, if_neg (can.separate.symm.append below),
    if_pos (List.prefix_append _ _)]

theorem entry_moved_of_not_below (notTarget : ¬ target <+: path) (notSource : ¬ source <+: path) :
    (t.moved can).entry path = t.entry path := by
  rw [moved_entry, movedEntry, if_neg notTarget, if_neg notSource]

/-- Everything apart from the two paths stays where it is. -/
theorem subtree_moved_of_separate (fromSource : Separate source path) (fromTarget : Separate target path) :
    (t.moved can).subtree path = t.subtree path :=
  funext fun below => entry_moved_of_not_below can (fromTarget.append below) (fromSource.append below)

theorem entry_moved : (t.moved can).entry target = t.entry source := by
  rw [← subtree_nil, subtree_moved, subtree_nil]

theorem entry_moved_source : (t.moved can).entry source = none := by
  rw [← subtree_nil, subtree_moved_source]

/-- What has been moved can be moved back. -/
theorem CanMove.back : (t.moved can).CanMove target source where
  here := by
    rw [entry_moved can]
    exact can.here
  parent := by
    have nonempty : source ≠ [] := fun empty => can.separate.1 (empty ▸ List.nil_prefix)
    have above := List.dropLast_prefix source
    have notTarget : ¬ target <+: source.dropLast := fun leads => can.separate.2 (leads.trans above)
    have notSource : ¬ source <+: source.dropLast := by
      intro leads
      have shorter := leads.length_le
      have := List.length_pos_iff.mpr nonempty
      rw [List.length_dropLast] at shorter
      omega
    rw [entry_moved_of_not_below can notTarget notSource]
    exact entry_parent can.here nonempty
  separate := can.separate.symm

/-- A move to a path where nothing stood is undone by the move back. -/
theorem moved_back (free : t.entry target = none) (back : (t.moved can).CanMove target source) :
    (t.moved can).moved back = t := by
  have nothing : ∀ below, t.entry (target ++ below) = none := by
    intro below
    by_contra exists_
    cases below with
    | nil => exact exists_ (by rw [List.append_nil, free])
    | cons c below =>
        have here := entry_above (List.cons_ne_nil c below) exists_
        rw [free] at here
        cases here
  refine FileTree.ext (funext fun path => ?_)
  by_cases belowSource : source <+: path
  · obtain ⟨below, rfl⟩ := belowSource
    have returned := congrFun (subtree_moved back) below
    exact returned.trans (congrFun (subtree_moved can) below)
  · by_cases belowTarget : target <+: path
    · obtain ⟨below, rfl⟩ := belowTarget
      rw [nothing below]
      exact congrFun (subtree_moved_source back) below
    · rw [entry_moved_of_not_below back belowSource belowTarget,
        entry_moved_of_not_below can belowTarget belowSource]

end

/-! ## Removing -/

/-- The tree without a file. -/
def removeFile (t : FileTree κ β) (path : List κ) : FileTree κ β :=
  match file : t.entry path with
  | some (.file _) =>
      ⟨fun p => if p = path then none else t.entry p, by
        intro above name exists_
        split at exists_
        · exact absurd rfl exists_
        · have directory := t.inDirectory _ _ exists_
          have different : above ≠ path := by
            rintro rfl
            rw [file] at directory
            cases directory
          rw [if_neg different, directory]⟩
  | _ => t

theorem entry_removeFile_of_ne (different : p ≠ path) :
    (t.removeFile path).entry p = t.entry p := by
  rw [removeFile]
  split
  · exact if_neg different
  · rfl

theorem subtree_removeFile (separate : Separate path p) :
    (t.removeFile path).subtree p = t.subtree p := by
  funext below
  have different : p ++ below ≠ path := fun same => separate.2 (same ▸ List.prefix_append p below)
  exact entry_removeFile_of_ne different

end FileTree

end Phocoena

/-! ## Moving several files

A sequence of moves, each to a path where nothing stands. When no path of it leads through another
one, every target holds in the end what its source held, nothing else has changed, and the moves
back in reverse order restore everything.
-/

namespace Phocoena.FileTree

variable {κ β : Type} {t t' t'' : FileTree κ β} {plan more : List (List κ × List κ)}
  {source target path : List κ} {r : List κ × List κ}

/-! ## Plans -/

/-- Moves that do not get in each other's way. -/
structure Plan (t : FileTree κ β) (plan : List (List κ × List κ)) : Prop where
  separate : (plan.map Prod.fst ++ plan.map Prod.snd).Pairwise Separate
  here : ∀ r ∈ plan, t.entry r.1 ≠ none
  free : ∀ r ∈ plan, t.entry r.2 = none
  parent : ∀ r ∈ plan, t.entry r.2.dropLast = some .directory

/-- The first move gets in the way of no other one. -/
theorem Plan.head_separate (ready : Plan t ((source, target) :: plan)) (member : r ∈ plan) :
    (Separate source r.1 ∧ Separate source r.2) ∧ Separate target r.1 ∧ Separate target r.2 := by
  have all := ready.separate
  simp only [List.map_cons, List.cons_append, List.pairwise_cons, List.pairwise_append,
    List.mem_append, List.mem_map, List.mem_cons] at all
  obtain ⟨fromSource, -, ⟨fromTarget, -⟩, across⟩ := all
  exact ⟨⟨fromSource _ (.inl ⟨r, member, rfl⟩), fromSource _ (.inr (.inr ⟨r, member, rfl⟩))⟩,
    (across _ ⟨r, member, rfl⟩ _ (.inl rfl)).symm, fromTarget _ ⟨r, member, rfl⟩⟩

theorem Plan.can (ready : Plan t ((source, target) :: plan)) : t.CanMove source target where
  here := ready.here _ List.mem_cons_self
  parent := ready.parent _ List.mem_cons_self
  separate := by
    have all := ready.separate
    simp only [List.map_cons, List.cons_append, List.pairwise_cons] at all
    exact all.1 target (by simp)

variable [DecidableEq κ]

/-- The rest of a plan is still one after its first move. -/
theorem Plan.step (ready : Plan t ((source, target) :: plan)) :
    Plan (t.moved ready.can) plan where
  separate := by
    have all := ready.separate
    simp only [List.map_cons, List.cons_append, List.pairwise_cons] at all
    exact all.2.sublist ((List.Sublist.refl _).append (List.sublist_cons_self target _))
  here r member := by
    have apart := ready.head_separate member
    rw [← subtree_nil, subtree_moved_of_separate _ apart.1.1 apart.2.1, subtree_nil]
    exact ready.here r (List.mem_cons_of_mem _ member)
  free r member := by
    have apart := ready.head_separate member
    rw [← subtree_nil, subtree_moved_of_separate _ apart.1.2 apart.2.2, subtree_nil]
    exact ready.free r (List.mem_cons_of_mem _ member)
  parent r member := by
    have apart := ready.head_separate member
    have above := List.dropLast_prefix r.2
    rw [entry_moved_of_not_below _ (fun leads => apart.2.2.1 (leads.trans above))
      (fun leads => apart.1.2.1 (leads.trans above))]
    exact ready.parent r (List.mem_cons_of_mem _ member)

/-! ## Carrying them out -/

/-- The moves lead from one tree to the other. -/
inductive Moves : FileTree κ β → List (List κ × List κ) → FileTree κ β → Prop where
  | nil {t : FileTree κ β} : Moves t [] t
  | cons {t t' : FileTree κ β} {source target : List κ} {plan : List (List κ × List κ)}
      (can : t.CanMove source target) (free : t.entry target = none)
      (rest : Moves (t.moved can) plan t') : Moves t ((source, target) :: plan) t'

theorem Moves.append (first : Moves t plan t') (second : Moves t' more t'') :
    Moves t (plan ++ more) t'' := by
  induction first with
  | nil => exact second
  | cons can free _ ih => exact .cons can free (ih second)

/-- The moves back, the last one first. -/
theorem Moves.undo (moves : Moves t plan t') : Moves t' (plan.reverse.map Prod.swap) t := by
  induction moves with
  | nil => exact .nil
  | @cons t t' source target plan can free rest ih =>
      rw [List.reverse_cons, List.map_append]
      have back : (t.moved can).CanMove target source := .back can
      have last : Moves (t.moved can) [(target, source)] ((t.moved can).moved back) :=
        .cons back (entry_moved_source can) .nil
      rw [moved_back can free back] at last
      exact ih.append last

/-- What lies apart from all the moves stays where it is. -/
theorem Moves.subtree_other (moves : Moves t plan t')
    (separate : ∀ r ∈ plan, Separate r.1 path ∧ Separate r.2 path) :
    t'.subtree path = t.subtree path := by
  induction moves with
  | nil => rfl
  | cons can _ _ ih =>
      have first := separate _ List.mem_cons_self
      rw [ih fun r member => separate r (List.mem_cons_of_mem _ member),
        subtree_moved_of_separate can first.1 first.2]

theorem Moves.entry_other (moves : Moves t plan t')
    (outside : ∀ r ∈ plan, ¬ r.1 <+: path ∧ ¬ r.2 <+: path) : t'.entry path = t.entry path := by
  induction moves with
  | nil => rfl
  | cons can _ _ ih =>
      have first := outside _ List.mem_cons_self
      rw [ih fun r member => outside r (List.mem_cons_of_mem _ member),
        entry_moved_of_not_below can first.2 first.1]

/-- Every target holds what its source held. -/
theorem Moves.subtree_target (moves : Moves t plan t') (ready : Plan t plan) (member : r ∈ plan) :
    t'.subtree r.2 = t.subtree r.1 := by
  induction moves with
  | nil => cases member
  | cons can _ rest ih =>
      cases member with
      | head =>
          rw [rest.subtree_other fun r member =>
            ⟨(ready.head_separate member).2.1.symm, (ready.head_separate member).2.2.symm⟩,
            subtree_moved can]
      | tail _ member =>
          have apart := ready.head_separate member
          rw [ih ready.step member, subtree_moved_of_separate can apart.1.1 apart.2.1]

/-- Nothing is left at a source. -/
theorem Moves.entry_source (moves : Moves t plan t') (ready : Plan t plan) (member : r ∈ plan) :
    t'.entry r.1 = none := by
  induction moves with
  | nil => cases member
  | cons can _ rest ih =>
      cases member with
      | head =>
          rw [← subtree_nil, rest.subtree_other fun r member =>
            ⟨(ready.head_separate member).1.1.symm, (ready.head_separate member).1.2.symm⟩,
            subtree_nil, entry_moved_source can]
      | tail _ member => exact ih ready.step member

end Phocoena.FileTree
