import Phocoena.Horizon.BundleDelivery

/-! # Publishing keeps every bundle

The file that a name stands for is followed through the renamings: `newPath` is where it ends up.
-/

namespace Phocoena.SupportBundles

open Filesystem
open SupportDiagnostics (printInt)

variable {β : Type}

/-- Where the file at a path is after the renamings and the publication. -/
def newPath (delivery_renames : Renames) (now : Int) (archive path : Path) : Path :=
  if path = archive_temp now then archive
  else ((delivery_renames.find? (·.1 = path)).map Prod.snd).getD path

theorem newPath_temp (delivery_renames : Renames) (now : Int) (archive : Path) :
    newPath delivery_renames now archive (archive_temp now) = archive :=
  if_pos rfl

/-- The temporary archive has no bundle's name. -/
theorem archive_temp_ne {label : Name} (now : Int) (middle : Name)
    (known : label = SENT ∨ label = UNSENT ∨ label = []) :
    archive_temp now ≠ bundle (bundleName label middle) := by
  intro same
  have first := congrArg List.head? (bundle_injective same)
  obtain rfl | rfl | rfl := known
  · exact (by decide : some '.' ≠ some 'S') first
  · exact (by decide : some '.' ≠ some 'U') first
  · exact (by decide : some '.' ≠ some 'P') first

theorem archive_name (now : Int) :
    UNSENT ++ bundle_base now ++ zip = bundleName UNSENT (printInt now) := by
  unfold bundle_base bundleName
  exact congrArg (· ++ zip) (List.append_assoc _ _ _).symm

/-- The older bundles have been marked: the trees before and after. -/
structure Marking (listing : List Name) (now : Int) (delivery_renames : Renames)
    (before marked : Files β) : Prop where
  ready : Ready before listing now
  planned : Planned before listing delivery_renames
  moves : before.Moves delivery_renames marked

/-- And the archive has been published under a name that was free then. -/
structure Delivery (listing : List Name) (now : Int) (delivery_renames : Renames) (archive : Path)
    (before marked after : Files β) : Prop
    extends Marking listing now delivery_renames before marked where
  absent : marked.entry archive = none
  unplanned : archive ∉ delivery_renames.map Prod.snd
  unsent : ∃ middle, archive = bundle (bundleName UNSENT middle)
  published : ∃ can : marked.CanMove (archive_temp now) archive, after = marked.moved can

namespace Marking

variable {listing : List Name} {now : Int} {delivery_renames : Renames}
  {before marked : Files β} {name : Name} {r : Path × Path}
  (marking : Marking listing now delivery_renames before marked)
include marking

theorem plan : before.Plan delivery_renames := marking.planned.plan marking.ready

/-- The temporary archive is apart from the renamings. -/
theorem temp_ne (member : r ∈ delivery_renames) :
    r.1 ≠ archive_temp now ∧ r.2 ≠ archive_temp now := by
  constructor
  · intro same
    obtain ⟨name, -, old, source⟩ := marking.planned.source member
    obtain ⟨-, middle, rfl | rfl⟩ := older_spec old
    · exact archive_temp_ne now middle (.inr (.inl rfl)) (same.symm.trans source)
    · exact archive_temp_ne now middle (.inr (.inr rfl)) (same.symm.trans source)
  · intro same
    obtain ⟨-, middle, target⟩ := marking.planned.target r member
    exact archive_temp_ne now middle (.inl rfl) (same.symm.trans target)

/-- What the renamings do not name is where it was when they are done. -/
theorem marked_other (other : ∀ r ∈ delivery_renames, r.1 ≠ bundle name ∧ r.2 ≠ bundle name) :
    marked.subtree (bundle name) = before.subtree (bundle name) := by
  refine marking.moves.subtree_other fun r member => ?_
  obtain ⟨source, -, -, atSource⟩ := marking.planned.source member
  obtain ⟨-, middle, atTarget⟩ := marking.planned.target r member
  obtain ⟨notSource, notTarget⟩ := other r member
  rw [atSource] at notSource ⊢
  rw [atTarget] at notTarget ⊢
  exact ⟨separate_bundles notSource, separate_bundles notTarget⟩

/-- What is there then is a target or was there before, and no older bundle. -/
theorem marked_here (here : marked.entry (bundle name) ≠ none) :
    (∃ r ∈ delivery_renames, r.2 = bundle name) ∨ name ∈ listing ∧ older before name = false := by
  by_cases isTarget : ∃ r ∈ delivery_renames, r.2 = bundle name
  · exact .inl isTarget
  · have notSource : ∀ r ∈ delivery_renames, r.1 ≠ bundle name := fun r planned same =>
      here (same ▸ marking.moves.entry_source marking.plan planned)
    have stayed := marking.marked_other fun r planned =>
      ⟨notSource r planned, fun same => isTarget ⟨r, planned, same⟩⟩
    rw [← FileTree.subtree_nil, stayed, FileTree.subtree_nil] at here
    have listed := (marking.ready.lists name).mpr here
    refine .inr ⟨listed, ?_⟩
    rw [← Bool.not_eq_true]
    intro old
    obtain ⟨r, planned, source⟩ := marking.planned.of_older listed old
    exact notSource r planned source

/-- There is still a name for the archive. -/
theorem archive_exists (middle : Name) :
    ∃ archive, unique_bundle_path marked delivery_renames (2 * listing.length + 1)
      (bundle (bundleName UNSENT middle)) = some archive := by
  have shorter : delivery_renames.length ≤ listing.length := by
    have lengths := congrArg List.length marking.planned.sources
    rw [List.length_map, List.length_map] at lengths
    exact lengths ▸ List.length_filter_le _ _
  apply unique_bundle_path_exists UNSENT middle
    (listing.map bundle ++ delivery_renames.map Prod.snd)
  · intro name taken
    cases path_is_taken_iff.mp taken with
    | inr planned => exact List.mem_append_right _ planned
    | inl here =>
        obtain ⟨r, planned, target⟩ | ⟨listed, -⟩ := marking.marked_here here
        · exact List.mem_append_right _ (target ▸ List.mem_map_of_mem planned)
        · exact List.mem_append_left _ (List.mem_map_of_mem listed)
  · simp only [List.length_append, List.length_map]
    omega

end Marking

namespace Delivery

variable {listing : List Name} {now : Int} {delivery_renames : Renames} {archive : Path}
  {before marked after : Files β} {name name' : Name} {r : Path × Path}
  (delivery : Delivery listing now delivery_renames archive before marked after)
include delivery

theorem newPath_source (member : r ∈ delivery_renames) :
    newPath delivery_renames now archive r.1 = r.2 := by
  have sources : (delivery_renames.map Prod.fst).Nodup := by
    rw [delivery.planned.sources]
    exact List.Nodup.map (fun _ _ => bundle_injective) (delivery.ready.once.filter _)
  have found : delivery_renames.find? (·.1 = r.1) = some r := by
    cases result : delivery_renames.find? (·.1 = r.1) with
    | none => simpa using List.find?_eq_none.mp result r member
    | some r' =>
        have same : r'.1 = r.1 := by simpa using List.find?_some result
        rw [List.inj_on_of_nodup_map sources (List.mem_of_find?_eq_some result) member same]
  rw [newPath, if_neg (delivery.temp_ne member).1, found]
  rfl

theorem newPath_kept (member : name ∈ listing) (newer : older before name = false)
    (other : bundle name ≠ archive_temp now) :
    newPath delivery_renames now archive (bundle name) = bundle name := by
  have missing : delivery_renames.find? (·.1 = bundle name) = none := by
    refine List.find?_eq_none.mpr fun r planned => ?_
    obtain ⟨name', -, old, source⟩ := delivery.planned.source planned
    rw [decide_eq_true_eq]
    intro same
    obtain rfl := bundle_injective (source.symm.trans same)
    rw [old] at newer
    cases newer
  rw [newPath, if_neg other, missing]
  rfl

theorem after_archive : after.subtree archive = before.subtree (archive_temp now) := by
  obtain ⟨can, rfl⟩ := delivery.published
  rw [FileTree.subtree_moved]
  exact delivery.marked_other fun r member => delivery.temp_ne member

theorem after_temp : after.entry (archive_temp now) = none := by
  obtain ⟨can, rfl⟩ := delivery.published
  exact FileTree.entry_moved_source can

theorem after_other (notArchive : bundle name ≠ archive) (notTemp : bundle name ≠ archive_temp now) :
    after.subtree (bundle name) = marked.subtree (bundle name) := by
  obtain ⟨middle, unsent⟩ := delivery.unsent
  obtain ⟨can, rfl⟩ := delivery.published
  rw [unsent] at notArchive
  exact FileTree.subtree_moved_of_separate can (separate_bundles notTemp.symm)
    (unsent ▸ separate_bundles notArchive.symm)

theorem temp_listed : ∃ name ∈ listing, bundle name = archive_temp now := by
  obtain ⟨content, here⟩ := delivery.ready.archive
  refine ⟨_, (delivery.ready.lists _).mpr ?_, rfl⟩
  rw [← archive_temp, here]
  exact Option.some_ne_none _

/-! ### What becomes of a file -/

theorem target_ne_archive (member : r ∈ delivery_renames) : r.2 ≠ archive :=
  fun same => delivery.unplanned (same ▸ List.mem_map_of_mem member)

theorem after_target (member : r ∈ delivery_renames) :
    after.subtree r.2 = before.subtree r.1 := by
  have moved := delivery.moves.subtree_target delivery.plan member
  have notArchive := delivery.target_ne_archive member
  have notTemp := (delivery.temp_ne member).2
  obtain ⟨-, middle, target⟩ := delivery.planned.target r member
  rw [target] at moved notArchive notTemp ⊢
  rw [delivery.after_other notArchive notTemp, moved]

/-- A file that is neither an older bundle nor the archive is in nobody's way. -/
theorem kept_spec (member : name ∈ listing) (newer : older before name = false)
    (other : bundle name ≠ archive_temp now) :
    (∀ r ∈ delivery_renames, r.2 ≠ bundle name) ∧ bundle name ≠ archive ∧
      after.subtree (bundle name) = before.subtree (bundle name) := by
  have here := (delivery.ready.lists name).mp member
  have notTarget : ∀ r ∈ delivery_renames, r.2 ≠ bundle name := by
    intro r planned same
    exact here (same ▸ (delivery.planned.target r planned).1)
  have notSource : ∀ r ∈ delivery_renames, r.1 ≠ bundle name := by
    intro r planned same
    obtain ⟨name', -, old, source⟩ := delivery.planned.source planned
    obtain rfl := bundle_injective (source.symm.trans same)
    rw [old] at newer
    cases newer
  have marked_same := delivery.marked_other fun r planned =>
    ⟨notSource r planned, notTarget r planned⟩
  have notArchive : bundle name ≠ archive := by
    intro same
    rw [← FileTree.subtree_nil, ← marked_same, FileTree.subtree_nil, same] at here
    exact here delivery.absent
  exact ⟨notTarget, notArchive, (delivery.after_other notArchive other).trans marked_same⟩

/-- The three kinds of files: the archive, the older bundles and the others. -/
theorem fates (member : name ∈ listing) :
    bundle name = archive_temp now ∨ (∃ r ∈ delivery_renames, r.1 = bundle name) ∨
      older before name = false ∧ bundle name ≠ archive_temp now := by
  by_cases temp : bundle name = archive_temp now
  · exact .inl temp
  · cases old : older before name with
    | true => exact .inr (.inl (delivery.planned.of_older member old))
    | false => exact .inr (.inr ⟨rfl, temp⟩)

theorem newPath_content (member : name ∈ listing) :
    after.subtree (newPath delivery_renames now archive (bundle name))
      = before.subtree (bundle name) := by
  obtain temp | ⟨r, planned, source⟩ | ⟨newer, other⟩ := delivery.fates member
  · rw [temp, newPath_temp, delivery.after_archive]
  · rw [← source, delivery.newPath_source planned, delivery.after_target planned]
  · rw [delivery.newPath_kept member newer other]
    exact (delivery.kept_spec member newer other).2.2

theorem newPath_injective (member : name ∈ listing) (member' : name' ∈ listing)
    (same : newPath delivery_renames now archive (bundle name)
      = newPath delivery_renames now archive (bundle name')) : name = name' := by
  apply bundle_injective
  obtain temp | ⟨r, planned, source⟩ | ⟨newer, other⟩ := delivery.fates member <;>
    obtain temp' | ⟨r', planned', source'⟩ | ⟨newer', other'⟩ := delivery.fates member'
  · exact temp.trans temp'.symm
  · rw [temp, newPath_temp, ← source', delivery.newPath_source planned'] at same
    exact absurd same.symm (delivery.target_ne_archive planned')
  · rw [temp, newPath_temp, delivery.newPath_kept member' newer' other'] at same
    exact absurd same.symm (delivery.kept_spec member' newer' other').2.1
  · rw [temp', newPath_temp, ← source, delivery.newPath_source planned] at same
    exact absurd same (delivery.target_ne_archive planned)
  · rw [← source, ← source', delivery.newPath_source planned,
      delivery.newPath_source planned'] at same
    have one := List.inj_on_of_nodup_map delivery.planned.distinct planned planned' same
    rw [← source, ← source', one]
  · rw [← source, delivery.newPath_source planned,
      delivery.newPath_kept member' newer' other'] at same
    exact absurd same ((delivery.kept_spec member' newer' other').1 r planned)
  · rw [temp', newPath_temp, delivery.newPath_kept member newer other] at same
    exact absurd same (delivery.kept_spec member newer other).2.1
  · rw [← source', delivery.newPath_source planned',
      delivery.newPath_kept member newer other] at same
    exact absurd same.symm ((delivery.kept_spec member newer other).1 r' planned')
  · rwa [delivery.newPath_kept member newer other,
      delivery.newPath_kept member' newer' other'] at same

/-- Whatever is there in the end was there before, perhaps under another name. -/
theorem newPath_onto (here : after.entry (bundle name) ≠ none) :
    ∃ old ∈ listing, newPath delivery_renames now archive (bundle old) = bundle name := by
  obtain ⟨temp, listed, named⟩ := delivery.temp_listed
  by_cases isArchive : bundle name = archive
  · exact ⟨temp, listed, by rw [named, newPath_temp, isArchive]⟩
  · have notTemp : bundle name ≠ archive_temp now := fun same => here (same ▸ delivery.after_temp)
    rw [← FileTree.subtree_nil, delivery.after_other isArchive notTemp, FileTree.subtree_nil] at here
    obtain ⟨r, planned, target⟩ | ⟨listed, newer⟩ := delivery.marked_here here
    · obtain ⟨old, listed, -, source⟩ := delivery.planned.source planned
      exact ⟨old, listed, by rw [← source, delivery.newPath_source planned, target]⟩
    · exact ⟨name, listed, delivery.newPath_kept listed newer notTemp⟩

/-- Nothing outside the directory is touched. -/
theorem after_outside {path : Path} (outside : ∀ name, ¬ bundle name <+: path) :
    after.entry path = before.entry path := by
  obtain ⟨middle, unsent⟩ := delivery.unsent
  have stayed : marked.entry path = before.entry path := by
    refine delivery.moves.entry_other fun r member => ?_
    obtain ⟨source, -, -, atSource⟩ := delivery.planned.source member
    obtain ⟨-, target, atTarget⟩ := delivery.planned.target r member
    exact ⟨atSource ▸ outside source, atTarget ▸ outside _⟩
  obtain ⟨can, rfl⟩ := delivery.published
  rw [FileTree.entry_moved_of_not_below can (unsent ▸ outside _) (outside _), stayed]

/-- The archive's name was free, or that of an older bundle. -/
theorem archive_free : before.entry archive = none ∨
    ∃ name ∈ listing, older before name = true ∧ bundle name = archive := by
  by_cases isSource : ∃ r ∈ delivery_renames, r.1 = archive
  · obtain ⟨r, planned, rfl⟩ := isSource
    obtain ⟨name, listed, old, source⟩ := delivery.planned.source planned
    exact .inr ⟨name, listed, old, source.symm⟩
  · obtain ⟨middle, unsent⟩ := delivery.unsent
    have absent := delivery.absent
    have stayed : marked.subtree (bundle (bundleName UNSENT middle))
        = before.subtree (bundle (bundleName UNSENT middle)) := delivery.marked_other fun r planned =>
      ⟨fun same => isSource ⟨r, planned, unsent ▸ same⟩,
        unsent ▸ delivery.target_ne_archive planned⟩
    rw [← unsent] at stayed
    rw [← FileTree.subtree_nil, stayed, FileTree.subtree_nil] at absent
    exact .inl absent

end Delivery

/-! ## A call -/

/-- What holds when the archive has been published: where each file of the directory is now. -/
structure Published (listing : List Name) (now : Int) (before after : Files β) (archive : Path)
    (newPath : Path → Path) : Prop where
  injective : ∀ name ∈ listing, ∀ name' ∈ listing,
    newPath (bundle name) = newPath (bundle name') → name = name'
  content : ∀ name ∈ listing,
    after.subtree (newPath (bundle name)) = before.subtree (bundle name)
  nothing_else : ∀ name, after.entry (bundle name) ≠ none →
    ∃ old ∈ listing, newPath (bundle old) = bundle name
  sent : ∀ name ∈ listing, older before name = true →
    before.entry (newPath (bundle name)) = none ∧
      ∃ middle, newPath (bundle name) = bundle (bundleName SENT middle)
  kept : ∀ name ∈ listing, older before name = false → bundle name ≠ archive_temp now →
    newPath (bundle name) = bundle name
  unsent : newPath (archive_temp now) = archive ∧
    ∃ middle, archive = bundle (bundleName UNSENT middle)
  archive_free : before.entry archive = none ∨
    ∃ name ∈ listing, older before name = true ∧ bundle name = archive
  one_unsent : ∀ name content, "UNSENT_Phocoena-Support-".toList <+: name → zip <:+ name →
    after.entry (bundle name) = some (.file content) → bundle name = archive
  outside : ∀ path, (∀ name, ¬ bundle name <+: path) → after.entry path = before.entry path

theorem Delivery.result {listing : List Name} {now : Int} {delivery_renames : Renames}
    {archive : Path} {before marked after : Files β}
    (delivery : Delivery listing now delivery_renames archive before marked after) :
    Published listing now before after archive (newPath delivery_renames now archive) where
  injective name listed name' listed' same := delivery.newPath_injective listed listed' same
  content name listed := delivery.newPath_content listed
  nothing_else name here := delivery.newPath_onto here
  sent name listed old := by
    obtain ⟨r, planned, source⟩ := delivery.planned.of_older listed old
    rw [← source, delivery.newPath_source planned]
    exact delivery.planned.target r planned
  kept name listed newer other := delivery.newPath_kept listed newer other
  unsent := ⟨newPath_temp delivery_renames now archive, delivery.unsent⟩
  archive_free := delivery.archive_free
  one_unsent name content begins ends file := by
    have here : after.entry (bundle name) ≠ none := by rw [file]; exact Option.some_ne_none _
    obtain ⟨old, listed, moved⟩ := delivery.newPath_onto here
    obtain temp | ⟨r, planned, source⟩ | ⟨newer, other⟩ := delivery.fates listed
    · rw [← moved, temp, newPath_temp]
    · rw [← source, delivery.newPath_source planned] at moved
      obtain ⟨-, middle, target⟩ := delivery.planned.target r planned
      obtain rfl := bundle_injective (target.symm.trans moved)
      obtain ⟨rest, same⟩ := begins
      have first := congrArg List.head? same
      exact absurd first (by decide : some 'U' ≠ some 'S')
    · have stayed := delivery.newPath_kept listed newer other
      obtain rfl := bundle_injective (stayed.symm.trans moved)
      have same := (delivery.kept_spec listed newer other).2.2
      rw [← FileTree.subtree_nil, same, FileTree.subtree_nil] at file
      have renamed : sent_name old = some (SENT ++ old.drop UNSENT.length) :=
        if_pos ⟨begins, ends⟩
      simp [older, is_regular_file_of_file file, renamed] at newer
  outside path outside := delivery.after_outside outside

section
variable {replaces : Bool} {results : Results} {listing : List Name} {now : Int} {files : Files β}

/-- A call that fails has only removed the archive. -/
theorem fail_bundle_spec (error : Name) (files : Files β) {path : Path}
    (other : path ≠ archive_temp now) :
    (fail_bundle results now error files).files.entry path = files.entry path := by
  rw [fail_bundle, remove]
  split
  · exact FileTree.entry_removeFile_of_ne other
  · rfl

end

/-- A device that reports no error. -/
def Results.fine : Results := ⟨none, fun _ => none, fun _ _ => none, fun _ _ => none, none⟩

/-- A bundle of the same second, another archive, and the new archive. -/
def sameSecond : List Name :=
  ["UNSENT_Phocoena-Support-5.zip".toList, "UNSENT_notes.zip".toList,
    ".Phocoena-Support-5.zip.tmp".toList]

/-- A directory with nothing but these files. -/
def filesOf (listing : List Name) : Files Nat :=
  .directoryAt BundlesRoot fun name => if name ∈ listing then some (listing.idxOf name) else none

theorem ready_sameSecond : Ready (filesOf sameSecond) sameSecond 5 where
  lists name := by
    rw [filesOf, bundle, FileTree.entry_directoryAt]
    by_cases listed : name ∈ sameSecond <;> simp [listed]
  once := by decide
  archive := ⟨2, by decide⟩

end Phocoena.SupportBundles
