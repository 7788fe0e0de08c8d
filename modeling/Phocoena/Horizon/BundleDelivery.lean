import Mathlib.Data.List.Nodup
import Mathlib.Data.List.Perm.Subperm
import Phocoena.Lib.FileTree
import Phocoena.Horizon.SupportBundles

/-! # No support bundle is lost

What the rename phase of `GenerateSupportBundle` does with the files of the bundles directory: when
it succeeds each of them is still there, under one name, and when it fails each of them has its
old name.
-/

namespace Phocoena.SupportBundles

open Filesystem
open SupportDiagnostics (printInt newline)

variable {β : Type}

/-! ## Names -/

/-- The name of a bundle: its label, and what is between the fixed parts. -/
def bundleName (label middle : Name) : Name := label ++ "Phocoena-Support-".toList ++ middle ++ zip

/-- A beginning and an end that cannot overlap, since the last character of the one is not in the
other. -/
theorem exists_between {α : Type} (head : List α) (c : α) {tail name : List α}
    (begins : head ++ [c] <+: name) (ends : tail <:+ name) (absent : c ∉ tail) :
    ∃ middle, name = head ++ [c] ++ middle ++ tail := by
  obtain ⟨rest, rfl⟩ := begins
  cases List.suffix_or_suffix_of_suffix ends (List.suffix_append _ rest) with
  | inl inside =>
      obtain ⟨middle, rfl⟩ := inside
      exact ⟨middle, by simp⟩
  | inr across =>
      obtain ⟨overlap, rfl⟩ := across
      cases overlap using List.reverseRecOn with
      | nil => exact ⟨[], by simp⟩
      | append_singleton overlap d =>
          obtain ⟨before, same⟩ := ends
          have last : before ++ overlap ++ [d] = head ++ [c] := by
            have joined : before ++ overlap ++ [d] ++ rest = head ++ [c] ++ rest := by
              simpa using same
            exact List.append_cancel_right joined
          have : d = c := by simpa using congrArg List.getLast? last
          exact absurd (by simp [this]) absent

theorem sent_name_spec {name sent : Name} (renamed : sent_name name = some sent) :
    ∃ middle, sent = bundleName SENT middle ∧
      (name = bundleName UNSENT middle ∨ name = bundleName [] middle) := by
  have dash : '-' ∉ zip := by decide
  rw [sent_name] at renamed
  split at renamed
  · next unsent =>
      obtain ⟨middle, rfl⟩ := exists_between "UNSENT_Phocoena-Support".toList '-' unsent.1
        unsent.2 dash
      exact ⟨middle, (Option.some.inj renamed).symm, .inl rfl⟩
  · split at renamed
    · next legacy =>
        obtain ⟨middle, rfl⟩ := exists_between "Phocoena-Support".toList '-' legacy.1
          legacy.2 dash
        exact ⟨middle, (Option.some.inj renamed).symm, .inr rfl⟩
    · cases renamed

theorem stem_zip {name : Name} (nonempty : name ≠ []) : stem (name ++ zip) = name := by
  have before : (((name ++ zip).reverse.dropWhile (· ≠ '.')).drop 1).reverse = name := by
    simp [zip, List.dropWhile]
  have longer : name ++ zip ≠ ['.', '.'] := by
    intro same
    have := congrArg List.length same
    simp [zip] at this
  rw [stem, before, if_neg (by simp [nonempty, longer])]

theorem extension_zip {name : Name} (nonempty : name ≠ []) : extension (name ++ zip) = zip := by
  rw [extension, stem_zip nonempty, List.drop_left]

theorem suffixed_bundle (label middle : Name) (suffix : Nat) :
    suffixed (bundle (bundleName label middle)) suffix
      = bundle (bundleName label (middle ++ '-' :: Nat.toDigits 10 suffix)) := by
  have nonempty : label ++ "Phocoena-Support-".toList ++ middle ≠ [] := by simp
  simp only [suffixed, bundle, List.dropLast_concat, List.getLastD_concat, bundleName,
    stem_zip nonempty, extension_zip nonempty]
  simp

theorem bundle_injective {name name' : Name} (same : bundle name = bundle name') : name = name' := by
  simpa [bundle] using same

/-- Bundles under different names are apart. -/
theorem separate_bundles {name name' : Name} (different : bundle name ≠ bundle name') :
    Separate (bundle name) (bundle name') :=
  separate_siblings fun same => different (congrArg bundle same)

/-! ## A name that is not taken -/

section
variable {files : Files β} {delivery_renames : Renames} {candidate desired path : Path}
  {bound suffix : Nat} {label middle : Name}

theorem path_is_taken_iff : path_is_taken files delivery_renames candidate = true ↔
    files.entry candidate ≠ none ∨ candidate ∈ delivery_renames.map Prod.snd := by
  simp [path_is_taken, pathExists, Option.isSome_iff_ne_none]

theorem not_taken_iff : path_is_taken files delivery_renames candidate = false ↔
    files.entry candidate = none ∧ candidate ∉ delivery_renames.map Prod.snd := by
  rw [← Bool.not_eq_true, path_is_taken_iff, not_or, not_not]

theorem nextFree_spec (found : nextFree files delivery_renames desired bound suffix = some path) :
    path_is_taken files delivery_renames path = false ∧ ∃ n, path = suffixed desired n := by
  induction bound generalizing suffix with
  | zero => cases found
  | succ bound ih =>
      rw [nextFree] at found
      split at found
      · exact ih found
      · next free =>
          obtain rfl := Option.some.inj found
          exact ⟨Bool.not_eq_true _ ▸ free, suffix, rfl⟩

/-- A search that ends without a result has seen nothing but names that are taken. -/
theorem nextFree_none (missed : nextFree files delivery_renames desired bound suffix = none)
    {n : Nat} (seen : n < bound) :
    path_is_taken files delivery_renames (suffixed desired (suffix + n)) = true := by
  induction bound generalizing suffix n with
  | zero => cases seen
  | succ bound ih =>
      rw [nextFree] at missed
      split at missed
      · next taken =>
          cases n with
          | zero => exact taken
          | succ n =>
              have later := ih missed (Nat.lt_of_succ_lt_succ seen)
              rwa [Nat.add_assoc, Nat.add_comm 1] at later
      · cases missed

theorem suffixed_injective {n m : Nat}
    (same : suffixed (bundle (bundleName label middle)) n
      = suffixed (bundle (bundleName label middle)) m) : n = m := by
  simp only [suffixed_bundle] at same
  have digits : Nat.toDigits 10 n = Nat.toDigits 10 m := by
    simpa [bundleName] using bundle_injective same
  simpa using congrArg (Nat.ofDigitChars 10 · 0) digits

/-- The name that is chosen is not taken, and it is a bundle's name with the same label. -/
theorem unique_bundle_path_spec
    (found : unique_bundle_path files delivery_renames bound (bundle (bundleName label middle))
      = some path) :
    files.entry path = none ∧ path ∉ delivery_renames.map Prod.snd ∧
      ∃ middle, path = bundle (bundleName label middle) := by
  rw [unique_bundle_path] at found
  split at found
  · next free =>
      obtain rfl := Option.some.inj found
      obtain ⟨absent, unplanned⟩ := not_taken_iff.mp (Bool.not_eq_true _ ▸ free)
      exact ⟨absent, unplanned, middle, rfl⟩
  · obtain ⟨free, n, rfl⟩ := nextFree_spec found
    obtain ⟨absent, unplanned⟩ := not_taken_iff.mp free
    exact ⟨absent, unplanned, _, suffixed_bundle label middle n⟩

/-- There is a name when there are more candidates than names that are taken. -/
theorem unique_bundle_path_exists (label middle : Name) (taken : List Path)
    (all : ∀ name, path_is_taken files delivery_renames (bundle name) = true → bundle name ∈ taken)
    (enough : taken.length < bound) :
    ∃ path, unique_bundle_path files delivery_renames bound (bundle (bundleName label middle))
      = some path := by
  rw [unique_bundle_path]
  split
  · exact ⟨_, rfl⟩
  · cases missed : nextFree files delivery_renames (bundle (bundleName label middle)) bound 2 with
    | some path => exact ⟨path, rfl⟩
    | none =>
        let candidates := (List.range bound).map fun n =>
          suffixed (bundle (bundleName label middle)) (2 + n)
        have distinct : candidates.Nodup :=
          List.Nodup.map (fun n m same => Nat.add_left_cancel (suffixed_injective same))
            List.nodup_range
        have inside : candidates ⊆ taken := by
          intro path member
          obtain ⟨n, seen, rfl⟩ := List.mem_map.mp member
          have here := nextFree_none missed (List.mem_range.mp seen)
          rw [suffixed_bundle] at here ⊢
          exact all _ here
        have fits := (distinct.subperm inside).length_le
        rw [List.length_map, List.length_range] at fits
        omega

end

/-! ## The plan -/

/-- A bundle that is to be marked SENT. -/
def older (files : Files β) (name : Name) : Bool :=
  is_regular_file none files (bundle name) && (sent_name name).isSome

/-- The renamings planned for the files seen so far. -/
structure Planned (files : Files β) (seen : List Name) (delivery_renames : Renames) : Prop where
  sources : delivery_renames.map Prod.fst = (seen.filter (older files)).map bundle
  target : ∀ r ∈ delivery_renames, files.entry r.2 = none ∧
    ∃ middle, r.2 = bundle (bundleName SENT middle)
  distinct : (delivery_renames.map Prod.snd).Nodup

section
variable {results : Results} {files : Files β} {seen entries listing : List Name} {name : Name}
  {delivery_renames planned : Renames} {bound : Nat} {ec : Option ErrorCode} {target : Path}

theorem Planned.nil : Planned files [] [] := by
  constructor <;> simp

theorem Planned.skip (known : Planned files seen delivery_renames) (newer : older files name = false) :
    Planned files (seen ++ [name]) delivery_renames where
  sources := by simp [List.filter_append, newer, known.sources]
  target := known.target
  distinct := known.distinct

theorem Planned.add (known : Planned files seen delivery_renames) (old : older files name = true)
    (absent : files.entry target = none) (unplanned : target ∉ delivery_renames.map Prod.snd)
    (sent : ∃ middle, target = bundle (bundleName SENT middle)) :
    Planned files (seen ++ [name]) (delivery_renames ++ [(bundle name, target)]) where
  sources := by simp [List.filter_append, old, known.sources]
  target r member := by
    cases List.mem_append.mp member with
    | inl before => exact known.target r before
    | inr last =>
        obtain rfl := List.mem_singleton.mp last
        exact ⟨absent, sent⟩
  distinct := by
    rw [List.map_append]
    exact known.distinct.append (List.nodup_singleton target) (by simpa using unplanned)

theorem planRenames_error {error : ErrorCode} (delivery_renames : Renames) :
    planRenames results files bound (some error) entries delivery_renames
      = some (some error, delivery_renames) := by
  cases entries <;> rfl

/-- A loop that ends without an error has planned a renaming for every older bundle. -/
theorem planRenames_spec (known : Planned files seen delivery_renames)
    (done : planRenames results files bound ec entries delivery_renames = some (none, planned)) :
    Planned files (seen ++ entries) planned := by
  induction entries generalizing ec seen delivery_renames with
  | nil =>
      simp only [planRenames, Option.some.injEq, Prod.mk.injEq] at done
      obtain ⟨-, rfl⟩ := done
      simpa using known
  | cons name entries ih =>
      cases ec with
      | some error => simp [planRenames_error] at done
      | none =>
          rw [List.append_cons]
          simp only [planRenames] at done
          split at done
          · next irregular =>
              cases status : results.status name with
              | some error => simp [status, planRenames_error] at done
              | none =>
                  rw [status, Bool.not_eq_true] at irregular
                  exact ih (known.skip (by simp [older, irregular])) done
          · next regular =>
              obtain ⟨content, file⟩ := is_regular_file_eq_true (not_not.mp regular)
              split at done
              · next unlabelled => exact ih (known.skip (by simp [older, unlabelled])) done
              · next sent renamed =>
                  obtain ⟨middle, rfl, -⟩ := sent_name_spec renamed
                  split at done
                  · cases done
                  · next target found =>
                      obtain ⟨absent, unplanned, labelled⟩ := unique_bundle_path_spec found
                      have old : older files name = true := by
                        simp [older, is_regular_file_of_file file, renamed]
                      exact ih (known.add old absent unplanned labelled) done

/-- What is taken is in the directory or planned. -/
theorem taken_bounded (lists : ∀ name, files.entry (bundle name) ≠ none → name ∈ listing)
    (taken : path_is_taken files delivery_renames (bundle name) = true) :
    bundle name ∈ listing.map bundle ++ delivery_renames.map Prod.snd := by
  cases path_is_taken_iff.mp taken with
  | inl here => exact List.mem_append_left _ (List.mem_map_of_mem (lists name here))
  | inr planned => exact List.mem_append_right _ planned

/-- The loop over the directory ends. -/
theorem planRenames_exists (lists : ∀ name, files.entry (bundle name) ≠ none → name ∈ listing)
    (enough : 2 * listing.length < bound)
    (room : delivery_renames.length + entries.length ≤ listing.length) :
    ∃ r, planRenames results files bound ec entries delivery_renames = some r := by
  induction entries generalizing ec delivery_renames with
  | nil => exact ⟨_, rfl⟩
  | cons name entries ih =>
      rw [List.length_cons] at room
      cases ec with
      | some error => exact ⟨_, rfl⟩
      | none =>
          simp only [planRenames]
          split
          · exact ih (by omega)
          · split
            · exact ih (by omega)
            · next sent renamed =>
                obtain ⟨middle, rfl, -⟩ := sent_name_spec renamed
                have fits : (listing.map bundle ++ delivery_renames.map Prod.snd).length < bound := by
                  simp only [List.length_append, List.length_map]
                  omega
                obtain ⟨target, found⟩ := unique_bundle_path_exists SENT middle _
                  (fun name => taken_bounded lists) fits
                rw [found]
                exact ih (by simp only [List.length_append, List.length_singleton]; omega)

end

/-! ## The renamings -/

/-- The bundles directory when the archive is finished: what the iterator finds in it, each entry
once, and the archive under its temporary name. -/
structure Ready (files : Files β) (listing : List Name) (now : Int) : Prop where
  lists : ∀ name, name ∈ listing ↔ files.entry (bundle name) ≠ none
  once : listing.Nodup
  archive : ∃ content, files.entry (archive_temp now) = some (.file content)

section
variable {replaces : Bool} {results : Results} {files files' : Files β} {listing : List Name}
  {now : Int} {name : Name} {delivery_renames completed_renames completed : Renames}
  {ec : Option ErrorCode} {r : Path × Path}

theorem Planned.source (known : Planned files listing delivery_renames)
    (member : r ∈ delivery_renames) :
    ∃ name ∈ listing, older files name = true ∧ r.1 = bundle name := by
  have source : r.1 ∈ delivery_renames.map Prod.fst := List.mem_map_of_mem member
  rw [known.sources] at source
  obtain ⟨name, kept, same⟩ := List.mem_map.mp source
  exact ⟨name, (List.mem_filter.mp kept).1, (List.mem_filter.mp kept).2, same.symm⟩

theorem Planned.of_older (known : Planned files listing delivery_renames) (member : name ∈ listing)
    (old : older files name = true) : ∃ r ∈ delivery_renames, r.1 = bundle name := by
  have source : bundle name ∈ (listing.filter (older files)).map bundle :=
    List.mem_map_of_mem (List.mem_filter.mpr ⟨member, old⟩)
  rw [← known.sources] at source
  exact List.mem_map.mp source

theorem older_spec (old : older files name = true) :
    (∃ content, files.entry (bundle name) = some (.file content)) ∧
      ∃ middle, name = bundleName UNSENT middle ∨ name = bundleName [] middle := by
  rw [older, Bool.and_eq_true] at old
  obtain ⟨sent, renamed⟩ := Option.isSome_iff_exists.mp old.2
  obtain ⟨middle, -, named⟩ := sent_name_spec renamed
  exact ⟨is_regular_file_eq_true old.1, middle, named⟩

/-- The plan can be carried out. -/
theorem Planned.plan (ready : Ready files listing now)
    (known : Planned files listing delivery_renames) : files.Plan delivery_renames where
  separate := by
    have exists_ : ∀ path ∈ delivery_renames.map Prod.fst, files.entry path ≠ none := by
      intro path source
      obtain ⟨r, member, rfl⟩ := List.mem_map.mp source
      obtain ⟨name, listed, -, same⟩ := known.source member
      exact same ▸ (ready.lists name).mp listed
    have distinct : (delivery_renames.map Prod.fst ++ delivery_renames.map Prod.snd).Nodup := by
      refine List.Nodup.append ?_ known.distinct ?_
      · rw [known.sources]
        exact List.Nodup.map (fun _ _ => bundle_injective) (ready.once.filter _)
      · intro path source planned
        obtain ⟨r, member, rfl⟩ := List.mem_map.mp planned
        exact exists_ _ source (known.target r member).1
    have bundles : ∀ path ∈ delivery_renames.map Prod.fst ++ delivery_renames.map Prod.snd,
        ∃ name, path = bundle name := by
      intro path either
      cases List.mem_append.mp either with
      | inl source =>
          obtain ⟨r, member, rfl⟩ := List.mem_map.mp source
          obtain ⟨name, -, -, same⟩ := known.source member
          exact ⟨name, same⟩
      | inr planned =>
          obtain ⟨r, member, rfl⟩ := List.mem_map.mp planned
          obtain ⟨middle, same⟩ := (known.target r member).2
          exact ⟨_, same⟩
    refine List.Pairwise.imp_of_mem (fun {p q} atP atQ different => ?_) distinct
    obtain ⟨name, rfl⟩ := bundles p atP
    obtain ⟨name', rfl⟩ := bundles q atQ
    exact separate_bundles different
  here r member := by
    obtain ⟨name, member, -, same⟩ := known.source member
    exact same ▸ (ready.lists name).mp member
  free r member := (known.target r member).1
  parent r member := by
    obtain ⟨-, middle, same⟩ := known.target r member
    obtain ⟨content, archive⟩ := ready.archive
    have directory := files.inDirectory BundlesRoot _ (by
      rw [← bundle, ← archive_temp, archive]
      exact Option.some_ne_none _)
    rw [same, bundle, List.dropLast_concat, directory]

/-- The renamings that are completed are moves, and the first of the plan. -/
theorem renameAll_spec (ready : files.Plan delivery_renames)
    (run : renameAll replaces results delivery_renames completed files
      = (ec, completed_renames, files')) :
    ∃ moved, completed_renames = completed ++ moved ∧ files.Moves moved files' ∧
      (ec = none → moved = delivery_renames) := by
  induction delivery_renames generalizing completed files with
  | nil =>
      simp only [renameAll, Prod.mk.injEq] at run
      obtain ⟨-, rfl, rfl⟩ := run
      exact ⟨[], by simp, .nil, fun _ => rfl⟩
  | cons r delivery_renames ih =>
      obtain ⟨source, target⟩ := r
      simp only [renameAll] at run
      split at run
      · next error files₁ failed =>
          obtain rfl := rename_failed failed
          simp only [Prod.mk.injEq] at run
          obtain ⟨rfl, rfl, rfl⟩ := run
          exact ⟨[], by simp, .nil, nofun⟩
      · next files₁ done =>
          obtain ⟨-, ⟨same, -⟩ | ⟨can, rfl⟩⟩ := rename_done done
          · exact absurd (same ▸ List.prefix_rfl) ready.can.separate.1
          · obtain ⟨moved, rfl, moves, all⟩ := ih ready.step run
            exact ⟨(source, target) :: moved, by simp,
              .cons can (ready.free _ List.mem_cons_self) moves, fun done => by rw [all done]⟩

/-- Moves to free names are what the device does when it refuses none of them. -/
theorem foldl_moves (replaces : Bool) {moved : Renames} (moves : files.Moves moved files')
    (refused : Path → Path → Option ErrorCode)
    (none_refused : ∀ source target, refused source target = none) :
    moved.foldl (fun files r => (rename replaces (refused r.1 r.2) r.1 r.2 files).2) files
      = files' := by
  induction moves with
  | nil => rfl
  | cons can free _ ih => rw [List.foldl_cons, none_refused, rename_free free can, ih]

/-- Taking the completed renamings back restores everything. -/
theorem rollBack_spec (replaces : Bool) {moved : Renames} (moves : files.Moves moved files')
    (undone : ∀ source target, results.rolled_back source target = none) :
    rollBack replaces results moved files' = files :=
  foldl_moves replaces moves.undo results.rolled_back undone

end

end Phocoena.SupportBundles
