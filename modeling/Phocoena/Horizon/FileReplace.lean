import Phocoena.Horizon.Filesystem

/-! # Replacing a file

Horizon's rename does not replace an existing file, so `ReplaceFile` keeps the old file under
another name until the replacement succeeds, and restores it on a reported failure.
-/

namespace Phocoena.FileReplace

open Filesystem

variable {β : Type}

/-- `".horizon-old"` -/
def backupSuffix : Name := ".horizon-old".toList

/-- `target.string() + ".horizon-old"` -/
def backup (target : Path) : Path := target.dropLast ++ [target.getLastD [] ++ backupSuffix]

/-- The errors that the device reports in a call, step by step. -/
structure Results where
  first : Option ErrorCode
  source_status : Option ErrorCode
  target_status : Option ErrorCode
  backup_status : Option ErrorCode
  backed_up : Option ErrorCode
  second : Option ErrorCode
  restored : Option ErrorCode
  removed : Option ErrorCode

/-- With the `error` of the call. -/
def ReplaceFile (replaces : Bool) (results : Results) (source target : Path) (files : Files β) :
    Option ErrorCode × Files β :=
  match rename replaces results.first source target files with
  | (none, files) => (none, files)
  | (some error, files) =>
      if ¬ is_regular_file results.source_status files source ∨
          ¬ is_regular_file results.target_status files target then (some error, files)
      else
        let (found, check) := pathExists results.backup_status files (backup target)
        if found ∨ check ≠ none then (some error, files)
        else
          match rename replaces results.backed_up target (backup target) files with
          | (some error, files) => (some error, files)
          | (none, files) =>
              match rename replaces results.second source target files with
              | (some failure, files) =>
                  (some failure, (rename replaces results.restored (backup target) target files).2)
              | (none, files) => (none, remove results.removed (backup target) files)

/-! ## The name of the backup -/

section
variable {source target : Path} {files files' : Files β}

theorem backupSuffix_ne_nil : backupSuffix ≠ [] := by decide

theorem backup_ne (target : Path) : backup target ≠ target := by
  intro same
  cases target using List.reverseRecOn with
  | nil => simp [backup] at same
  | append_singleton above name => simp [backup, backupSuffix_ne_nil] at same

/-- Whatever leads to the backup leads to the target, but for the backup itself. -/
theorem prefix_backup (leads : source <+: backup target) :
    source = backup target ∨ source <+: target := by
  cases List.prefix_concat_iff.mp leads with
  | inl whole => exact .inl whole
  | inr above => exact .inr (above.trans (List.dropLast_prefix target))

theorem not_prefix_target (nonempty : target ≠ []) : ¬ target <+: backup target := by
  intro leads
  have same := leads.eq_of_length
    (by simp [backup, Nat.sub_add_cancel (List.length_pos_iff.mpr nonempty)])
  exact backup_ne target same.symm

/-! ## Two files -/

/-- Two files are not on the way to each other. -/
theorem separate_of_files {content content' : β} (file : files.entry source = some (.file content))
    (file' : files.entry target = some (.file content')) (different : source ≠ target) :
    Separate source target := by
  have not_above : ∀ {p q : Path} {c c' : β}, files.entry p = some (.file c) →
      files.entry q = some (.file c') → p ≠ q → ¬ p <+: q := by
    rintro p q c c' atP atQ different ⟨below, rfl⟩
    cases below with
    | nil => exact different (List.append_nil p).symm
    | cons name below =>
        have directory := FileTree.entry_above (t := files) (List.cons_ne_nil name below)
          (by rw [atQ]; exact Option.some_ne_none _)
        rw [atP] at directory
        cases directory
  exact ⟨not_above file file' different, not_above file' file different.symm⟩

/-- A file is not on the way to a backup that does not exist, or behind it. -/
theorem separate_backup {content : β} (file : files.entry source = some (.file content))
    (separate : Separate source target) (absent : files.entry (backup target) = none) :
    Separate (backup target) source := by
  constructor
  · rintro ⟨below, rfl⟩
    cases below with
    | nil => rw [List.append_nil, absent] at file; cases file
    | cons name below =>
        have directory := FileTree.entry_above (t := files) (List.cons_ne_nil name below)
          (by rw [file]; exact Option.some_ne_none _)
        rw [absent] at directory
        cases directory
  · intro leads
    cases prefix_backup leads with
    | inl same => rw [same, absent] at file; cases file
    | inr above => exact separate.1 above

end

/-! ## What a call keeps -/

/-- What holds of a call that has returned with `error`. -/
structure Keeps (source target : Path) (files : Files β) (error : Option ErrorCode)
    (files' : Files β) : Prop where
  replaced : error = none → files'.subtree target = files.subtree source
  target_kept : error ≠ none → files'.subtree target = files.subtree target ∨
    files'.subtree (backup target) = files.subtree target
  source_kept : error ≠ none → files'.subtree source = files.subtree source ∨
    source = target ∧ files'.subtree (backup target) = files.subtree source
  backup_kept : files.entry (backup target) ≠ none → source ≠ backup target →
    files'.entry (backup target) = files.entry (backup target)

section
variable {replaces : Bool} {results : Results} {source target : Path} {files files' : Files β}
  {error : ErrorCode}

theorem Keeps.unchanged (error : ErrorCode) : Keeps source target files (some error) files where
  replaced done := by cases done
  target_kept _ := .inl rfl
  source_kept _ := .inl rfl
  backup_kept _ _ := rfl

/-- The first renaming did it. -/
theorem Keeps.first (done : rename replaces results.first source target files = (none, files')) :
    Keeps source target files none files' := by
  obtain ⟨-, ⟨rfl, rfl⟩ | ⟨can, rfl⟩⟩ := rename_done done
  · exact ⟨fun _ => rfl, fun failed => absurd rfl failed, fun failed => absurd rfl failed,
      fun _ _ => rfl⟩
  · refine ⟨fun _ => FileTree.subtree_moved can, fun failed => absurd rfl failed,
      fun failed => absurd rfl failed, fun _ different => ?_⟩
    have nonempty : target ≠ [] := fun empty => can.separate.2 (empty ▸ List.nil_prefix)
    have outside : ¬ source <+: backup target := fun leads =>
      (prefix_backup leads).elim different can.separate.1
    exact FileTree.entry_moved_of_not_below can (not_prefix_target nonempty) outside

section
variable {content content' : β} (can : files.CanMove target (backup target))
  (absent : files.entry (backup target) = none)
  (file : files.entry source = some (.file content))
  (file' : files.entry target = some (.file content'))
include absent file file'

/-- The target has been moved away; a source of its own is still where it was. -/
theorem subtree_source (different : source ≠ target) :
    (files.moved can).subtree source = files.subtree source :=
  have separate := separate_of_files file file' different
  FileTree.subtree_moved_of_separate can separate.symm (separate_backup file separate absent)

/-- The replacement failed, and so did the restoration or not. -/
theorem Keeps.failed (restored : Option ErrorCode) :
    Keeps source target files (some error)
      (rename replaces restored (backup target) target (files.moved can)).2 := by
  cases outcome : rename replaces restored (backup target) target (files.moved can) with
  | mk failure files' =>
      cases failure with
      | none =>
          obtain ⟨-, ⟨same, -⟩ | ⟨back, rfl⟩⟩ := rename_done outcome
          · exact absurd same (backup_ne target)
          · rw [FileTree.moved_back can absent back]
            exact .unchanged error
      | some failure =>
          obtain rfl := rename_failed outcome
          refine ⟨nofun, fun _ => .inr (FileTree.subtree_moved can),
            fun _ => ?_, fun exists_ => absurd absent exists_⟩
          by_cases same : source = target
          · subst same
            exact .inr ⟨rfl, FileTree.subtree_moved can⟩
          · exact .inl (subtree_source can absent file file' same)

/-- The replacement succeeded, whatever became of the backup. -/
theorem Keeps.second (removed : Option ErrorCode)
    (done : rename replaces results.second source target (files.moved can) = (none, files')) :
    Keeps source target files none (remove removed (backup target) files') := by
  obtain ⟨here, moved⟩ := rename_done done
  have different : source ≠ target := by
    rintro rfl
    exact here (FileTree.entry_moved_source can)
  obtain ⟨same, -⟩ | ⟨can', rfl⟩ := moved
  · exact absurd same different
  · refine ⟨fun _ => ?_, fun failed => absurd rfl failed, fun failed => absurd rfl failed,
      fun exists_ => absurd absent exists_⟩
    have arrived : ((files.moved can).moved can').subtree target = files.subtree source := by
      rw [FileTree.subtree_moved, subtree_source can absent file file' different]
    rw [remove]
    split
    · rw [FileTree.subtree_removeFile can.separate.symm, arrived]
    · exact arrived

end

/-- `ReplaceFile` keeps the data: without an error the target holds what the source held, with one
the old target and the source are still there, and a backup from before is not touched. -/
theorem replaceFile_keeps (replaces : Bool) (results : Results) (source target : Path)
    (files : Files β) :
    Keeps source target files (ReplaceFile replaces results source target files).1
      (ReplaceFile replaces results source target files).2 := by
  rw [ReplaceFile]
  cases first : rename replaces results.first source target files with
  | mk failure files₁ =>
  cases failure with
  | none => exact .first first
  | some failure =>
  obtain rfl := rename_failed first
  simp only
  split
  · exact .unchanged failure
  · next regular =>
    rw [not_or, not_not, not_not] at regular
    obtain ⟨_, file⟩ := is_regular_file_eq_true regular.1
    obtain ⟨_, file'⟩ := is_regular_file_eq_true regular.2
    split
    · exact .unchanged failure
    · next unknown =>
      have absent : files₁.entry (backup target) = none := by
        rw [not_or, not_not, Bool.not_eq_true] at unknown
        exact absent_of_pathExists (Prod.ext unknown.1 unknown.2)
      cases backedUp : rename replaces results.backed_up target (backup target) files₁ with
      | mk failure files₂ =>
      cases failure with
      | some failure =>
          obtain rfl := rename_failed backedUp
          exact .unchanged failure
      | none =>
      obtain ⟨-, ⟨same, -⟩ | ⟨can, rfl⟩⟩ := rename_done backedUp
      · exact absurd same.symm (backup_ne target)
      · simp only
        cases second : rename replaces results.second source target (files₁.moved can) with
        | mk failure files₃ =>
        cases failure with
        | none => exact .second can absent file file' results.removed second
        | some failure =>
            obtain rfl := rename_failed second
            exact .failed can absent file file' results.restored

/-- A device that reports no error. -/
def Results.fine : Results := ⟨none, none, none, none, none, none, none, none⟩

/-- A file renamed to itself on Horizon is moved away, and lost under its name when it cannot be
moved back; and a source that has the name of the backup is moved as any other. -/
theorem replaceFile_not_always_keeps :
    (¬ ∀ (replaces : Bool) (results : Results) (source target : Path) (files : Files Nat),
      (ReplaceFile replaces results source target files).1 ≠ none →
        (ReplaceFile replaces results source target files).2.subtree source
          = files.subtree source) ∧
    ¬ ∀ (replaces : Bool) (results : Results) (source target : Path) (files : Files Nat),
      files.entry (backup target) ≠ none →
        (ReplaceFile replaces results source target files).2.entry (backup target)
          = files.entry (backup target) := by
  constructor
  · intro kept
    have lost := congrFun (kept false { Results.fine with restored := some .io_error } ["a".toList]
      ["a".toList] (.directoryAt [] fun name => if name = "a".toList then some 1 else none) (by decide)) []
    exact absurd lost (by decide)
  · intro kept
    have taken := kept true Results.fine (backup ["a".toList]) ["a".toList]
      (.directoryAt [] fun name => if name = "a.horizon-old".toList then some 1 else none) (by decide)
    exact absurd taken (by decide)

end

end Phocoena.FileReplace
