import Phocoena.Lib.FileTree

/-! # The file system under the Horizon port

What the port uses of `std::filesystem`. A path is the list of its components, resolved from the
root. A call that may fail for reasons of the device takes the error that the device reports; a
call that fails changes nothing.
-/

namespace Phocoena.Filesystem

abbrev Name := List Char

abbrev Path := List Name

abbrev Files (β : Type) := FileTree Name β

/-- `path.stem()` of a path with this file name: what stands before the last dot. -/
def stem (name : Name) : Name :=
  let before := ((name.reverse.dropWhile (· ≠ '.')).drop 1).reverse
  if before = [] ∨ name = ['.', '.'] then name else before

/-- `path.extension()` -/
def extension (name : Name) : Name := name.drop (stem name).length

/-- What a `std::error_code` that is set says. -/
inductive ErrorCode where
  | no_such_file_or_directory
  | file_exists
  | invalid_argument
  | io_error
  | other (value : Nat)
  deriving DecidableEq

variable {β : Type}

/-- `fs::is_regular_file(path, ec)` -/
def is_regular_file (failed : Option ErrorCode) (files : Files β) (path : Path) : Bool :=
  match failed, files.entry path with
  | none, some (.file _) => true
  | _, _ => false

/-- `fs::exists(path, ec)`, with `ec`. -/
def pathExists (failed : Option ErrorCode) (files : Files β) (path : Path) :
    Bool × Option ErrorCode :=
  match failed with
  | some error => (false, some error)
  | none => ((files.entry path).isSome, none)

/-- `fs::rename(source, target, ec)`, with `ec`, on a device that replaces a file under the new name
(as POSIX has it) or does not (Horizon). -/
def rename (replaces : Bool) (refused : Option ErrorCode) (source target : Path)
    (files : Files β) : Option ErrorCode × Files β :=
  match refused with
  | some error => (some error, files)
  | none =>
      if files.entry source = none then (some .no_such_file_or_directory, files)
      else if ¬ replaces ∧ files.entry target ≠ none then (some .file_exists, files)
      else if source = target then (none, files)
      else if can : files.CanMove source target then (none, files.moved can)
      else (some .invalid_argument, files)

/-- `fs::remove(path, ec)` of a file. -/
def remove (refused : Option ErrorCode) (path : Path) (files : Files β) : Files β :=
  if refused = none then files.removeFile path else files

section
variable {replaces : Bool} {refused failed : Option ErrorCode} {source target path : Path}
  {files files' : Files β} {error : ErrorCode}

theorem is_regular_file_eq_true (regular : is_regular_file failed files path = true) :
    ∃ content, files.entry path = some (.file content) := by
  cases failed with
  | some error => simp [is_regular_file] at regular
  | none =>
      cases entry : files.entry path with
      | none => simp [is_regular_file, entry] at regular
      | some node =>
          cases node with
          | file content => exact ⟨content, rfl⟩
          | directory => simp [is_regular_file, entry] at regular

theorem is_regular_file_of_file {content : β} (file : files.entry path = some (.file content)) :
    is_regular_file none files path = true := by
  simp [is_regular_file, file]

theorem absent_of_pathExists (unknown : pathExists failed files path = (false, none)) :
    files.entry path = none := by
  cases failed with
  | some error => simp [pathExists] at unknown
  | none => simpa [pathExists] using unknown

/-- A renaming that fails changes nothing. -/
theorem rename_failed (failed : rename replaces refused source target files = (some error, files')) :
    files' = files := by
  cases refused with
  | some code => exact (Prod.mk.inj failed).2.symm
  | none =>
      simp only [rename] at failed
      split at failed
      · exact (Prod.mk.inj failed).2.symm
      · split at failed
        · exact (Prod.mk.inj failed).2.symm
        · split at failed
          · cases failed
          · split at failed
            · cases failed
            · exact (Prod.mk.inj failed).2.symm

/-- A renaming that succeeds has moved the source, or there was nothing to do. -/
theorem rename_done (done : rename replaces refused source target files = (none, files')) :
    files.entry source ≠ none ∧ (source = target ∧ files' = files ∨
      ∃ can : files.CanMove source target, files' = files.moved can) := by
  cases refused with
  | some code => cases done
  | none =>
      simp only [rename] at done
      split at done
      · cases done
      · next here =>
          refine ⟨here, ?_⟩
          split at done
          · cases done
          · split at done
            · next same => exact .inl ⟨same, (Prod.mk.inj done).2.symm⟩
            · split at done
              · next can => exact .inr ⟨can, (Prod.mk.inj done).2.symm⟩
              · cases done

/-- A move to a free name is done unless the device refuses it. -/
theorem rename_free (free : files.entry target = none) (can : files.CanMove source target) :
    rename replaces none source target files = (none, files.moved can) := by
  have different : source ≠ target := fun same => can.here (same ▸ free)
  simp [rename, can.here, free, different, can]

end

end Phocoena.Filesystem
