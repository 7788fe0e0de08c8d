import Phocoena.Horizon.Filesystem
import Phocoena.Horizon.SummaryText

/-! # Publishing a support bundle

`GenerateSupportBundle` from the point where the new archive is finished under its temporary name.
Every older bundle that has not been marked SENT becomes SENT, then the archive gets its name; when
a renaming fails, those before it are taken back.
-/

namespace Phocoena.SupportBundles

open Filesystem
open SupportDiagnostics (printInt newline)

variable {β : Type}

def ROOT : Path := ["sdmc:".toList, "switch".toList, "Phocoena".toList]

def BundlesRoot : Path := ROOT ++ ["diagnostics".toList, "bundles".toList]

/-- A file of the bundles directory. -/
def bundle (name : Name) : Path := BundlesRoot ++ [name]

/-! ## Names -/

def SENT : Name := "SENT_".toList

def UNSENT : Name := "UNSENT_".toList

def zip : Name := ".zip".toList

def bundle_base (now : Int) : Name := "Phocoena-Support-".toList ++ printInt now

def archive_temp (now : Int) : Path := bundle (".".toList ++ bundle_base now ++ ".zip.tmp".toList)

/-- The SENT name of a bundle that does not have one. -/
def sent_name (name : Name) : Option Name :=
  if "UNSENT_Phocoena-Support-".toList <+: name ∧ zip <:+ name then
    some (SENT ++ name.drop UNSENT.length)
  else if "Phocoena-Support-".toList <+: name ∧ zip <:+ name then some (SENT ++ name)
  else none

abbrev Renames := List (Path × Path)

section
variable (files : Files β) (delivery_renames : Renames)

def path_is_taken (candidate : Path) : Bool :=
  (pathExists none files candidate).1 || delivery_renames.any (·.2 = candidate)

/-- `parent / (stem + "-" + std::to_string(suffix) + extension)` -/
def suffixed (desired : Path) (suffix : Nat) : Path :=
  desired.dropLast ++ [stem (desired.getLastD []) ++ '-' :: Nat.toDigits 10 suffix ++
    extension (desired.getLastD [])]

/-- The loop of `unique_bundle_path`, with a bound on the candidates it looks at. -/
def nextFree (desired : Path) : Nat → Nat → Option Path
  | 0, _ => none
  | bound + 1, suffix =>
      if path_is_taken files delivery_renames (suffixed desired suffix) then
        nextFree desired bound (suffix + 1)
      else some (suffixed desired suffix)

def unique_bundle_path (bound : Nat) (desired : Path) : Option Path :=
  if ¬ path_is_taken files delivery_renames desired then some desired
  else nextFree files delivery_renames desired bound 2

end

/-! ## The phases -/

/-- The errors that the device reports. -/
structure Results where
  iterator : Option ErrorCode
  status : Name → Option ErrorCode
  renamed : Path → Path → Option ErrorCode
  rolled_back : Path → Path → Option ErrorCode
  removed : Option ErrorCode

section
variable (replaces : Bool) (results : Results)

/-- The loop over the directory, from an entry on, with `ec` as the entry before has left it. -/
def planRenames (files : Files β) (bound : Nat) :
    Option ErrorCode → List Name → Renames → Option (Option ErrorCode × Renames)
  | ec, [], delivery_renames => some (ec, delivery_renames)
  | some error, _ :: _, delivery_renames => some (some error, delivery_renames)
  | none, name :: entries, delivery_renames =>
      if ¬ is_regular_file (results.status name) files (bundle name) then
        planRenames files bound (results.status name) entries delivery_renames
      else
        match sent_name name with
        | none => planRenames files bound none entries delivery_renames
        | some sent =>
            match unique_bundle_path files delivery_renames bound (bundle sent) with
            | none => none
            | some target =>
                planRenames files bound none entries (delivery_renames ++ [(bundle name, target)])

/-- The renamings one by one, with the error of the first that fails and those that are
completed. -/
def renameAll : Renames → Renames → Files β → Option ErrorCode × Renames × Files β
  | [], completed_renames, files => (none, completed_renames, files)
  | (source, target) :: delivery_renames, completed_renames, files =>
      match rename replaces (results.renamed source target) source target files with
      | (some error, files) => (some error, completed_renames, files)
      | (none, files) =>
          renameAll delivery_renames (completed_renames ++ [(source, target)]) files

/-- The completed renamings taken back, the last one first. -/
def rollBack (completed_renames : Renames) (files : Files β) : Files β :=
  (completed_renames.reverse.map Prod.swap).foldl (fun files r =>
    (rename replaces (results.rolled_back r.1 r.2) r.1 r.2 files).2) files

/-- What a call leaves: `markers` are the texts that are then written for the sessions. -/
structure Outcome (β : Type) where
  returned : Bool
  error : Name
  output_path : Path
  files : Files β
  markers : List (Path × Name)

/-- The archive is removed, and the call returns `false`. -/
def fail_bundle (now : Int) (error : Name) (files : Files β) : Outcome β :=
  ⟨false, error, [], remove results.removed (archive_temp now) files, []⟩

/-- `message` gives the text of an error, `sessions` are those in the archive and `listing` is what
the iterator finds in the bundles directory. -/
def GenerateSupportBundle (message : ErrorCode → Name) (sessions : List Path) (listing : List Name)
    (now : Int) (files : Files β) : Option (Outcome β) :=
  -- there are at most twice as many names taken as files listed
  let bound := 2 * listing.length + 1
  match planRenames results files bound results.iterator listing [] with
  | none => none
  | some (some error, _) =>
      some (fail_bundle results now
        ("could not enumerate existing support bundles: ".toList ++ message error) files)
  | some (none, delivery_renames) =>
      match renameAll replaces results delivery_renames [] files with
      | (some error, completed_renames, files) =>
          some (fail_bundle results now
            ("could not mark previous support bundle SENT: ".toList ++ message error)
            (rollBack replaces results completed_renames files))
      | (none, completed_renames, files) =>
          match unique_bundle_path files delivery_renames bound
              (bundle (UNSENT ++ bundle_base now ++ zip)) with
          | none => none
          | some archive =>
              match rename replaces (results.renamed (archive_temp now) archive)
                  (archive_temp now) archive files with
              | (some error, files) =>
                  some (fail_bundle results now
                    ("could not publish new UNSENT support bundle: ".toList ++ message error)
                    (rollBack replaces results completed_renames files))
              | (none, files) =>
                  some ⟨true, [], archive, files, sessions.map fun session =>
                    (session ++ ["bundled.marker".toList], printInt now ++ [newline])⟩

end

end Phocoena.SupportBundles
