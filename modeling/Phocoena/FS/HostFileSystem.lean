import Phocoena.FS.FstSerialization
import Phocoena.Lib.Runs

/-! # The file system on the host

`HostFileSystem` keeps the metadata of the emulated files in a tree, the files themselves are files
of the host. A pointer to an entry is its address in the tree. There are no redirected paths.
-/

namespace Phocoena.FS

open StringUtil NandPaths

/-- What the functions of `File` find and do on a host in the state `H`; a call without a new state
has failed. -/
structure HostFunctions (H : Type) where
  Exists : H → Bytes → Bool
  IsFile : H → Bytes → Bool
  IsDirectory : H → Bytes → Bool
  GetSize : H → Bytes → Nat
  CreateEmptyFile : H → Bytes → Option H
  CreateDir : H → Bytes → Option H
  Delete : H → Bytes → H
  DeleteDirRecursively : H → Bytes → H
  Rename : H → Bytes → Bytes → Option H

structure Handle where
  opened : Bool
  wii_path : Bytes

structure HostFileSystem (H : Type) where
  m_root_entry : FstEntry
  m_root_path : Bytes
  m_handles : List Handle
  host : H
  /-- The bytes of `fst.bin`. -/
  fst_bin : List Byte

variable {H : Type}

/-- The tree that `ResetFst` makes. -/
def resetFst : FstEntry :=
  .node ⟨[slash], { Metadata.default with modes := ⟨Mode.None, Mode.Read, Mode.Read⟩ }⟩ []

/-- The file system on a host that has no `fst.bin`. -/
def HostFileSystem.fresh (host : H) (root_path : Bytes) : HostFileSystem H :=
  ⟨resetFst, root_path, List.replicate 16 ⟨false, []⟩, host, []⟩

def HostFileSystem.saveFst (fs : HostFileSystem H) : HostFileSystem H :=
  { fs with fst_bin := FS.saveFst fs.m_root_entry }

/-- `FstEntry::CheckPermission` -/
def Metadata.checkPermission (data : Metadata) (caller_uid : BitVec 32) (caller_gid : BitVec 16)
    (requested_mode : Byte) : Bool :=
  if caller_uid = 0 then true
  else
    let file_mode :=
      if data.uid = caller_uid then data.modes.owner
      else if data.gid = caller_gid then data.modes.group
      else data.modes.other
    requested_mode &&& file_mode = requested_mode

def HostFileSystem.buildFilename (fs : HostFileSystem H) (wii_path : Bytes) : Bytes :=
  fs.m_root_path ++ escapePath wii_path

/-! ## Finding an entry -/

/-- The first child of a name, and its index. -/
def findChild (children : List FstEntry) (name : Bytes) : Option (FstEntry × Nat) :=
  children.zipIdx.find? fun child => child.1.label.name = name

/-- The entry that stands for a component that the tree does not have. -/
def fallbackEntry (component : Bytes) : FstEntry :=
  .node ⟨component,
    { Metadata.default with modes := ⟨Mode.ReadWrite, Mode.ReadWrite, Mode.ReadWrite⟩ }⟩ []

/-- The loop of `GetFstEntryForPath`: the tree with the fallback entries, and the address. -/
def descend : FstEntry → List Bytes → FstEntry × List Nat
  | entry, [] => (entry, [])
  | entry, component :: components =>
      match findChild entry.children component with
      | some (next, i) =>
          let below := descend next components
          (.node entry.label (entry.children.set i below.1), i :: below.2)
      | none =>
          let below := descend (fallbackEntry component) components
          (.node entry.label (entry.children ++ [below.1]), entry.children.length :: below.2)

/-- `is_file` as the host has it; a file loses its children. -/
def setIsFile (is_file : Bool) (entry : FstEntry) : FstEntry :=
  .node { entry.label with data := { entry.label.data with is_file := is_file } }
    (if is_file then [] else entry.children)

/-- `GetFstEntryForPath`: no address stands for `nullptr`. -/
def getFstEntryForPath (io : HostFunctions H) (fs : HostFileSystem H) (path : Bytes) :
    HostFileSystem H × Option (List Nat) :=
  if path = [slash] then (fs, some [])
  else if ¬ isValidNonRootPath path then (fs, none)
  else if ¬ io.Exists fs.host (fs.buildFilename path) then (fs, none)
  else
    let found := descend fs.m_root_entry (splitString (path.drop 1) slash)
    let is_file := io.IsFile fs.host (fs.buildFilename path)
    ({ fs with m_root_entry := found.1.modifyAt (setIsFile is_file) found.2 }, some found.2)

/-! ## Calls

A call returns nothing if its behaviour is not defined: it goes through a pointer to an entry that
is not there any more. -/

abbrev Outcome (H : Type) := Option (ResultCode × HostFileSystem H)

def createFileOrDirectory (io : HostFunctions H) (fs : HostFileSystem H) (uid : BitVec 32)
    (gid : BitVec 16) (path : Bytes) (attr : Byte) (modes : Modes) (is_file : Bool) : Outcome H :=
  if ¬ isValidNonRootPath path ∨ ¬ path.all isPrintableCharacter then some (.Invalid, fs)
  else if ¬ is_file ∧ MaxPathDepth < path.count slash then some (.TooManyPathComponents, fs)
  else
    let split_path := splitPathAndBasename path
    let host_path := fs.buildFilename path
    match getFstEntryForPath io fs split_path.1 with
    | (fs, none) => some (.NotFound, fs)
    | (fs, some parent) =>
        (fs.m_root_entry.atAddress parent).bind fun parent =>
        if ¬ parent.label.data.checkPermission uid gid Mode.Write then some (.AccessDenied, fs)
        else if io.Exists fs.host host_path then some (.AlreadyExists, fs)
        else
          match if is_file then io.CreateEmptyFile fs.host host_path
            else io.CreateDir fs.host host_path with
          | none => some (.UnknownError, fs)
          | some host =>
              match getFstEntryForPath io { fs with host := host } path with
              | (_, none) => none
              | (fs, some child) =>
                  let entry : FstEntry := .node ⟨split_path.2, ⟨uid, gid, attr, modes, is_file⟩⟩ []
                  let m_root_entry := fs.m_root_entry.modifyAt (fun _ => entry) child
                  some (.Success, { fs with m_root_entry := m_root_entry }.saveFst)

def HostFileSystem.isFileOpened (fs : HostFileSystem H) (path : Bytes) : Bool :=
  fs.m_handles.any fun handle => handle.opened && handle.wii_path = path

def HostFileSystem.isDirectoryInUse (fs : HostFileSystem H) (path : Bytes) : Bool :=
  fs.m_handles.any fun handle => handle.opened && path.isPrefixOf handle.wii_path

/-- The children without the first one of a name. -/
def eraseChild (name : Bytes) (entry : FstEntry) : FstEntry :=
  match findChild entry.children name with
  | some (_, i) => .node entry.label (entry.children.eraseIdx i)
  | none => entry

def delete (io : HostFunctions H) (fs : HostFileSystem H) (uid : BitVec 32) (gid : BitVec 16)
    (path : Bytes) : Outcome H :=
  if ¬ isValidNonRootPath path then some (.Invalid, fs)
  else
    let host_path := fs.buildFilename path
    let split_path := splitPathAndBasename path
    match getFstEntryForPath io fs split_path.1 with
    | (fs, none) => some (.NotFound, fs)
    | (fs, some parent) =>
        (fs.m_root_entry.atAddress parent).bind fun entry =>
        if ¬ entry.label.data.checkPermission uid gid Mode.Write then some (.AccessDenied, fs)
        else if ¬ io.Exists fs.host host_path then some (.NotFound, fs)
        else
          let m_root_entry := fs.m_root_entry.modifyAt (eraseChild split_path.2) parent
          if io.IsFile fs.host host_path ∧ ¬ fs.isFileOpened path then
            let host := io.Delete fs.host host_path
            some (.Success, { fs with host := host, m_root_entry := m_root_entry }.saveFst)
          else if io.IsDirectory fs.host host_path ∧ ¬ fs.isDirectoryInUse path then
            let host := io.DeleteDirRecursively fs.host host_path
            some (.Success, { fs with host := host, m_root_entry := m_root_entry }.saveFst)
          else some (.InUse, fs)

/-- Whether the vectors on the way to an entry have kept their lengths. -/
def keptInPlace : FstEntry → FstEntry → List Nat → Bool
  | _, _, [] => true
  | before, after, i :: address =>
      before.children.length = after.children.length &&
        (before.children[i]?.bind fun b => after.children[i]?.map fun a =>
          keptInPlace b a address).getD false

/-- What makes way at the new path of a renamed entry, if anything there can. -/
def clearTarget (io : HostFunctions H) (host : H) (host_old_path host_new_path : Bytes) :
    Option H :=
  if io.Exists host host_new_path then
    let old_is_file := io.IsFile host host_old_path
    let new_is_file := io.IsFile host host_new_path
    if old_is_file ∧ new_is_file then some (io.Delete host host_new_path)
    else if ¬ old_is_file ∧ ¬ new_is_file then some (io.DeleteDirRecursively host host_new_path)
    else none
  else some host

/-- `Rename`. The old parent is looked at again after entries may have been added; `room` says that
the vectors they were added to did not have to move. -/
def rename (io : HostFunctions H) (fs : HostFileSystem H) (uid : BitVec 32) (gid : BitVec 16)
    (old_path new_path : Bytes) (room : Bool) : Outcome H :=
  if ¬ isValidNonRootPath old_path ∨ ¬ isValidNonRootPath new_path then some (.Invalid, fs)
  else
    let split_old_path := splitPathAndBasename old_path
    let split_new_path := splitPathAndBasename new_path
    let first := getFstEntryForPath io fs split_old_path.1
    let second := getFstEntryForPath io first.1 split_new_path.1
    match first.2, second.2 with
    | some old_parent, some new_parent =>
        if ¬ room ∧ ¬ keptInPlace first.1.m_root_entry second.1.m_root_entry old_parent then none
        else
        (second.1.m_root_entry.atAddress old_parent).bind fun old_parent_entry =>
        (second.1.m_root_entry.atAddress new_parent).bind fun new_parent_entry =>
        if ¬ old_parent_entry.label.data.checkPermission uid gid Mode.Write ∨
            ¬ new_parent_entry.label.data.checkPermission uid gid Mode.Write then
          some (.AccessDenied, second.1)
        else
          match getFstEntryForPath io second.1 old_path with
          | (fs, none) => some (.NotFound, fs)
          | (fs, some address) =>
              (fs.m_root_entry.atAddress address).bind fun entry =>
              let is_file := entry.label.data.is_file
              if is_file ∧ split_old_path.2 ≠ split_new_path.2 then some (.Invalid, fs)
              else if (¬ is_file ∧ fs.isDirectoryInUse old_path) ∨
                  (is_file ∧ fs.isFileOpened old_path) then some (.InUse, fs)
              else
                let host_old_path := fs.buildFilename old_path
                let host_new_path := fs.buildFilename new_path
                match clearTarget io fs.host host_old_path host_new_path with
                | none => some (.Invalid, fs)
                | some host =>
                    match io.Rename host host_old_path host_new_path with
                    | none => some (.NotFound, { fs with host := host })
                    | some host =>
                        moveEntry io first.1.m_root_entry { fs with host := host } old_parent
                          split_old_path.2 new_path split_new_path.2 room
    | _, _ => some (.NotFound, second.1)
where
  /-- What follows the host's own renaming. -/
  moveEntry (io : HostFunctions H) (before : FstEntry) (fs : HostFileSystem H)
      (old_parent : List Nat) (old_name new_path new_name : Bytes) (room : Bool) : Outcome H :=
    match getFstEntryForPath io fs new_path with
    | (_, none) => none
    | (fs, some new_entry) =>
        if ¬ room ∧ ¬ keptInPlace before fs.m_root_entry old_parent then none
        else
          let named := fs.m_root_entry.modifyAt
            (fun entry => .node { entry.label with name := new_name } entry.children) new_entry
          (named.atAddress old_parent).bind fun parent =>
          let moved :=
            match findChild parent.children old_name with
            | some (child, _) =>
                (named.modifyAt (fun entry => .node { entry.label with data := child.label.data }
                  child.children) new_entry).modifyAt (eraseChild old_name) old_parent
            | none => named
          some (.Success, { fs with m_root_entry := moved }.saveFst)

def setMetadata (io : HostFunctions H) (fs : HostFileSystem H) (caller_uid : BitVec 32)
    (path : Bytes) (uid : BitVec 32) (gid : BitVec 16) (attr : Byte) (modes : Modes) : Outcome H :=
  if ¬ isValidPath path then some (.Invalid, fs)
  else
    match getFstEntryForPath io fs path with
    | (fs, none) => some (.NotFound, fs)
    | (fs, some address) =>
        (fs.m_root_entry.atAddress address).bind fun entry =>
        let data := entry.label.data
        let is_empty := io.GetSize fs.host (fs.buildFilename path) = 0
        if caller_uid ≠ 0 ∧ caller_uid ≠ data.uid then some (.AccessDenied, fs)
        else if caller_uid ≠ 0 ∧ uid ≠ data.uid then some (.AccessDenied, fs)
        else if data.uid ≠ uid ∧ data.is_file ∧ ¬ is_empty then some (.FileNotEmpty, fs)
        else if data.gid ≠ gid ∨ data.uid ≠ uid ∨ data.attr ≠ attr ∨ data.modes ≠ modes then
          let changed : Metadata := ⟨uid, gid, attr, modes, data.is_file⟩
          let m_root_entry := fs.m_root_entry.modifyAt
            (fun entry => .node { entry.label with data := changed } entry.children) address
          some (.Success, { fs with m_root_entry := m_root_entry }.saveFst)
        else some (.Success, fs)

/-! ## Runs -/

inductive Call where
  | CreateFile (uid : BitVec 32) (gid : BitVec 16) (path : Bytes) (attr : Byte) (modes : Modes)
  | CreateDirectory (uid : BitVec 32) (gid : BitVec 16) (path : Bytes) (attr : Byte)
    (modes : Modes)
  | Delete (uid : BitVec 32) (gid : BitVec 16) (path : Bytes)
  | Rename (uid : BitVec 32) (gid : BitVec 16) (old_path new_path : Bytes) (room : Bool)
  | SetMetadata (caller_uid : BitVec 32) (path : Bytes) (uid : BitVec 32) (gid : BitVec 16)
    (attr : Byte) (modes : Modes)

/-- The paths that a call is given. -/
def Call.paths : Call → List Bytes
  | CreateFile _ _ path _ _ => [path]
  | CreateDirectory _ _ path _ _ => [path]
  | Delete _ _ path => [path]
  | Rename _ _ old_path new_path _ => [old_path, new_path]
  | SetMetadata _ path _ _ _ _ => [path]

def Call.run (io : HostFunctions H) (fs : HostFileSystem H) : Call → Outcome H
  | CreateFile uid gid path attr modes => createFileOrDirectory io fs uid gid path attr modes true
  | CreateDirectory uid gid path attr modes =>
      createFileOrDirectory io fs uid gid path attr modes false
  | Delete uid gid path => delete io fs uid gid path
  | Rename uid gid old_path new_path room => rename io fs uid gid old_path new_path room
  | SetMetadata caller_uid path uid gid attr modes =>
      setMetadata io fs caller_uid path uid gid attr modes

/-- A call that succeeds. -/
def step (io : HostFunctions H) (c : Call) (fs : HostFileSystem H) : Option (HostFileSystem H) :=
  (c.run io fs).bind fun r => if r.1 = .Success then some r.2 else none

end Phocoena.FS
