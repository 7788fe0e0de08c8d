import Phocoena.Common.StringUtil
import Mathlib.Tactic.Ring

/-! # The file system table of GameCube and Wii discs

The table is a list of entries of three big-endian words, followed by the names. A directory says
at which index its contents end and which directory it is in. Reading outside of the table is a
fault, which is `none`, and so is running out of fuel.
-/

namespace Phocoena.DiscIO

open StringUtil (Bytes toLower)

def FST_ENTRY_SIZE : Nat := 12

inductive EntryProperty where
  | NAME_OFFSET | FILE_OFFSET | FILE_SIZE
  deriving DecidableEq

def EntryProperty.number : EntryProperty → Nat
  | NAME_OFFSET => 0
  | FILE_OFFSET => 1
  | FILE_SIZE => 2

/-- What the `FileInfoGCWii` objects of a file system have in common. -/
structure FileTable where
  m_fst : Bytes
  m_offset_shift : Nat
  m_total_file_infos : Nat

/-- `Common::swap32` of the four bytes at a position. -/
def swap32At (bytes : Bytes) (position : Nat) : Option Nat :=
  match bytes.drop position with
  | a :: b :: c :: d :: _ => some (((a.toNat * 256 + b.toNat) * 256 + c.toNat) * 256 + d.toNat)
  | _ => none

namespace FileTable

/-! ## FileInfoGCWii -/

/-- The address of an entry, counted from the start of the table. -/
def GetAddress (m_index : Nat) : Nat := FST_ENTRY_SIZE * m_index % 2 ^ 32

section
variable (T : FileTable)

def Get (m_index : Nat) (entry_property : EntryProperty) : Option Nat :=
  swap32At T.m_fst (GetAddress m_index + 4 * entry_property.number)

def GetSize (m_index : Nat) : Option Nat := T.Get m_index .FILE_SIZE

def GetOffset (m_index : Nat) : Option Nat :=
  (T.Get m_index .FILE_OFFSET).map (· * 2 ^ T.m_offset_shift)

def IsDirectory (m_index : Nat) : Option Bool :=
  (T.Get m_index .NAME_OFFSET).map fun name => decide (name / 2 ^ 24 ≠ 0)

def GetNextIndex (m_index : Nat) : Option Nat :=
  (T.IsDirectory m_index).bind fun directory =>
    if directory then T.GetSize m_index else some ((m_index + 1) % 2 ^ 32)

def GetNameOffset (m_index : Nat) : Option Nat :=
  (T.Get m_index .NAME_OFFSET).map fun name => FST_ENTRY_SIZE * T.m_total_file_infos + name % 2 ^ 24

/-- The string at a position, which has to end inside of the table. -/
def stringAt (position : Nat) : Option Bytes :=
  if 0 ∈ T.m_fst.drop position then some ((T.m_fst.drop position).takeWhile (· ≠ 0)) else none

/-- The name as it stands in the table. -/
def rawName (m_index : Nat) : Option Bytes := (T.GetNameOffset m_index).bind T.stringAt

/-- The loop of `NameCaseInsensitiveEquals`, from a byte of each of the names on. -/
def nameEquals (SHIFTJISToUTF8 : Bytes → Bytes) : Bytes → Bytes → Bool
  | this, [] => this = []
  | [], _ :: _ => false
  | this_ptr :: this, other_ptr :: other =>
      if 0x80 ≤ this_ptr ∧ 0x80 ≤ other_ptr then
        (SHIFTJISToUTF8 (this_ptr :: this)).map toLower = (other_ptr :: other).map toLower
      else if toLower this_ptr ≠ toLower other_ptr then false
      else nameEquals SHIFTJISToUTF8 this other

variable (SHIFTJISToUTF8 : Bytes → Bytes)

def GetName (m_index : Nat) : Option Bytes := (T.rawName m_index).map SHIFTJISToUTF8

def NameCaseInsensitiveEquals (m_index : Nat) (other : Bytes) : Option Bool :=
  (T.rawName m_index).map fun this => nameEquals SHIFTJISToUTF8 this other

/-- The directory that contains a file, searched backwards from an index. -/
def findParent (m_index : Nat) : Nat → Option Nat
  | 0 => (T.IsDirectory 0).bind fun directory => (T.GetSize 0).bind fun size =>
      if directory ∧ size > m_index then some 0 else none
  | potential + 1 =>
      (T.IsDirectory (potential + 1)).bind fun directory => (T.GetSize (potential + 1)).bind fun size =>
        if directory ∧ size > m_index then some (potential + 1) else findParent m_index potential

def GetPath : Nat → Nat → Option Bytes
  | 0, _ => none
  | fuel + 1, m_index =>
      if m_index = 0 then some []
      else (T.IsDirectory m_index).bind fun directory =>
        if directory then
          (T.Get m_index .FILE_OFFSET).bind fun parent_directory_index =>
            (GetPath fuel parent_directory_index).bind fun path =>
              (T.GetName SHIFTJISToUTF8 m_index).map fun name => path ++ name ++ [0x2f]
        else
          (T.findParent m_index (m_index - 1)).bind fun potential_parent =>
            (GetPath fuel potential_parent).bind fun path =>
              (T.GetName SHIFTJISToUTF8 m_index).map fun name => path ++ name

/-- The entries a loop over a directory visits, from one of them until the end. -/
def siblings (stop : Nat) : Nat → Nat → Option (List Nat)
  | 0, _ => none
  | fuel + 1, child =>
      if GetAddress child = GetAddress stop then some []
      else (T.GetNextIndex child).bind fun next =>
        (siblings stop fuel next).map fun rest => child :: rest

def children (fuel m_index : Nat) : Option (List Nat) :=
  (T.GetNextIndex m_index).bind fun stop => T.siblings stop fuel (m_index + 1)

/-- `FileInfo::GetTotalSize` and its loop, from one of the entries on. -/
def GetTotalSize : Nat → Nat → Option Nat
  | 0, _ => none
  | fuel + 1, m_index =>
      (T.IsDirectory m_index).bind fun directory =>
        if directory then
          (T.children fuel m_index).bind fun entries =>
            (entries.mapM (GetTotalSize fuel)).map fun sizes => sizes.sum % 2 ^ 64
        else T.GetSize m_index

/-! ## Validity -/

/-- The checks of `IsValid` before its loop. -/
def checkEntry (fst_size m_index parent_directory : Nat) : Option Bool :=
  (T.GetNameOffset m_index).bind fun name_offset =>
    if name_offset ≥ fst_size then some false
    else (T.IsDirectory m_index).bind fun directory =>
      if directory then
        (T.Get m_index .FILE_OFFSET).bind fun offset =>
          if offset ≠ parent_directory then some false
          else (T.GetSize m_index).bind fun size =>
            if size ≤ m_index then some false
            else (T.GetSize parent_directory).map fun parent_size => decide (size ≤ parent_size)
      else some true

mutual
def IsValid (fst_size : Nat) : Nat → Nat → Nat → Option Bool
  | 0, _, _ => none
  | fuel + 1, m_index, parent_directory =>
      (T.checkEntry fst_size m_index parent_directory).bind fun passed =>
        if passed then
          (T.IsDirectory m_index).bind fun directory =>
            if directory then
              (T.GetNextIndex m_index).bind fun stop =>
                checkChildren fst_size fuel stop m_index (m_index + 1)
            else some true
        else some false
termination_by structural fuel => fuel

/-- The loop of `IsValid`, from one of the children on. -/
def checkChildren (fst_size : Nat) : Nat → Nat → Nat → Nat → Option Bool
  | 0, _, _, _ => none
  | fuel + 1, stop, m_index, child =>
      if GetAddress child = GetAddress stop then some true
      else (IsValid fst_size fuel child m_index).bind fun valid =>
        if valid then
          (T.GetNextIndex child).bind fun next => checkChildren fst_size fuel stop m_index next
        else some false
termination_by structural fuel => fuel
end

/-! ## Searches -/

/-- The name a search begins with and the rest of the path. Nothing is left to search for when the
path has only slashes. -/
def splitPath (path : Bytes) : Option (Bytes × Bytes) :=
  match path.dropWhile (· = 0x2f) with
  | [] => none
  | c :: rest =>
      some ((c :: rest).takeWhile (· ≠ 0x2f), ((c :: rest).dropWhile (· ≠ 0x2f)).drop 1)

/-- The loop of `FindFileInfo` over the children: the first one with the name in which the search
for the rest succeeds. -/
def firstFound (matches_name : Nat → Option Bool) (search : Nat → Option (Option Nat)) :
    List Nat → Option (Option Nat)
  | [] => some none
  | child :: others => (matches_name child).bind fun matched =>
      if matched then (search child).bind fun result =>
        if result.isSome then some result else firstFound matches_name search others
      else firstFound matches_name search others

/-- `FindFileInfo` of a path, from an entry on. -/
def findPath : Nat → Bytes → Nat → Option (Option Nat)
  | 0, _, _ => none
  | fuel + 1, path, m_index =>
      match splitPath path with
      | none => some (some m_index)
      | some (name, rest_of_path) => (T.children fuel m_index).bind fun entries =>
          firstFound (fun child => T.NameCaseInsensitiveEquals SHIFTJISToUTF8 child name)
            (fun child => findPath fuel rest_of_path child) entries

/-- The cache of the files by where they end, in order. -/
abbrev OffsetCache := List (Nat × Nat)

/-- `std::map::emplace`, which leaves an entry that is there as it is. -/
def emplace (key index : Nat) : OffsetCache → OffsetCache
  | [] => [(key, index)]
  | (k, i) :: cache =>
      if key < k then (key, index) :: (k, i) :: cache
      else if key = k then (k, i) :: cache
      else (k, i) :: emplace key index cache

def upperBound (cache : OffsetCache) (key : Nat) : Option (Nat × Nat) :=
  cache.find? fun entry => decide (key < entry.1)

/-- One round of the loop that builds the cache. -/
def cacheEntry (cache : OffsetCache) (i : Nat) : Option OffsetCache :=
  (T.IsDirectory i).bind fun directory =>
    if directory then some cache
    else (T.GetSize i).bind fun size =>
      if size = 0 then some cache
      else (T.GetOffset i).map fun offset => emplace ((offset + size) % 2 ^ 64) i cache

def buildCache : Option OffsetCache :=
  (T.GetSize 0).bind fun fst_entries => (List.range fst_entries).foldlM T.cacheEntry []

/-- `FindFileInfo` of an offset on the disc, once the cache is there. -/
def findOffset (cache : OffsetCache) (disc_offset : Nat) : Option (Option Nat) :=
  match upperBound cache disc_offset with
  | none => some none
  | some (_, i) => (T.GetOffset i).map fun offset => if offset ≤ disc_offset then some i else none

end

end FileTable

/-! ## FileSystemGCWii -/

def ARBITRARY_FILE_SYSTEM_SIZE_LIMIT : Nat := 128 * 1024 * 1024

/-- The table with the root object, from the bytes read of the disc. -/
def openTable (bytes : Bytes) (offset_shift : Nat) : Option FileTable :=
  (FileTable.GetSize ⟨bytes, offset_shift, 0⟩ 0).map fun size => ⟨bytes, offset_shift, size⟩

/-- The constructor of `FileSystemGCWii` behind the reads of the volume: `m_valid`. -/
def createFileSystem (fuel : Nat) (bytes : Bytes) (offset_shift : Nat) : Option Bool :=
  if bytes.length < FST_ENTRY_SIZE then some false
  else if bytes.length > ARBITRARY_FILE_SYSTEM_SIZE_LIMIT then some false
  else (openTable bytes offset_shift).bind fun T =>
    (T.IsDirectory 0).bind fun directory =>
      if directory then
        if FST_ENTRY_SIZE * T.m_total_file_infos % 2 ^ 32 > bytes.length then some false
        else if bytes.getLast? ≠ some 0 then some false
        else T.IsValid bytes.length fuel 0 0
      else some false

end Phocoena.DiscIO
