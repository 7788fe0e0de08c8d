import Phocoena.Common.StringUtil
import Phocoena.Lib.ViewedMap

/-! # INI files

`Common/IniFile.cpp`: sections with keys and raw lines, read from a text and written back. Where the
source would follow the end iterator of a map or a vector, the model has no result.
-/

namespace Phocoena.Ini

open StringUtil

/-- `'\n'` -/
def LF : UInt8 := 0x0a
/-- `'\r'` -/
def CR : UInt8 := 0x0d
/-- `' '` -/
def space : UInt8 := 0x20
/-- `'#'` -/
def hash : UInt8 := 0x23
/-- `'='` -/
def equals : UInt8 := 0x3d
/-- `'['` -/
def openBracket : UInt8 := 0x5b
/-- `']'` -/
def closeBracket : UInt8 := 0x5d
/-- `'$'`, `'+'` and `'*'`, with which a line that is kept verbatim begins -/
def verbatim : Bytes := [0x24, 0x2b, 0x2a]

/-- The UTF-8 BOM at the start of files. -/
def BOM : Bytes := [0xef, 0xbb, 0xbf]

/-- What `CaseInsensitiveLess` compares of a key. -/
def lowered (key : Bytes) : List Nat := key.map fun c => (toLower c).toNat

abbrev SectionMap := ViewedMap lowered Bytes

/-- The key and the value of a line; both are empty when it has none. -/
def parseLine (line : Bytes) : Bytes × Bytes :=
  if line = [] ∨ line.head? = some hash then ([], [])
  else
    match line.idxOf? equals with
    | none => ([], [])
    | some firstEquals =>
        (stripWhitespace (line.take firstEquals),
          stripQuotes (stripWhitespace (line.drop (firstEquals + 1))))

@[ext]
structure Section where
  name : Bytes
  keys_order : List Bytes
  values : SectionMap
  m_lines : List Bytes

namespace Section

def new (name : Bytes) : Section := ⟨name, [], .empty, []⟩

def set (s : Section) (key new_value : Bytes) : Section :=
  { s with
    values := s.values.insertOrAssign key new_value
    keys_order := if s.values.find? key = none then s.keys_order ++ [key] else s.keys_order }

def delete (s : Section) (key : Bytes) : Option (Bool × Section) :=
  if s.values.find? key = none then some (false, s)
  else if s.keys_order.any (caseInsensitiveEquals key) then
    some (true, { s with
      values := s.values.erase key
      keys_order := s.keys_order.eraseP (caseInsensitiveEquals key) })
  else none

/-- What `Load` does with a line inside a section. -/
def addLine (s : Section) (line : Bytes) : Section :=
  let (key, value) := parseLine line
  if key = [] ∧ value = [] ∨ ∃ c ∈ line.head?, c ∈ verbatim then
    { s with m_lines := s.m_lines ++ [line] }
  else s.set key value

/-- A section that `Save` does not leave out. -/
def isWritten (s : Section) : Bool := s.keys_order ≠ [] ∨ s.m_lines ≠ []

/-- The line of a key and its value. -/
def keyLine (pair : Bytes × Bytes) : Bytes := pair.1 ++ [space, equals, space] ++ pair.2

def keyLines (s : Section) : List Bytes → Option (List Bytes)
  | [] => some []
  | kvit :: keys =>
      match s.values.find? kvit, s.keyLines keys with
      | some pair, some lines => some (keyLine pair :: lines)
      | _, _ => none

/-- The lines behind the name of the section. -/
def body (s : Section) : Option (List Bytes) :=
  if s.keys_order = [] then some s.m_lines else s.keyLines s.keys_order

def header (s : Section) : Bytes := openBracket :: s.name ++ [closeBracket]

/-- The lines that `Save` writes for the section. -/
def lines (s : Section) : Option (List Bytes) :=
  s.body.map fun body => if s.isWritten then s.header :: body else body

end Section

structure IniFile where
  sections : List Section

namespace IniFile

def empty : IniFile := ⟨[]⟩

/-- The place of the section. -/
def getSection (file : IniFile) (section_name : Bytes) : Option Nat :=
  file.sections.findIdx? fun sect => caseInsensitiveEquals sect.name section_name

def getOrCreateSection (file : IniFile) (section_name : Bytes) : IniFile × Nat :=
  match file.getSection section_name with
  | some place => (file, place)
  | none => (⟨file.sections ++ [.new section_name]⟩, file.sections.length)

def modify (file : IniFile) (place : Nat) (f : Section → Section) : IniFile :=
  ⟨file.sections.modify place f⟩

/-! ## Load -/

/-- The state of the loop of `Load`. -/
structure Reader where
  file : IniFile
  current_section : Option Nat

/-- A line without its line ending. -/
def Reader.read (r : Reader) (line : Bytes) : Reader :=
  if line = [] then r
  else if line.head? = some openBracket then
    match line.idxOf? closeBracket with
    | none => r
    | some endpos =>
        let (file, place) := r.file.getOrCreateSection ((line.drop 1).take (endpos - 1))
        ⟨file, some place⟩
  else
    match r.current_section with
    | none => r
    | some place => { r with file := r.file.modify place (·.addLine line) }

/-- Check for CRLF eol and convert it to LF. -/
def removeCR (line : Bytes) : Bytes :=
  if line.getLast? = some CR then line.dropLast else line

def skipBOM : List Bytes → List Bytes
  | [] => []
  | line :: lines => (if line.take 3 = BOM then line.drop 3 else line) :: lines

def Reader.readAll (r : Reader) (lines : List Bytes) : Reader :=
  lines.foldl (fun r line => r.read (removeCR line)) r

/-- `text` is what the file holds; `none` when it cannot be opened. -/
def load (file : IniFile) (text : Option Bytes) (keep_current_data : Bool) : Bool × IniFile :=
  let file := if keep_current_data then file else empty
  match text with
  | none => (false, file)
  | some text => (true, (Reader.readAll ⟨file, none⟩ (skipBOM (getlines LF [] text))).file)

/-! ## Save -/

def savedLines : List Section → Option (List Bytes)
  | [] => some []
  | sect :: sections =>
      match sect.lines, savedLines sections with
      | some lines, some rest => some (lines ++ rest)
      | _, _ => none

/-- The text that `Save` writes and then puts in the place of the file. -/
def save (file : IniFile) : Option Bytes :=
  (savedLines file.sections).map fun lines => lines.flatMap (· ++ [LF])

/-! ## Changes -/

def set (file : IniFile) (section_name key new_value : Bytes) : IniFile :=
  let (file, place) := file.getOrCreateSection section_name
  file.modify place (·.set key new_value)

def setLines (file : IniFile) (section_name : Bytes) (lines : List Bytes) : IniFile :=
  let (file, place) := file.getOrCreateSection section_name
  file.modify place ({ · with m_lines := lines })

def deleteKey (file : IniFile) (section_name key : Bytes) : Option (Bool × IniFile) :=
  match file.getSection section_name with
  | none => some (false, file)
  | some place =>
      match file.sections[place]? with
      | none => none
      | some sect => (sect.delete key).map fun (deleted, sect) =>
          (deleted, ⟨file.sections.set place sect⟩)

def deleteSection (file : IniFile) (section_name : Bytes) : Bool × IniFile :=
  match file.getSection section_name with
  | none => (false, file)
  | some place => (true, ⟨file.sections.eraseIdx place⟩)

/-- By the names as they are spelled. -/
def sortSections (file : IniFile) : IniFile :=
  ⟨file.sections.mergeSort fun s t => ¬ t.name.map UInt8.toNat < s.name.map UInt8.toNat⟩

end IniFile

end Phocoena.Ini
