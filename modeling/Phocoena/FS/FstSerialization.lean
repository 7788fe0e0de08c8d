import Phocoena.Common.NandPaths
import Phocoena.Lib.Codec
import Phocoena.Lib.LabelledTree

/-! # The emulated file system

Paths and metadata of `IOS/FS/FileSystem.h`. A mode is kept as the byte that it is stored in.
-/

namespace Phocoena.FS

open StringUtil NandPaths

/-- What `IOS::HLE::FS::ResultCode` the modelled functions return. -/
inductive ResultCode where
  | Success
  | Invalid
  | AccessDenied
  | AlreadyExists
  | NotFound
  | TooManyPathComponents
  | InUse
  | FileNotEmpty
  | UnknownError
deriving DecidableEq

structure Modes where
  owner : Byte
  group : Byte
  other : Byte
deriving DecidableEq

/-- `Metadata` without `size` and `fst_index`, which are 0 in every entry of the FST. -/
structure Metadata where
  uid : BitVec 32
  gid : BitVec 16
  attr : Byte
  modes : Modes
  is_file : Bool
deriving DecidableEq

/-- `Metadata{}` -/
def Metadata.default : Metadata := ⟨0, 0, 0, ⟨0, 0, 0⟩, false⟩

/-- `Mode::None` -/
def Mode.None : Byte := 0
/-- `Mode::Read` -/
def Mode.Read : Byte := 1
/-- `Mode::Write` -/
def Mode.Write : Byte := 2
/-- `Mode::ReadWrite` -/
def Mode.ReadWrite : Byte := 3

/-- The maximum number of components a path can have. -/
def MaxPathDepth : Nat := 8
/-- The maximum number of characters a path can have. -/
def MaxPathLength : Nat := 64
/-- The maximum number of characters a filename can have. -/
def MaxFilenameLength : Nat := 12

def isValidNonRootPath (path : Bytes) : Bool :=
  1 < path.length && path.length ≤ MaxPathLength && path.head? = some slash
    && path.getLast? ≠ some slash

def isValidPath (path : Bytes) : Bool :=
  path = [slash] || isValidNonRootPath path

/-- `path.rfind('/')` for a path that has a separator. -/
def lastSeparator (path : Bytes) : Nat :=
  path.length - 1 - path.reverse.findIdx (· = slash)

/-- `SplitPathAndBasename`: the parent and the file name. -/
def splitPathAndBasename (path : Bytes) : Bytes × Bytes :=
  (path.take (max 1 (lastSeparator path)), path.drop (lastSeparator path + 1))

/-- `std::isprint` in the classic locale -/
def isPrintableCharacter (c : UInt8) : Bool := 0x20 ≤ c && c ≤ 0x7e

-- `/shared2/sys/SYSCONF => {/shared2/sys, SYSCONF}`, with `a/b` for the names
example : splitPathAndBasename [0x2f, 0x61, 0x2f, 0x62, 0x63] = ([0x2f, 0x61], [0x62, 0x63]) := by
  decide

end Phocoena.FS

/-! ## The FST on the host

`fst.bin` holds the metadata tree in preorder, 32 bytes for each entry.
-/

namespace Phocoena.FS

open Codec StringUtil

/-- What an `FstEntry` holds besides its children. -/
structure FstNode where
  name : Bytes
  data : Metadata

abbrev FstEntry := Tree FstNode

/-- Its bytes: `padding` stands before `x3`, which is aligned. -/
structure SerializedFstEntry where
  name : Vector Byte 12
  uid : BitVec 32
  gid : BitVec 16
  is_file : Byte
  modes : Modes
  attr : Byte
  padding : Byte
  x3 : BitVec 32
  num_children : BitVec 32

def modes : Codec Modes :=
  (pair byte (pair byte byte)).map (fun m => (m.owner, m.group, m.other))
    (fun p => ⟨p.1, p.2.1, p.2.2⟩) fun _ => rfl

/-- The layout of the structure. -/
def layout : Codec SerializedFstEntry :=
  (pair (byte.array 12) (pair be32 (pair be16 (pair byte (pair modes (pair byte (pair byte
    (pair be32 be32)))))))).map
    (fun e => (e.name, e.uid, e.gid, e.is_file, e.modes, e.attr, e.padding, e.x3, e.num_children))
    (fun (name, uid, gid, is_file, modes, attr, padding, x3, num_children) =>
      ⟨name, uid, gid, is_file, modes, attr, padding, x3, num_children⟩)
    fun _ => rfl

/-- `SetName` on a name of zeros -/
def setName (new_name : Bytes) : Vector Byte 12 :=
  Vector.ofFn fun i => (new_name.map UInt8.toBitVec).getD i 0

/-- `GetName` -/
def getName (name : Vector Byte 12) : Bytes :=
  (name.toList.takeWhile (· ≠ 0)).map UInt8.ofBitVec

/-- What `collect` writes for one entry. -/
def encodeEntry (node : FstNode) (children : Nat) : List Byte :=
  layout.encode
    { name := setName node.name
      uid := node.data.uid
      gid := node.data.gid
      is_file := if node.data.is_file then 1 else 0
      modes := node.data.modes
      attr := node.data.attr
      padding := 0
      x3 := 0
      num_children := BitVec.ofNat 32 children }

/-- What `parse` reads for one entry, and how many children follow. A `bool` is 0 or 1. -/
def decodeEntry (file : List Byte) : Option ((FstNode × Nat) × List Byte) := do
  let (entry, file) ← layout.decode file
  let data : Metadata :=
    { uid := entry.uid
      gid := entry.gid
      attr := entry.attr
      modes := entry.modes
      is_file := entry.is_file ≠ 0 }
  return ((⟨getName entry.name, data⟩, entry.num_children.toNat), file)

/-- The bytes that `SaveFst` writes. -/
def saveFst (m_root_entry : FstEntry) : List Byte :=
  m_root_entry.write encodeEntry

/-- `LoadFst` from the bytes of the file: the new root entry. An entry more than `MaxPathDepth`
levels below the root is not parsed. -/
def loadFst (m_root_entry : FstEntry) (file : List Byte) : FstEntry :=
  ((Tree.read decodeEntry (MaxPathDepth + 1) file).map Prod.fst).getD m_root_entry

/-! ## Entries -/

theorem modes_canonical : Canonical modes :=
  (byte_canonical.pair (byte_canonical.pair byte_canonical)).map fun _ => rfl

theorem layout_canonical : Canonical layout :=
  (byte_canonical.array.pair (be32_canonical.pair (be16_canonical.pair (byte_canonical.pair
    (modes_canonical.pair (byte_canonical.pair (byte_canonical.pair
      (be32_canonical.pair be32_canonical)))))))).map fun _ => rfl

/-- A name that fits, as a C string. -/
def IsName (name : Bytes) : Prop := name.length ≤ MaxFilenameLength ∧ 0 ∉ name

theorem toList_setName {name : Bytes} (short : name.length ≤ MaxFilenameLength) :
    (setName name).toList
      = name.map UInt8.toBitVec ++ List.replicate (12 - name.length) 0 := by
  have bound : name.length ≤ 12 := short
  apply List.ext_getElem
  · simp only [Vector.length_toList, List.length_append, List.length_map, List.length_replicate]
    omega
  · intro i inside _
    have i_lt : i < 12 := by simpa using inside
    simp only [Vector.getElem_toList, setName, Vector.getElem_ofFn, List.getElem_append]
    split
    · next low =>
        rw [List.getD_eq_getElem?_getD, List.getElem?_eq_getElem low]
        rfl
    · next high =>
        rw [List.getD_eq_getElem?_getD, List.getElem?_eq_none (Nat.le_of_not_lt high),
          List.getElem_replicate]
        rfl

theorem getName_setName {name : Bytes} (fits : IsName name) : getName (setName name) = name := by
  have nonzero : ∀ c ∈ name.map UInt8.toBitVec, decide (c ≠ 0) = true := by
    intro c member
    obtain ⟨d, found, rfl⟩ := List.mem_map.mp member
    have other : d ≠ 0 := fun zero => fits.2 (zero ▸ found)
    exact decide_eq_true fun zero => other (UInt8.toBitVec_inj.mp zero)
  rw [getName, toList_setName fits.1, List.takeWhile_append_of_pos nonzero]
  have padding : (List.replicate (12 - name.length) (0 : Byte)).takeWhile (· ≠ 0) = [] := by
    cases 12 - name.length with
    | zero => rfl
    | succ n => rfl
  rw [padding, List.append_nil, List.map_map]
  exact List.map_id _

theorem decodeEntry_encodeEntry {node : FstNode} {children : Nat} (fits : IsName node.name)
    (count : children < 2 ^ 32) (rest : List Byte) :
    decodeEntry (encodeEntry node children ++ rest) = some ((node, children), rest) := by
  have flag : ((if node.data.is_file then 1 else 0 : Byte) ≠ 0 : Bool) = node.data.is_file := by
    cases node.data.is_file <;> rfl
  rw [decodeEntry, encodeEntry, layout.decode_encode]
  simp only [Option.bind_eq_bind, Option.bind_some, getName_setName fits, BitVec.toNat_ofNat,
    Nat.mod_eq_of_lt count, flag]
  rfl

/-- An entry as it is written again: the bytes behind the end of the name, the padding and the
unknown property are lost. -/
def SerializedFstEntry.normalized (entry : SerializedFstEntry) : SerializedFstEntry :=
  { entry with
    name := setName (getName entry.name)
    is_file := if entry.is_file ≠ 0 then 1 else 0
    padding := 0
    x3 := 0 }

theorem encodeEntry_of_decodeEntry {file rest : List Byte} {node : FstNode} {children : Nat}
    (reads : decodeEntry file = some ((node, children), rest)) :
    ∃ entry : SerializedFstEntry, file = layout.encode entry ++ rest ∧
      encodeEntry node children = layout.encode entry.normalized := by
  obtain ⟨⟨entry, file'⟩, decoded, reads⟩ := Option.bind_eq_some_iff.mp reads
  cases reads
  refine ⟨entry, layout_canonical.decode_eq_some_iff.mp decoded, ?_⟩
  simp only [encodeEntry, SerializedFstEntry.normalized, BitVec.ofNat_toNat, BitVec.setWidth_eq,
    decide_eq_true_eq]

end Phocoena.FS
