import Phocoena.Lib.Codec
import Phocoena.Lib.Crc

/-! # ZIP archives

The format of an archive of stored entries, as a reader of the format takes it: the record at the
end is found from the back, the central directory is walked from the offset in it, and each of
its headers leads to a local header and the bytes of the entry.
-/

namespace Phocoena.Zip

/-! ## Layouts -/

structure LocalHeader where
  signature : BitVec 32
  version : BitVec 16
  flags : BitVec 16
  method : BitVec 16
  time : BitVec 16
  date : BitVec 16
  crc : BitVec 32
  compressed_size : BitVec 32
  uncompressed_size : BitVec 32
  name_length : BitVec 16
  extra_length : BitVec 16
deriving DecidableEq

open Codec in
def LocalHeader.codec : Codec LocalHeader :=
  (pair le32 <| pair le16 <| pair le16 <| pair le16 <| pair le16 <| pair le16 <| pair le32 <|
    pair le32 <| pair le32 <| pair le16 le16).map
  (fun h => (h.signature, h.version, h.flags, h.method, h.time, h.date, h.crc, h.compressed_size,
    h.uncompressed_size, h.name_length, h.extra_length))
  (fun (signature, version, flags, method, time, date, crc, compressed_size, uncompressed_size,
      name_length, extra_length) => ⟨signature, version, flags, method, time, date, crc,
        compressed_size, uncompressed_size, name_length, extra_length⟩)
  (fun _ => rfl)

structure CentralHeader where
  signature : BitVec 32
  version_made_by : BitVec 16
  version : BitVec 16
  flags : BitVec 16
  method : BitVec 16
  time : BitVec 16
  date : BitVec 16
  crc : BitVec 32
  compressed_size : BitVec 32
  uncompressed_size : BitVec 32
  name_length : BitVec 16
  extra_length : BitVec 16
  comment_length : BitVec 16
  disk : BitVec 16
  internal_attributes : BitVec 16
  external_attributes : BitVec 32
  local_offset : BitVec 32
deriving DecidableEq

open Codec in
def CentralHeader.codec : Codec CentralHeader :=
  (pair le32 <| pair le16 <| pair le16 <| pair le16 <| pair le16 <| pair le16 <| pair le16 <|
    pair le32 <| pair le32 <| pair le32 <| pair le16 <| pair le16 <| pair le16 <| pair le16 <|
    pair le16 <| pair le32 le32).map
  (fun h => (h.signature, h.version_made_by, h.version, h.flags, h.method, h.time, h.date, h.crc,
    h.compressed_size, h.uncompressed_size, h.name_length, h.extra_length, h.comment_length,
    h.disk, h.internal_attributes, h.external_attributes, h.local_offset))
  (fun (signature, version_made_by, version, flags, method, time, date, crc, compressed_size,
      uncompressed_size, name_length, extra_length, comment_length, disk, internal_attributes,
      external_attributes, local_offset) => ⟨signature, version_made_by, version, flags, method,
        time, date, crc, compressed_size, uncompressed_size, name_length, extra_length,
        comment_length, disk, internal_attributes, external_attributes, local_offset⟩)
  (fun _ => rfl)

structure EndRecord where
  signature : BitVec 32
  disk : BitVec 16
  central_disk : BitVec 16
  disk_entries : BitVec 16
  entries : BitVec 16
  central_size : BitVec 32
  central_offset : BitVec 32
  comment_length : BitVec 16
deriving DecidableEq

open Codec in
def EndRecord.codec : Codec EndRecord :=
  (pair le32 <| pair le16 <| pair le16 <| pair le16 <| pair le16 <| pair le32 <| pair le32
    le16).map
  (fun r => (r.signature, r.disk, r.central_disk, r.disk_entries, r.entries, r.central_size,
    r.central_offset, r.comment_length))
  (fun (signature, disk, central_disk, disk_entries, entries, central_size, central_offset,
      comment_length) => ⟨signature, disk, central_disk, disk_entries, entries, central_size,
        central_offset, comment_length⟩)
  (fun _ => rfl)

/-! ## Reading -/

def CRC_POLYNOMIAL : BitVec 32 := 0xedb88320#32

/-- The CRC-32 of an entry. -/
def crc32 (content : List Byte) : BitVec 32 :=
  Crc.update CRC_POLYNOMIAL 0xffffffff#32 content ^^^ 0xffffffff#32

/-- The first bytes of the input, and what follows them. -/
def splitExactly (n : Nat) (input : List Byte) : Option (List Byte × List Byte) :=
  if n ≤ input.length then some (input.take n, input.drop n) else none

/-- A record at the end, followed by a comment of `comment` bytes. -/
def endRecordAt (archive : List Byte) (comment : Nat) : Option EndRecord :=
  if archive.length < EndRecord.codec.size + comment then none
  else do
    let (record, _) ←
      EndRecord.codec.decode (archive.drop (archive.length - (EndRecord.codec.size + comment)))
    if record.signature = 0x06054b50#32 ∧ record.comment_length.toNat = comment then some record
    else none

def findEndRecord (archive : List Byte) : Option EndRecord :=
  (List.range (2 ^ 16)).findSome? (endRecordAt archive)

def readCentral : Nat → List Byte → Option (List (CentralHeader × List Byte))
  | 0, _ => some []
  | n + 1, input => do
      let (header, input) ← CentralHeader.codec.decode input
      if header.signature ≠ 0x02014b50#32 then none
      else
        let (name, input) ← splitExactly header.name_length.toNat input
        let input := input.drop (header.extra_length.toNat + header.comment_length.toNat)
        let rest ← readCentral n input
        return (header, name) :: rest

/-- The local header is one of a stored entry and repeats the central one. -/
def agree (central : CentralHeader) (h : LocalHeader) : Bool :=
  h.signature == 0x04034b50#32 && h.version == central.version && h.flags == central.flags &&
    h.method == 0#16 && central.method == 0#16 && h.time == central.time &&
    h.date == central.date && h.crc == central.crc &&
    h.compressed_size == central.compressed_size &&
    h.uncompressed_size == central.compressed_size &&
    central.uncompressed_size == central.compressed_size && h.name_length == central.name_length

/-- The headers agree, and the bytes of the entry have their check sum. -/
def readEntry (archive : List Byte) (central : CentralHeader) (name : List Byte) :
    Option (List Byte × List Byte) := do
  let (header, input) ← LocalHeader.codec.decode (archive.drop central.local_offset.toNat)
  if agree central header = false then none
  else
    let (localName, input) ← splitExactly header.name_length.toNat input
    let (content, _) ←
      splitExactly central.compressed_size.toNat (input.drop header.extra_length.toNat)
    if localName ≠ name ∨ crc32 content ≠ central.crc then none else some (name, content)

def readEntries (archive : List Byte) : List (CentralHeader × List Byte) →
    Option (List (List Byte × List Byte))
  | [] => some []
  | (header, name) :: headers => do
      let entry ← readEntry archive header name
      let rest ← readEntries archive headers
      return entry :: rest

/-- The names and contents of an archive, in the order of its central directory. -/
def read (archive : List Byte) : Option (List (List Byte × List Byte)) := do
  let record ← findEndRecord archive
  let headers ← readCentral record.entries.toNat (archive.drop record.central_offset.toNat)
  readEntries archive headers

/-! ## What is read from an archive that is laid out in order -/

theorem splitExactly_append (front back : List Byte) {n : Nat} (eq : front.length = n) :
    splitExactly n (front ++ back) = some (front, back) := by
  subst eq
  simp [splitExactly]

/-- A record at the very end is found. -/
theorem findEndRecord_append (front : List Byte) (record : EndRecord)
    (signature : record.signature = 0x06054b50#32) (no_comment : record.comment_length = 0#16) :
    findEndRecord (front ++ EndRecord.codec.encode record) = some record := by
  have here : endRecordAt (front ++ EndRecord.codec.encode record) 0 = some record := by
    have decoded := EndRecord.codec.decode_encode record []
    rw [List.append_nil] at decoded
    simp [endRecordAt, decoded, signature, no_comment]
  unfold findEndRecord
  rw [show 2 ^ 16 = 65535 + 1 from rfl, List.range_succ_eq_map, List.findSome?_cons, here]

structure Item where
  name : List Byte
  content : List Byte

def Item.header (item : Item) : LocalHeader :=
  { signature := 0x04034b50, version := 20, flags := 0x0800, method := 0, time := 0, date := 0
    crc := crc32 item.content
    compressed_size := BitVec.ofNat 32 item.content.length
    uncompressed_size := BitVec.ofNat 32 item.content.length
    name_length := BitVec.ofNat 16 item.name.length, extra_length := 0 }

def Item.bytes (item : Item) : List Byte :=
  LocalHeader.codec.encode item.header ++ (item.name ++ item.content)

def Item.centralHeader (item : Item) (offset : Nat) : CentralHeader :=
  { signature := 0x02014b50, version_made_by := 20, version := 20, flags := 0x0800, method := 0
    time := 0, date := 0, crc := crc32 item.content
    compressed_size := BitVec.ofNat 32 item.content.length
    uncompressed_size := BitVec.ofNat 32 item.content.length
    name_length := BitVec.ofNat 16 item.name.length, extra_length := 0, comment_length := 0
    disk := 0, internal_attributes := 0, external_attributes := 0
    local_offset := BitVec.ofNat 32 offset }

/-- The sizes of the item fit into its headers. -/
def Item.Fits (item : Item) : Prop := item.name.length < 2 ^ 16 ∧ item.content.length < 2 ^ 32

/-- The items of an archive with the offsets of their local headers. -/
def placed : Nat → List Item → List (Nat × Item)
  | _, [] => []
  | offset, item :: items => (offset, item) :: placed (offset + item.bytes.length) items

def centralBytes (p : Nat × Item) : List Byte :=
  CentralHeader.codec.encode (p.2.centralHeader p.1) ++ p.2.name

def itemsBytes (items : List Item) : List Byte := items.flatMap Item.bytes

def archiveBytes (items : List Item) : List Byte :=
  let central := (placed 0 items).flatMap centralBytes
  itemsBytes items ++ central ++ EndRecord.codec.encode
    { signature := 0x06054b50, disk := 0, central_disk := 0
      disk_entries := BitVec.ofNat 16 items.length, entries := BitVec.ofNat 16 items.length
      central_size := BitVec.ofNat 32 central.length
      central_offset := BitVec.ofNat 32 (itemsBytes items).length, comment_length := 0 }

theorem length_placed (offset : Nat) (items : List Item) :
    (placed offset items).length = items.length := by
  induction items generalizing offset with
  | nil => rfl
  | cons item items ih => simp [placed, ih]

theorem readCentral_placed (offset : Nat) (items : List Item) (rest : List Byte)
    (fits : ∀ item ∈ items, item.Fits) :
    readCentral items.length ((placed offset items).flatMap centralBytes ++ rest) =
      some ((placed offset items).map fun p => (p.2.centralHeader p.1, p.2.name)) := by
  induction items generalizing offset with
  | nil => rfl
  | cons item items ih =>
      have name : (item.centralHeader offset).name_length.toNat = item.name.length := by
        have := (fits item List.mem_cons_self).1
        simp only [Item.centralHeader, BitVec.toNat_ofNat]
        omega
      have later := ih (offset + item.bytes.length) fun i mem => fits i (List.mem_cons_of_mem _ mem)
      have signature : (item.centralHeader offset).signature = 0x02014b50#32 := rfl
      have no_extra : (item.centralHeader offset).extra_length = 0#16 := rfl
      have no_comment : (item.centralHeader offset).comment_length = 0#16 := rfl
      rw [placed, List.flatMap_cons, centralBytes, List.length_cons, readCentral, List.append_assoc,
        List.append_assoc, Codec.bind_decode_encode]
      simp [signature, no_extra, no_comment, splitExactly_append _ _ name.symm, later]

/-- An entry is read back wherever its bytes are. -/
theorem readEntry_at (archive before after : List Byte) (item : Item) (fits : item.Fits)
    (layout : archive = before ++ item.bytes ++ after) (small : before.length < 2 ^ 32) :
    readEntry archive (item.centralHeader before.length) item.name =
      some (item.name, item.content) := by
  obtain ⟨name_fits, content_fits⟩ := fits
  have offset : (item.centralHeader before.length).local_offset.toNat = before.length :=
    Nat.mod_eq_of_lt small
  have name : item.header.name_length.toNat = item.name.length := Nat.mod_eq_of_lt name_fits
  have size : (item.centralHeader before.length).compressed_size.toNat = item.content.length :=
    Nat.mod_eq_of_lt content_fits
  have no_extra : item.header.extra_length = 0#16 := rfl
  have agrees : agree (item.centralHeader before.length) item.header = true := by
    simp [agree, Item.header, Item.centralHeader]
  have check : crc32 item.content = (item.centralHeader before.length).crc := rfl
  rw [layout, readEntry, offset, List.append_assoc, List.drop_left, Item.bytes, List.append_assoc,
    List.append_assoc, Codec.bind_decode_encode]
  simp [agrees, no_extra, splitExactly_append _ _ name.symm, splitExactly_append _ _ size.symm,
    check]

theorem readEntries_placed (archive before after : List Byte) (items : List Item)
    (fits : ∀ item ∈ items, item.Fits) (layout : archive = before ++ itemsBytes items ++ after)
    (small : before.length + (itemsBytes items).length < 2 ^ 32) :
    readEntries archive
        ((placed before.length items).map fun p => (p.2.centralHeader p.1, p.2.name)) =
      some (items.map fun item => (item.name, item.content)) := by
  induction items generalizing before with
  | nil => rfl
  | cons item items ih =>
      have bytes : itemsBytes (item :: items) = item.bytes ++ itemsBytes items := List.flatMap_cons
      rw [bytes, List.length_append] at small
      have entry := readEntry_at archive before (itemsBytes items ++ after) item
        (fits item List.mem_cons_self) (by rw [layout, bytes]; simp) (by omega)
      have later := ih (before ++ item.bytes) (fun i mem => fits i (List.mem_cons_of_mem _ mem))
        (by rw [layout, bytes]; simp) (by rw [List.length_append]; omega)
      rw [List.length_append] at later
      rw [placed, List.map_cons, readEntries, entry]
      simp [later]

/-- An archive laid out in order is read back. -/
theorem read_archiveBytes (items : List Item) (fits : ∀ item ∈ items, item.Fits)
    (few : items.length < 2 ^ 16) (small : (itemsBytes items).length < 2 ^ 32) :
    read (archiveBytes items) = some (items.map fun item => (item.name, item.content)) := by
  have count : (BitVec.ofNat 16 items.length).toNat = items.length := Nat.mod_eq_of_lt few
  have offset : (BitVec.ofNat 32 (itemsBytes items).length).toNat = (itemsBytes items).length :=
    Nat.mod_eq_of_lt small
  have headers (rest : List Byte) := readCentral_placed 0 items rest fits
  have entries (after : List Byte) := readEntries_placed (itemsBytes items ++ after) [] after items
    fits (by simp) (by simpa using small)
  rw [List.length_nil] at entries
  unfold read archiveBytes
  dsimp only
  rw [findEndRecord_append _ _ rfl rfl]
  simp only [Option.bind_eq_bind, Option.bind_some, count, offset, List.append_assoc,
    List.drop_left, headers, entries]

end Phocoena.Zip
