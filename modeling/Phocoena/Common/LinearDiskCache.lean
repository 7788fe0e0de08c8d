import Phocoena.Lib.Codec

/-! # The linear disk cache

A file of a header and of entries that are only ever appended. What a run of the program leaves
behind when it stops early is read again, and written over, by the next one.
-/

namespace Phocoena.LinearDiskCache

open Codec

/-- What an instance of the template is compiled with. -/
structure Layout where
  /-- `sizeof(K)` -/
  key_size : Nat
  /-- `sizeof(V)` -/
  value_type_size : Nat
  /-- `GetScmRevGitStr`, as much of it as the header holds -/
  ver : Vector Byte 40
  key_pos : 0 < key_size
  value_type_pos : 0 < value_type_size

/-- A key and a value of `value_size` elements. -/
structure Entry (l : Layout) where
  value_size : BitVec 32
  key : List Byte
  value : List Byte
  key_length : key.length = l.key_size
  value_length : value.length = value_size.toNat * l.value_type_size
deriving DecidableEq

variable {l : Layout}

/-- `m_header`: `'DCAC'`, the two sizes and the version. -/
def header (l : Layout) : List Byte :=
  [0x44, 0x43, 0x41, 0x43] ++ le16.encode (BitVec.ofNat 16 l.key_size)
    ++ le16.encode (BitVec.ofNat 16 l.value_type_size) ++ l.ver.toList

/-- The bytes of an entry. -/
def Entry.encode (entry : Entry l) (entry_number : BitVec 32) : List Byte :=
  le32.encode entry.value_size ++ entry.key ++ entry.value ++ le32.encode entry_number

/-! ## Reading -/

/-- `ReadArray` of bytes, which fails if the file ends before. -/
def readArray (file : List Byte) (tell count : Nat) :
    Option { bytes : List Byte // bytes.length = count } :=
  if enough : tell + count ≤ file.length then
    some ⟨(file.drop tell).take count, by rw [List.length_take, List.length_drop]; omega⟩
  else none

/-- `ReadArray` of one `u32`. -/
def readU32 (file : List Byte) (tell : Nat) : Option (BitVec 32) :=
  (le32.decode (file.drop tell)).map Prod.fst

/-- One turn of the loop: the entry and the position behind it. -/
def readEntry (l : Layout) (file : List Byte) (tell : Nat) (m_num_entries : BitVec 32) :
    Option (Entry l × Nat) := do
  let value_size ← readU32 file tell
  let tell := tell + 4
  -- `next_extent`, in which the elements of the value count as bytes
  guard (¬ file.length < tell + 4 + value_size.toNat)
  let key ← readArray file tell l.key_size
  let tell := tell + l.key_size
  let value ← readArray file tell (value_size.toNat * l.value_type_size)
  let tell := tell + value_size.toNat * l.value_type_size
  let entry_number ← readU32 file tell
  guard (entry_number = m_num_entries + 1)
  return (⟨value_size, key, value, key.2, value.2⟩, tell + 4)

theorem readU32_eq_some_iff {file : List Byte} {tell : Nat} {w : BitVec 32} :
    readU32 file tell = some w ↔ ∃ more, file.drop tell = le32.encode w ++ more := by
  rw [readU32, Option.map_eq_some_iff]
  constructor
  · rintro ⟨⟨_, more⟩, read, rfl⟩
    exact ⟨more, le32_canonical.decode_eq_some_iff.mp read⟩
  · rintro ⟨more, bytes⟩
    exact ⟨(w, more), le32_canonical.decode_eq_some_iff.mpr bytes, rfl⟩

theorem readArray_append {file bytes more : List Byte} {tell count : Nat}
    (rest : file.drop tell = bytes ++ more) (inside : tell ≤ file.length)
    (length : bytes.length = count) : readArray file tell count = some ⟨bytes, length⟩ := by
  have whole := congrArg List.length rest
  rw [List.length_drop, List.length_append, length] at whole
  have taken : (file.drop tell).take count = bytes := by
    rw [rest, List.take_left' length]
  rw [readArray, dif_pos (by omega)]
  exact congrArg some (Subtype.ext taken)

theorem readArray_eq_some {file rest : List Byte} {tell count : Nat}
    {bytes : { bytes : List Byte // bytes.length = count }}
    (read : readArray file tell count = some bytes) (here : file.drop tell = rest) :
    ∃ more, rest = bytes.1 ++ more := by
  rw [readArray] at read
  split at read
  · cases read
    exact ⟨(file.drop tell).drop count, by rw [List.take_append_drop, here]⟩
  · cases read

theorem Entry.length_encode (entry : Entry l) (n : BitVec 32) : (entry.encode n).length
    = 4 + l.key_size + entry.value_size.toNat * l.value_type_size + 4 := by
  have word (w : BitVec 32) : (le32.encode w).length = 4 := le32.length_encode w
  simp only [encode, List.length_append, word, entry.key_length, entry.value_length]

/-- The bytes that were read come first, the others are left behind the new position. -/
theorem drop_of_drop {file bytes more : List Byte} {tell : Nat}
    (rest : file.drop tell = bytes ++ more) : file.drop (tell + bytes.length) = more := by
  rw [← List.drop_drop, rest, List.drop_left]

/-- An entry is read exactly where its bytes are: `next_extent` is in a file that ends behind
them. -/
theorem readEntry_eq_some_iff {file : List Byte} {tell next : Nat} {n : BitVec 32}
    {entry : Entry l} :
    readEntry l file tell n = some (entry, next) ↔
      (∃ more, file.drop tell = entry.encode (n + 1) ++ more) ∧
        next = tell + (entry.encode (n + 1)).length := by
  have word (w : BitVec 32) : (le32.encode w).length = 4 := le32.length_encode w
  rw [readEntry]
  simp only [Option.bind_eq_bind, Option.bind_eq_some_iff, Option.guard_eq_some']
  constructor
  · rintro ⟨size, read_size, _, _, ⟨key, key_length⟩, read_key, ⟨value, value_length⟩, read_value,
      _, read_number, _, rfl, ends⟩
    cases ends
    obtain ⟨more, at_size⟩ := readU32_eq_some_iff.mp read_size
    have at_key := drop_of_drop at_size
    rw [word] at at_key
    obtain ⟨more, rfl⟩ := readArray_eq_some read_key at_key
    have at_value := drop_of_drop at_key
    rw [key_length] at at_value
    obtain ⟨more, rfl⟩ := readArray_eq_some read_value at_value
    have at_number := drop_of_drop at_value
    rw [value_length] at at_number
    obtain ⟨more, number⟩ := readU32_eq_some_iff.mp read_number
    rw [at_number] at number
    subst number
    refine ⟨⟨more, ?_⟩, ?_⟩
    · rw [at_size]
      simp only [Entry.encode, List.append_assoc]
    · rw [Entry.length_encode]
      simp only
      omega
  · rintro ⟨⟨more, bytes⟩, rfl⟩
    have length := congrArg List.length bytes
    rw [List.length_drop, List.length_append, Entry.length_encode] at length
    have elements : entry.value_size.toNat ≤ entry.value_size.toNat * l.value_type_size :=
      Nat.le_mul_of_pos_right _ l.value_type_pos
    simp only [Entry.encode, List.append_assoc] at bytes
    have at_key := drop_of_drop bytes
    rw [word] at at_key
    have at_value := drop_of_drop at_key
    rw [entry.key_length] at at_value
    have at_number := drop_of_drop at_value
    rw [entry.value_length] at at_number
    refine ⟨entry.value_size, readU32_eq_some_iff.mpr ⟨_, bytes⟩, (), by omega, _,
      readArray_append at_key (by omega) entry.key_length, _,
      readArray_append at_value (by omega) entry.value_length, _,
      readU32_eq_some_iff.mpr ⟨more, at_number⟩, (), rfl, ?_⟩
    rw [Entry.length_encode]
    simp only [Option.pure_def, Nat.add_assoc]

/-- What the loop has done: the entries passed to the reader, `last_valid_value_start` and
`m_num_entries`. -/
structure Reading (l : Layout) where
  entries : List (Entry l)
  last_valid_value_start : Nat
  m_num_entries : BitVec 32
deriving DecidableEq

/-- The `while` loop: entries are read up to the first that is not complete or that has another
number. -/
def readEntries (l : Layout) (file : List Byte) (tell : Nat) (m_num_entries : BitVec 32) :
    Reading l :=
  match _read : readEntry l file tell m_num_entries with
  | none => ⟨[], tell, m_num_entries⟩
  | some (entry, next) =>
      let later := readEntries l file next (m_num_entries + 1)
      { later with entries := entry :: later.entries }
termination_by file.length - tell
decreasing_by
  obtain ⟨⟨more, bytes⟩, rfl⟩ := readEntry_eq_some_iff.mp _read
  have length := congrArg List.length bytes
  rw [List.length_drop, List.length_append, Entry.length_encode] at length
  rw [Entry.length_encode]
  omega

theorem readEntries_none {file : List Byte} {tell : Nat} {n : BitVec 32}
    (stops : readEntry l file tell n = none) : readEntries l file tell n = ⟨[], tell, n⟩ := by
  rw [readEntries]
  split
  · rfl
  · next read => cases stops.symm.trans read

theorem readEntries_some {file : List Byte} {tell next : Nat} {n : BitVec 32} {entry : Entry l}
    (reads : readEntry l file tell n = some (entry, next)) :
    readEntries l file tell n
      = { readEntries l file next (n + 1) with
          entries := entry :: (readEntries l file next (n + 1)).entries } := by
  rw [readEntries]
  split
  · next read => cases reads.symm.trans read
  · next read =>
      cases reads.symm.trans read
      rfl

/-! ## Sessions -/

/-- An open cache: what was on the disk when it was opened, where the file is written, what has
been written since. -/
structure Cache where
  base : List Byte
  start : Nat
  written : List Byte
  m_num_entries : BitVec 32
deriving DecidableEq

/-- The position in the file. -/
def Cache.tell (c : Cache) : Nat := c.start + c.written.length

/-- `OpenAndRead`: the open cache and the entries that the reader was given. There may be no file;
a file without the header is made anew. -/
def openAndRead (l : Layout) (disk : Option (List Byte)) : Cache × List (Entry l) :=
  match disk with
  | none => (⟨[], 0, header l, 0⟩, [])
  | some file =>
      if (readArray file 0 (header l).length).map (·.1) = some (header l) then
        let reading := readEntries l file (header l).length 0
        (⟨file, reading.last_valid_value_start, [], reading.m_num_entries⟩, reading.entries)
      else (⟨[], 0, header l, 0⟩, [])

/-- `Append` -/
def Cache.append (c : Cache) (entry : Entry l) : Cache :=
  { c with
    written := c.written ++ entry.encode (c.m_num_entries + 1)
    m_num_entries := c.m_num_entries + 1 }

/-- Bytes written over others from a position on. -/
def overwrite (file : List Byte) (position : Nat) (bytes : List Byte) : List Byte :=
  file.take position ++ bytes ++ file.drop (position + bytes.length)

/-- The file when of what was written only the first `kept` bytes have reached it. -/
def Cache.leave (c : Cache) (kept : Nat) : List Byte :=
  overwrite c.base c.start (c.written.take kept)

/-- A session: the entries appended to the cache that was opened, and what is kept of it. -/
structure Session (l : Layout) where
  appended : List (Entry l)
  kept : Nat

/-- The file that a session leaves on the disk. -/
def Session.run (s : Session l) (disk : Option (List Byte)) : List Byte :=
  (s.appended.foldl Cache.append (openAndRead l disk).1).leave s.kept

end Phocoena.LinearDiskCache
