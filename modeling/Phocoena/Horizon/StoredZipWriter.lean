import Phocoena.Lib.Codec

/-! # Support archives

`StoredZipWriter` writes a ZIP archive of stored entries to a stream. Every operation on the
stream and on the files that are added can fail.
-/

namespace Phocoena.Horizon

/-- An output stream; an operation that fails leaves it bad. -/
structure OutStream where
  bytes : List Byte := []
  is_open : Bool
  good : Bool
  fails : Nat → Bool
  operations : Nat := 0

namespace OutStream

def write (data : List Byte) (s : OutStream) : OutStream :=
  if s.is_open && s.good && !s.fails s.operations then
    { s with bytes := s.bytes ++ data, operations := s.operations + 1 }
  else { s with good := false, operations := s.operations + 1 }

def flush (s : OutStream) : OutStream := s.write []

def tellp (s : OutStream) : Option Nat := if s.is_open && s.good then some s.bytes.length else none

def close (s : OutStream) : OutStream := { s with is_open := false }

end OutStream

/-- A file that is read twice. A pass ends with an error after some reads, or with the file. -/
structure DiskFile where
  content : List Byte
  opens : Bool := true
  read_fails : Option Nat := none
  reopens : Bool := true
  reread_fails : Option Nat := none

/-- The reads of a pass through a buffer. -/
def readChunks (buffer_size : Nat) : Nat → List Byte → List (List Byte)
  | 0, _ => []
  | fuel + 1, content =>
      if content.isEmpty then []
      else content.take buffer_size :: readChunks buffer_size fuel (content.drop buffer_size)

def DiskFile.reads (file : DiskFile) (fails : Option Nat) : List (List Byte) :=
  let chunks := readChunks (64 * 1024) file.content.length file.content
  match fails with
  | none => chunks
  | some n => chunks.take n

def text (s : String) : List Byte := s.toList.map fun c => BitVec.ofNat 8 c.toNat

def UINT16_MAX : Nat := 0xFFFF
def UINT32_MAX : Nat := 0xFFFFFFFF

structure StoredZipWriter.Entry where
  name : List Byte
  crc : BitVec 32
  size : BitVec 32
  local_offset : BitVec 32

structure StoredZipWriter where
  m_stream : OutStream
  m_entries : List StoredZipWriter.Entry := []
  m_error : List Byte := []
  m_finished : Bool := false

namespace StoredZipWriter

/-- The constructor: the stream may fail to open. -/
def create (opens : Bool) (fails : Nat → Bool) : StoredZipWriter :=
  { m_stream := { is_open := opens, good := opens, fails }
    m_error := if opens then [] else text "could not create support ZIP" }

/-! ## Check sums -/

def crcBit (c : BitVec 32) : BitVec 32 := c >>> 1 ^^^ (0xedb88320#32 &&& (0#32 - (c &&& 1#32)))

def crcTable : List (BitVec 32) := (List.range 256).map fun i => crcBit^[8] (BitVec.ofNat 32 i)

def crc32Update (crc : BitVec 32) (data : List Byte) : BitVec 32 :=
  data.foldl (fun crc b =>
    crcTable.getD ((crc ^^^ b.setWidth 32) &&& 0xff#32).toNat 0 ^^^ crc >>> 8) crc

def crc32 (data : List Byte) : BitVec 32 := crc32Update 0xffffffff#32 data ^^^ 0xffffffff#32

/-! ## Writing -/

def fail (message : List Byte) (w : StoredZipWriter) : Bool × StoredZipWriter :=
  (false, { w with m_error := if w.m_error.isEmpty then message else w.m_error })

def normalizeName (name : List Byte) : List Byte :=
  (name.map fun b => if b = 0x5c#8 then 0x2f#8 else b).dropWhile (· == 0x2f#8)

def writeBytes (data : List Byte) (w : StoredZipWriter) : Bool × StoredZipWriter :=
  if data.isEmpty then (true, w)
  else
    let stream := w.m_stream.write data
    (stream.good, { w with m_stream := stream })

def writeU16 (value : BitVec 16) (w : StoredZipWriter) : StoredZipWriter :=
  (writeBytes [(value &&& 0xff#16).setWidth 8, (value >>> 8 &&& 0xff#16).setWidth 8] w).2

def writeU32 (value : BitVec 32) (w : StoredZipWriter) : StoredZipWriter :=
  (writeBytes [(value &&& 0xff#32).setWidth 8, (value >>> 8 &&& 0xff#32).setWidth 8,
    (value >>> 16 &&& 0xff#32).setWidth 8, (value >>> 24 &&& 0xff#32).setWidth 8] w).2

def tell32 (what : String) (w : StoredZipWriter) : BitVec 32 × StoredZipWriter :=
  match w.m_stream.tellp with
  | none => (0, (w.fail (text (what ++ " exceeds classic ZIP limits"))).2)
  | some pos =>
      if UINT32_MAX < pos then (0, (w.fail (text (what ++ " exceeds classic ZIP limits"))).2)
      else (BitVec.ofNat 32 pos, w)

def writeLocalHeader (name : List Byte) (crc size : BitVec 32) (w : StoredZipWriter) :
    Bool × StoredZipWriter :=
  if UINT16_MAX < name.length then w.fail (text "ZIP entry name is too long")
  else
    let (offset, w) := w.tell32 "ZIP local header offset"
    if w.m_error.isEmpty = false then (false, w)
    else
      let w := w.writeU32 0x04034b50
      let w := w.writeU16 20
      let w := w.writeU16 0x0800
      let w := w.writeU16 0
      let w := w.writeU16 0
      let w := w.writeU16 0
      let w := w.writeU32 crc
      let w := w.writeU32 size
      let w := w.writeU32 size
      let w := w.writeU16 (BitVec.ofNat 16 name.length)
      let w := w.writeU16 0
      let (written, w) := w.writeBytes name
      if written = false then w.fail (text "failed writing ZIP header: " ++ name)
      else (true, { w with m_entries := w.m_entries ++ [⟨name, crc, size, offset⟩] })

def addBuffer (name data : List Byte) (w : StoredZipWriter) : Bool × StoredZipWriter :=
  let name := normalizeName name
  if name.isEmpty then w.fail (text "empty ZIP entry name")
  else if UINT32_MAX < data.length then w.fail (text "ZIP entry is too large: " ++ name)
  else
    let (written, w) := w.writeLocalHeader name (crc32 data) (BitVec.ofNat 32 data.length)
    if written = false then (false, w)
    else
      let (written, w) := w.writeBytes data
      if written = false then w.fail (text "failed writing ZIP entry: " ++ name) else (true, w)

/-- The size and the check sum of the reads of the first pass, unless they are too large. -/
def measure : List (List Byte) → Nat → BitVec 32 → Option (Nat × BitVec 32)
  | [], total, crc_state => some (total, crc_state)
  | chunk :: chunks, total, crc_state =>
      if UINT32_MAX < total + chunk.length then none
      else measure chunks (total + chunk.length) (crc32Update crc_state chunk)

/-- The writes of the second pass. -/
def writeChunks (name : List Byte) : List (List Byte) → StoredZipWriter → Bool × StoredZipWriter
  | [], w => (true, w)
  | chunk :: chunks, w =>
      let (written, w) := w.writeBytes chunk
      if written = false then w.fail (text "failed writing ZIP entry: " ++ name)
      else writeChunks name chunks w

def addFile (disk_path : List Byte) (file : DiskFile) (name : List Byte) (w : StoredZipWriter) :
    Bool × StoredZipWriter :=
  let name := normalizeName name
  if name.isEmpty then w.fail (text "empty ZIP entry name")
  else if file.opens = false then w.fail (text "could not read: " ++ disk_path)
  else
    match measure (file.reads file.read_fails) 0 0xffffffff#32 with
    | none => w.fail (text "ZIP entry is too large: " ++ name)
    | some (total, crc_state) =>
      if file.read_fails.isSome then w.fail (text "failed reading: " ++ disk_path)
      else
        let (written, w) :=
          w.writeLocalHeader name (crc_state ^^^ 0xffffffff#32) (BitVec.ofNat 32 total)
        if written = false then (false, w)
        else if file.reopens = false then w.fail (text "could not reopen: " ++ disk_path)
        else
          let (written, w) := writeChunks name (file.reads file.reread_fails) w
          if written = false then (false, w)
          else if file.reread_fails.isSome then w.fail (text "failed reading: " ++ disk_path)
          else (true, w)

def writeCentralHeader (entry : Entry) (w : StoredZipWriter) : Bool × StoredZipWriter :=
  let w := w.writeU32 0x02014b50
  let w := w.writeU16 20
  let w := w.writeU16 20
  let w := w.writeU16 0x0800
  let w := w.writeU16 0
  let w := w.writeU16 0
  let w := w.writeU16 0
  let w := w.writeU32 entry.crc
  let w := w.writeU32 entry.size
  let w := w.writeU32 entry.size
  let w := w.writeU16 (BitVec.ofNat 16 entry.name.length)
  let w := w.writeU16 0
  let w := w.writeU16 0
  let w := w.writeU16 0
  let w := w.writeU16 0
  let w := w.writeU32 0
  let w := w.writeU32 entry.local_offset
  w.writeBytes entry.name

def writeCentralDirectory : List Entry → StoredZipWriter → Bool × StoredZipWriter
  | [], w => (true, w)
  | entry :: entries, w =>
      let (written, w) := w.writeCentralHeader entry
      if written = false then w.fail (text "failed writing ZIP directory entry: " ++ entry.name)
      else writeCentralDirectory entries w

def finish (w : StoredZipWriter) : Bool × StoredZipWriter :=
  if w.m_finished then (w.m_error.isEmpty, w)
  else if (w.m_stream.is_open && w.m_stream.good) = false then
    w.fail (if w.m_error.isEmpty then text "support ZIP is not open" else w.m_error)
  else if UINT16_MAX < w.m_entries.length then w.fail (text "too many files in support ZIP")
  else
    let (central_offset, w) := w.tell32 "ZIP central directory offset"
    if w.m_error.isEmpty = false then (false, w)
    else
      let (written, w) := writeCentralDirectory w.m_entries w
      if written = false then (false, w)
      else
        let (central_end, w) := w.tell32 "ZIP central directory end"
        if w.m_error.isEmpty = false then (false, w)
        else
          let central_size := central_end - central_offset
          let count := BitVec.ofNat 16 w.m_entries.length
          let w := w.writeU32 0x06054b50
          let w := w.writeU16 0
          let w := w.writeU16 0
          let w := w.writeU16 count
          let w := w.writeU16 count
          let w := w.writeU32 central_size
          let w := w.writeU32 central_offset
          let w := w.writeU16 0
          let w := { w with m_stream := w.m_stream.flush }
          if w.m_stream.good = false then w.fail (text "failed finalizing support ZIP")
          else (true, { w with m_stream := w.m_stream.close, m_finished := true })

/-! ## Calls -/

inductive Call where
  | addBuffer (name data : List Byte)
  | addFile (disk_path : List Byte) (file : DiskFile) (name : List Byte)

namespace Call

def perform : Call → StoredZipWriter → Bool × StoredZipWriter
  | addBuffer name data, w => w.addBuffer name data
  | addFile disk_path file name, w => w.addFile disk_path file name

def name : Call → List Byte
  | addBuffer name _ => name
  | addFile _ _ name => name

def content : Call → List Byte
  | addBuffer _ data => data
  | addFile _ file _ => file.content

end Call

/-- The writer after calls that all return true. -/
def performAll : List Call → StoredZipWriter → Option StoredZipWriter
  | [], w => some w
  | call :: calls, w =>
      match call.perform w with
      | (true, w) => performAll calls w
      | (false, _) => none

end StoredZipWriter

end Phocoena.Horizon
