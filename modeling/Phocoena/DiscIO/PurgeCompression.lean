import Phocoena.Lib.Codec
import Phocoena.DiscIO.WIABlob

/-! # Purge compression

The compression of WIA files that stores the parts of the data which are not zero. The compressor
writes one segment for each such part, and the decompressor takes them in any pieces. Sizes are
natural numbers; where a value is cut to 32 bits or could wrap around, that is written out.
-/

namespace Phocoena.DiscIO

/-- `Common::SHA1::Digest` -/
abbrev Digest := { bytes : List Byte // bytes.length = 20 }

/-- `Common::SHA1`: the digest is one of everything that was put in, in whatever pieces. -/
structure SHA1 where
  Context : Type
  CreateContext : Context
  Update : Context → List Byte → Context
  Finish : Context → Digest
  update_append : ∀ context first second,
    Update (Update context first) second = Update context (first ++ second)

namespace SHA1

def DIGEST_LEN : Nat := 20

end SHA1

/-- `std::memcpy` of some bytes into a buffer. -/
def copyTo (buffer : List Byte) (position : Nat) (bytes : List Byte) : List Byte :=
  buffer.take position ++ bytes ++ buffer.drop (position + bytes.length)

structure DecompressionBuffer where
  data : List Byte
  bytes_written : Nat := 0
deriving DecidableEq, Repr

namespace DecompressionBuffer

/-- The bytes that can still be written. -/
def space (b : DecompressionBuffer) : Nat := b.data.length - b.bytes_written

def write (bytes : List Byte) (b : DecompressionBuffer) : DecompressionBuffer :=
  ⟨copyTo b.data b.bytes_written bytes, b.bytes_written + bytes.length⟩

end DecompressionBuffer

structure PurgeSegment where
  offset : BitVec 32
  size : BitVec 32
deriving DecidableEq, Repr

namespace PurgeSegment

def SIZE : Nat := 8

/-- Both words are swapped before they are stored. -/
def codec : Codec PurgeSegment :=
  (Codec.be32.pair Codec.be32).map (fun s => (s.offset, s.size)) (fun p => ⟨p.1, p.2⟩)
    fun _ => rfl

end PurgeSegment

/-! ## The compressor -/

structure PurgeCompressor (sha : SHA1) where
  m_buffer : List Byte
  m_bytes_written : Nat
  m_sha1_context : sha.Context

namespace PurgeCompressor

variable {sha : SHA1}

def Start (sha : SHA1) : PurgeCompressor sha := ⟨[], 0, sha.CreateContext⟩

def AddPrecedingDataOnlyForPurgeHashing (data : List Byte) (c : PurgeCompressor sha) :
    PurgeCompressor sha :=
  { c with m_sha1_context := sha.Update c.m_sha1_context data }

/-- A `std::memcpy` to the end of what is written; `none` when it leaves the buffer. -/
def write (bytes : List Byte) (c : PurgeCompressor sha) : Option (PurgeCompressor sha) :=
  if c.m_bytes_written + bytes.length ≤ c.m_buffer.length then
    some { c with
      m_buffer := copyTo c.m_buffer c.m_bytes_written bytes
      m_bytes_written := c.m_bytes_written + bytes.length }
  else none

/-- `std::find_if` from `bytes_read` on -/
def firstNonZero (data : List Byte) (bytes_read : Nat) : Nat :=
  bytes_read + (data.drop bytes_read).findIdx (· != 0)

/-- The loop over the rest of the data from index `i` on, with `non_zero_data_end` and
`sequence_length`. -/
def nonZeroDataEnd : List Byte → Nat → Nat → Nat → Nat
  | [], _, non_zero_data_end, _ => non_zero_data_end
  | x :: rest, i, non_zero_data_end, sequence_length =>
      if x = 0 then
        if PurgeSegment.SIZE < sequence_length + 1 then non_zero_data_end
        else nonZeroDataEnd rest (i + 1) non_zero_data_end (sequence_length + 1)
      else nonZeroDataEnd rest (i + 1) (i + 1) 0

/-- The loop of `Compress`; `none` when the fuel runs out or the buffer does. -/
def compressLoop (data : List Byte) : Nat → Nat → PurgeCompressor sha →
    Option (PurgeCompressor sha)
  | 0, _, _ => none
  | fuel + 1, bytes_read, c =>
      let non_zero_data_start := u32 (firstNonZero data bytes_read)
      if non_zero_data_start = data.length then some c
      else
        let non_zero_data_end :=
          nonZeroDataEnd (data.drop non_zero_data_start) non_zero_data_start non_zero_data_start 0
        let non_zero_data_length := u32 (non_zero_data_end - non_zero_data_start)
        let segment : PurgeSegment :=
          ⟨BitVec.ofNat 32 non_zero_data_start, BitVec.ofNat 32 non_zero_data_length⟩
        (c.write (PurgeSegment.codec.encode segment)).bind fun c =>
          (c.write ((data.drop non_zero_data_start).take non_zero_data_length)).bind
            (compressLoop data fuel non_zero_data_end)

/-- `std::vector::resize` -/
def resize (buffer : List Byte) (size : Nat) : List Byte :=
  buffer.take size ++ List.replicate (size - buffer.length) 0

def Compress (data : List Byte) (c : PurgeCompressor sha) : Option (PurgeCompressor sha) :=
  if c.m_bytes_written = 0 then
    compressLoop data (data.length + 1) 0 { c with
      m_buffer := resize c.m_buffer (data.length + PurgeSegment.SIZE + SHA1.DIGEST_LEN) }
  else none

def End (c : PurgeCompressor sha) : Option (PurgeCompressor sha) :=
  let m_sha1_context := sha.Update c.m_sha1_context (c.m_buffer.take c.m_bytes_written)
  { c with m_sha1_context }.write (sha.Finish m_sha1_context).1

/-- `GetData`, as many bytes as `GetSize` says -/
def output (c : PurgeCompressor sha) : List Byte := c.m_buffer.take c.m_bytes_written

/-- A compressor used as it is meant to be. -/
def run (sha : SHA1) (preceding data : List Byte) : Option (PurgeCompressor sha) :=
  (Compress data (AddPrecedingDataOnlyForPurgeHashing preceding (Start sha))).bind End

end PurgeCompressor

/-! ## The decompressor -/

structure PurgeDecompressor (sha : SHA1) where
  m_decompressed_size : Nat
  /-- the bytes of `m_segment` -/
  m_segment : List Byte := List.replicate PurgeSegment.SIZE 0
  m_bytes_read : Nat := 0
  m_segment_bytes_written : Nat := 0
  m_out_bytes_written : Nat := 0
  m_started : Bool := false
  /-- of no use before `m_started` -/
  m_sha1_context : sha.Context := sha.CreateContext
  m_done : Bool := false

/-- What a call of `Decompress` works on. -/
structure PurgeProgress (sha : SHA1) where
  self : PurgeDecompressor sha
  out : DecompressionBuffer
  in_bytes_read : Nat

namespace PurgeProgress

variable {sha : SHA1} (input : DecompressionBuffer)

/-- The next bytes of the input. -/
def peek (count : Nat) (p : PurgeProgress sha) : List Byte :=
  (input.data.drop p.in_bytes_read).take count

/-- Bytes of the input are hashed and counted as read. -/
def consume (count : Nat) (p : PurgeProgress sha) : PurgeProgress sha :=
  { p with
    self := { p.self with
      m_sha1_context := sha.Update p.self.m_sha1_context (p.peek input count)
      m_bytes_read := p.self.m_bytes_read + count }
    in_bytes_read := p.in_bytes_read + count }

def put (bytes : List Byte) (p : PurgeProgress sha) : PurgeProgress sha :=
  { p with
    self := { p.self with m_out_bytes_written := p.self.m_out_bytes_written + bytes.length }
    out := p.out.write bytes }

/-- The segment in the byte order of the host -/
def segment (p : PurgeProgress sha) : PurgeSegment :=
  ((PurgeSegment.codec.decode p.self.m_segment).map Prod.fst).getD ⟨0, 0⟩

/-- There are no more segments. -/
def atEnd (p : PurgeProgress sha) : Bool :=
  p.self.m_segment_bytes_written = 0 ∧ p.in_bytes_read + SHA1.DIGEST_LEN = input.data.length

/-- The digest is compared when everything is there. -/
def finish (p : PurgeProgress sha) : Bool × PurgeProgress sha :=
  let p := p.put (List.replicate
    (min (sub64 p.self.m_decompressed_size p.self.m_out_bytes_written) p.out.space) 0)
  if p.self.m_out_bytes_written = p.self.m_decompressed_size ∧
      input.bytes_written = input.data.length then
    let actual_hash := sha.Finish p.self.m_sha1_context
    let expected_hash := p.peek input SHA1.DIGEST_LEN
    (actual_hash.1 = expected_hash, { p with
      self := { p.self with m_done := true }
      in_bytes_read := p.in_bytes_read + SHA1.DIGEST_LEN })
  else (true, p)

def readSegment (p : PurgeProgress sha) : PurgeProgress sha :=
  if p.self.m_segment_bytes_written < PurgeSegment.SIZE then
    let bytes_to_copy := min (input.bytes_written - p.in_bytes_read)
      (PurgeSegment.SIZE - p.self.m_segment_bytes_written)
    let bytes := p.peek input bytes_to_copy
    let q := p.consume input bytes_to_copy
    { q with self := { q.self with
      m_segment := copyTo p.self.m_segment p.self.m_segment_bytes_written bytes
      m_segment_bytes_written := p.self.m_segment_bytes_written + bytes_to_copy } }
  else p

def writeZeroes (offset : Nat) (p : PurgeProgress sha) : PurgeProgress sha :=
  if p.self.m_out_bytes_written < offset then
    p.put (List.replicate (min (offset - p.self.m_out_bytes_written) p.out.space) 0)
  else p

def copyData (offset size : Nat) (p : PurgeProgress sha) : PurgeProgress sha :=
  if offset ≤ p.self.m_out_bytes_written ∧ p.self.m_out_bytes_written < offset + size then
    let bytes_to_copy := min (min (offset + size - p.self.m_out_bytes_written) p.out.space)
      (input.bytes_written - p.in_bytes_read)
    (p.put (p.peek input bytes_to_copy)).consume input bytes_to_copy
  else p

def endSegment (offset size : Nat) (p : PurgeProgress sha) : PurgeProgress sha :=
  if offset + size ≤ p.self.m_out_bytes_written then
    { p with self := { p.self with m_segment_bytes_written := 0 } }
  else p

/-- The condition of the loop -/
def running (p : PurgeProgress sha) : Bool :=
  !p.self.m_done ∧ input.bytes_written ≠ p.in_bytes_read ∧
    (p.self.m_segment_bytes_written < PurgeSegment.SIZE ∨ p.out.data.length ≠ p.out.bytes_written)

/-- The loop of `Decompress`; `none` when the fuel runs out. -/
def loop : Nat → PurgeProgress sha → Option (Bool × PurgeProgress sha)
  | 0, _ => none
  | fuel + 1, p =>
      if p.running input then
        if p.atEnd input then some (p.finish input)
        else
          let p := p.readSegment input
          if p.self.m_segment_bytes_written < PurgeSegment.SIZE then some (true, p)
          else
            let offset := p.segment.offset.toNat
            let size := p.segment.size.toNat
            loop fuel (((p.writeZeroes offset).copyData input offset size).endSegment offset size)
      else some (true, p)

def start (p : PurgeProgress sha) : PurgeProgress sha :=
  if p.self.m_started then p
  else { p with self := { p.self with
    m_sha1_context := sha.Update sha.CreateContext (input.data.take p.in_bytes_read)
    m_started := true } }

/-- With as much fuel as there are bytes to take and to give. -/
def Decompress (p : PurgeProgress sha) : Option (Bool × PurgeProgress sha) :=
  loop input (input.bytes_written - p.in_bytes_read + p.out.space + 1) (p.start input)

/-- A decompressor that is to be called for the first time, after the data that precedes. -/
def init (sha : SHA1) (preceding : List Byte) (decompressed_size : Nat) : PurgeProgress sha where
  self := { m_decompressed_size := decompressed_size }
  out := { data := [] }
  in_bytes_read := preceding.length

end PurgeProgress

/-- A call of `Decompress`: the input buffer, and the bytes the output buffer has grown by. -/
structure PurgeCall where
  input : DecompressionBuffer
  more : List Byte
deriving DecidableEq, Repr

namespace PurgeCall

variable {sha : SHA1}

def run (call : PurgeCall) (p : PurgeProgress sha) : Option (Bool × PurgeProgress sha) :=
  PurgeProgress.Decompress call.input
    { p with out := { p.out with data := p.out.data ++ call.more } }

/-- Calls one after the other, and whether all of them return `true`. -/
def runAll : List PurgeCall → PurgeProgress sha → Option (Bool × PurgeProgress sha)
  | [], p => some (true, p)
  | call :: calls, p => (call.run p).bind fun (ok, p) =>
      (runAll calls p).map fun (rest, p) => (ok && rest, p)

end PurgeCall

end Phocoena.DiscIO
