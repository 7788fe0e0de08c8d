import Phocoena.DiscIO.CompressedBlob

/-! # Conversion to GCZ

`ConvertToGCZ` as it runs when the output calls come in the order of the blocks. Which thread
compresses a block is chosen by `split`. Reads, writes and the progress callback may fail or cancel
at any time; only writes of blocks are checked.
-/

namespace Phocoena.DiscIO

/-- What `deflateReset` and `deflate` with `Z_FINISH` do with a block that has as much room for the
output. -/
structure Deflated where
  reset : Bool
  stream_end : Bool
  output : List Byte

/-- `deflate` in a thread: it writes no more than it has room for, and `inflate` undoes what was
completed. -/
structure Deflate (inflate : Inflate) where
  run : Nat → List Byte → Deflated
  bounded : ∀ thread data, (run thread data).output.length ≤ data.length
  undone : ∀ thread data, (run thread data).stream_end = true →
    inflate.run (run thread data).output data.length = data

/-! ## The output file -/

structure OutFile where
  content : List Byte := []
  m_current_offset : Nat := 0
  writes : Nat := 0
deriving DecidableEq, Repr

/-- Bytes stored at a position; a gap before it reads as zeros. -/
def overwrite (position : Nat) (bytes content : List Byte) : List Byte :=
  if bytes = [] then content
  else content.take position ++ List.replicate (position - content.length) 0 ++ bytes ++
    content.drop (position + bytes.length)

namespace OutFile

def seek (offset : Nat) (f : OutFile) : OutFile := { f with m_current_offset := offset }

/-- `DirectIOFile::Write`: a write that fails has stored some of the bytes. No file is longer than a
signed word can say. -/
def write (fails : Nat → Option Nat) (bytes : List Byte) (f : OutFile) : Bool × OutFile :=
  match fails f.writes with
  | none =>
      if f.m_current_offset + bytes.length < 2 ^ 63 then
        (true, {
          content := overwrite f.m_current_offset bytes f.content
          m_current_offset := f.m_current_offset + bytes.length
          writes := f.writes + 1 })
      else (false, { f with writes := f.writes + 1 })
  | some stored =>
      (false, { f with
        content := overwrite f.m_current_offset (bytes.take stored) f.content
        writes := f.writes + 1 })

end OutFile

/-! ## Blocks -/

def hashAdler32 (data : List Byte) : BitVec 32 :=
  let (a, b) := data.foldl (fun (a, b) byte =>
    let a := (a + byte.toNat) % 65521
    (a, (b + a) % 65521)) (1, 0)
  .ofNat 32 (b * 65536 + a)

/-- What may happen outside of the program: whether a read of the disc succeeds, which writes fail,
and whether the callback goes on. -/
structure Outside where
  reads : Nat → Bool
  fails : Nat → Option Nat
  goesOn : Nat → Bool

structure OutputParameters where
  data : List Byte
  block_number : Nat
  compressed : Bool

/-- The state that `compress` and `output` share. -/
structure Conversion where
  outfile : OutFile
  position : Nat := 0
  offsets : List (BitVec 64)
  hashes : List (BitVec 32)

/-- `Compress` of a block in a thread, or nothing when it fails. -/
def compress {inflate : Inflate} (deflate : Deflate inflate) (thread : Nat) (data : List Byte)
    (block_number : Nat) (c : Conversion) : Option (OutputParameters × Conversion) :=
  let deflated := deflate.run thread data
  if deflated.reset = false then none
  else
    let avail_out := data.length - deflated.output.length
    let parameters : OutputParameters :=
      if deflated.stream_end = false ∨ avail_out < 10 then ⟨data, block_number, false⟩
      else ⟨deflated.output, block_number, true⟩
    some (parameters, { c with hashes := c.hashes.set block_number (hashAdler32 parameters.data) })

/-- `Output`, or nothing when it fails or the callback cancels. -/
def output (outside : Outside) (progress_monitor : Nat) (parameters : OutputParameters)
    (c : Conversion) : Option Conversion :=
  let offset :=
    if parameters.compressed then c.position else c.position ||| uncompressed_flag
  let (written, outfile) := c.outfile.write outside.fails parameters.data
  if written = false then none
  else if parameters.block_number % progress_monitor = 0 ∧
      outside.goesOn parameters.block_number = false then none
  else some { c with
    outfile
    position := u64 (c.position + parameters.data.length)
    offsets := c.offsets.set parameters.block_number (.ofNat 64 offset) }

/-- The bytes of a block in `in_buf`, filled up with zeros. -/
def inputBlock (disc : List Byte) (block_size inpos : Nat) : List Byte :=
  let bytes_to_read := min block_size (disc.length - inpos)
  (disc.drop inpos).take bytes_to_read ++ List.replicate (block_size - bytes_to_read) 0

/-- The loop of `ConvertToGCZ` over the next `count` blocks from block `i` on. -/
def convertBlocks {inflate : Inflate} (deflate : Deflate inflate) (split : Nat → Nat)
    (outside : Outside) (disc : List Byte) (block_size progress_monitor : Nat) :
    Nat → Nat → Conversion → Option Conversion
  | 0, _, c => some c
  | count + 1, i, c =>
      if outside.reads i = false then none
      else do
        let data := inputBlock disc block_size (i * block_size)
        let (parameters, c) ← compress deflate (split i) data i c
        let c ← output outside progress_monitor parameters c
        convertBlocks deflate split outside disc block_size progress_monitor count (i + 1) c

/-- The number of blocks, rounded upwards. -/
def numBlocks (disc_size block_size : Nat) : Nat :=
  u32 (u64 (disc_size + (block_size - 1)) / block_size)

/-- `ConvertToGCZ`: the file when it returns true. The last three writes are not checked. -/
def convertToGCZ {inflate : Inflate} (deflate : Deflate inflate) (split : Nat → Nat)
    (outside : Outside) (disc : List Byte) (sub_type : BitVec 32) (block_size : Nat) :
    Option OutFile := do
  let num_blocks := numBlocks disc.length block_size
  let start : Conversion := {
    outfile := OutFile.seek (32 + (8 + 4) * num_blocks) {}
    offsets := List.replicate num_blocks 0
    hashes := List.replicate num_blocks 0 }
  let c ← convertBlocks deflate split outside disc block_size (max 1 (num_blocks / 1000))
    num_blocks 0 start
  let header : CompressedBlobHeader := {
    magic_cookie := .ofNat 32 GCZ_MAGIC
    sub_type
    compressed_data_size := .ofNat 64 c.position
    disc_size := .ofNat 64 disc.length
    block_size := .ofNat 32 block_size
    num_blocks := .ofNat 32 num_blocks }
  let outfile := c.outfile.seek 0
  let (_, outfile) := outfile.write outside.fails (CompressedBlobHeader.codec.encode header)
  let (_, outfile) := outfile.write outside.fails (c.offsets.flatMap Codec.le64.encode)
  let (_, outfile) := outfile.write outside.fails (c.hashes.flatMap Codec.le32.encode)
  some outfile

end Phocoena.DiscIO
