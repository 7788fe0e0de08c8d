import Phocoena.DiscIO.LaggedFibonacciGenerator

/-! # RVZ packing

`RVZPack`: a scan of the input for zero bytes and for junk that a seed generates, and the loop
that stores each chunk as runs of data and of junk.
-/

namespace Phocoena.DiscIO

open LaggedFibonacciGenerator

def BLOCK_TOTAL_SIZE : Nat := 0x8000

structure FileInfo where
  offset : Nat
  size : Nat

/-- A lookup that only returns a file which the offset is in. -/
structure FileSystem where
  findFileInfo : Nat → Option FileInfo
  contains : ∀ offset file, findFileInfo offset = some file →
    file.offset ≤ offset ∧ offset < file.offset + file.size

structure JunkInfo where
  start_offset : Nat
  seed : Seed

/-- `std::map<size_t, JunkInfo>`, from the end offset of each run. -/
abbrev JunkMap := List (Nat × JunkInfo)

namespace JunkMap

def emplace (key : Nat) (info : JunkInfo) : JunkMap → JunkMap
  | [] => [(key, info)]
  | (k, i) :: map =>
    if key < k then (key, info) :: (k, i) :: map
    else if key = k then (k, i) :: map
    else (k, i) :: emplace key info map

def upperBound (map : JunkMap) (key : Nat) : Option (Nat × JunkInfo) :=
  map.find? fun entry => key < entry.1

end JunkMap

namespace RVZPack

/-- `LaggedFibonacciGenerator::SEED_SIZE * sizeof(u32)` -/
def SEED_BYTES : Nat := SEED_SIZE * 4

def zeroSeed : Seed := Vector.replicate SEED_SIZE 0

/-! ## The scan -/

/-- What the two loops do not change. -/
structure Input where
  data : List Byte
  data_offset : Nat
  compression : Bool
  file_system : Option FileSystem

def Input.total_size (input : Input) : Nat := input.data.length

structure Scan where
  position : Nat
  data_offset : Nat
  junk_info : JunkMap

/-- The number of zero bytes from `position` on. -/
def zeroes (input : Input) (position : Nat) : Nat :=
  ((input.data.drop position).takeWhile (· = 0)).length

/-- The scan after it has skipped the zero bytes. -/
def skipZeroes (input : Input) (s : Scan) : Scan where
  position := s.position + zeroes input s.position
  data_offset := s.data_offset + zeroes input s.position
  junk_info :=
    if !input.compression ∧ zeroes input s.position > SEED_BYTES then
      s.junk_info.emplace (s.position + zeroes input s.position) ⟨s.position, zeroSeed⟩
    else s.junk_info

/-- How much of the input `GetSeed` is asked about: at most the rest of the block. -/
def bytesToRead (input : Input) (s : Scan) : Nat :=
  min (alignUp (s.data_offset + 1) BLOCK_TOTAL_SIZE - s.data_offset)
    (input.total_size - s.position)

/-- `GetSeed` as the scan calls it. -/
def seedAt (input : Input) (s : Scan) : Except ReadPastEnd (Nat × Option Seed) :=
  getSeed input.data s.position (bytesToRead input s) (s.data_offset % BLOCK_TOTAL_SIZE)

def storeJunk (s : Scan) : Nat × Option Seed → JunkMap
  | (bytes_reconstructed, some seed) =>
    if bytes_reconstructed > 0 then
      s.junk_info.emplace (s.position + bytes_reconstructed) ⟨s.position, seed⟩
    else s.junk_info
  | (_, none) => s.junk_info

/-- The rest of an iteration: on behind a file that ends in this block, or to the next block. -/
def advance (input : Input) (s : Scan) (found : Nat × Option Seed) : Scan :=
  let next : Scan := ⟨s.position + bytesToRead input s, s.data_offset + bytesToRead input s,
    storeJunk s found⟩
  match input.file_system.bind fun fs => fs.findFileInfo (s.data_offset + found.1) with
  | none => next
  | some file_info =>
    let file_end_offset := file_info.offset + file_info.size
    if file_end_offset < s.data_offset + bytesToRead input s then
      ⟨s.position + (file_end_offset - s.data_offset), file_end_offset, storeJunk s found⟩
    else next

def scanStep (input : Input) (s : Scan) : Except ReadPastEnd Scan := do
  let s := skipZeroes input s
  let found ← seedAt input s
  .ok (advance input s found)

/-- The loop of the scan; nothing when the fuel runs out. -/
def scanLoop (input : Input) : (fuel : Nat) → Scan → Option (Except ReadPastEnd JunkMap)
  | 0, _ => none
  | fuel + 1, s =>
    if s.position < input.total_size then
      match scanStep input s with
      | .error e => some (.error e)
      | .ok s => scanLoop input fuel s
    else some (.ok s.junk_info)

def scan (input : Input) : Option (Except ReadPastEnd JunkMap) :=
  scanLoop input (input.total_size + 1) ⟨0, input.data_offset, []⟩

/-! ## The chunks -/

/-- `OutputParametersEntry`: whether the chunk reuses a group or may be reused itself, and what
is stored for it. -/
structure Entry where
  reused_group : Bool
  reuse_id : Bool
  main_data : List Byte
  rvz_packed_size : BitVec 32

structure Chunk where
  current_offset : Nat
  first_loop_iteration : Bool
  main_data : List Byte
  rvz_packed_size : BitVec 32

/-- The next junk that is worth storing as such: its start and its end in the chunk, and its
seed. -/
def nextJunk (junk_info : JunkMap) (store_junk_efficiently : Bool)
    (current_offset end_offset : Nat) : Option (Nat × Nat × Seed) :=
  if store_junk_efficiently ∧ end_offset - current_offset > SEED_BYTES then
    match junk_info.upperBound (current_offset + SEED_BYTES) with
    | none => none
    | some (key, info) =>
      if info.start_offset + SEED_BYTES < end_offset then
        some (max current_offset info.start_offset, min end_offset key, info.seed)
      else none
  else none

/-- A run of data: its size and its bytes. -/
def pushData (input : Input) (c : Chunk) (next_junk_start : Nat) : Chunk :=
  let non_junk_bytes := next_junk_start - c.current_offset
  if non_junk_bytes > 0 then
    { c with
      current_offset := c.current_offset + non_junk_bytes
      main_data := c.main_data ++ Codec.be32.encode (BitVec.ofNat 32 non_junk_bytes) ++
        (input.data.drop c.current_offset).take non_junk_bytes
      rvz_packed_size := c.rvz_packed_size + BitVec.ofNat 32 (4 + non_junk_bytes) }
  else c

/-- A run of junk: its size with the upper bit set, and the seed. -/
def pushJunk (c : Chunk) (next_junk_end : Nat) (seed : Seed) : Chunk :=
  let junk_bytes := next_junk_end - c.current_offset
  if junk_bytes > 0 then
    { c with
      current_offset := c.current_offset + junk_bytes
      main_data := c.main_data ++
        Codec.be32.encode (BitVec.ofNat 32 junk_bytes ||| 0x80000000#32) ++
        (Codec.le32.array SEED_SIZE).encode seed
      rvz_packed_size := c.rvz_packed_size + BitVec.ofNat 32 (4 + SEED_BYTES) }
  else c

/-- The loop over a chunk; nothing when the fuel runs out. -/
def packLoop (input : Input) (junk_info : JunkMap) (store_junk_efficiently : Bool)
    (end_offset : Nat) : (fuel : Nat) → Chunk → Option Chunk
  | 0, _ => none
  | fuel + 1, c =>
    if c.current_offset < end_offset then
      match nextJunk junk_info store_junk_efficiently c.current_offset end_offset with
      | none =>
        if c.first_loop_iteration then
          some { c with main_data := c.main_data ++
            (input.data.drop c.current_offset).take (end_offset - c.current_offset) }
        else packLoop input junk_info store_junk_efficiently end_offset fuel
          (pushData input c end_offset)
      | some (next_junk_start, next_junk_end, seed) =>
        let c := { c with first_loop_iteration := false }
        packLoop input junk_info store_junk_efficiently end_offset fuel
          (pushJunk (pushData input c next_junk_start) next_junk_end seed)
    else some c

/-- The flags and sizes of a call. -/
structure Parameters where
  bytes_per_chunk : Nat
  multipart : Bool
  allow_junk_reuse : Bool

def endOffset (input : Input) (p : Parameters) (i : Nat) : Nat :=
  min (i * p.bytes_per_chunk + p.bytes_per_chunk) input.total_size

def packChunk (input : Input) (p : Parameters) (junk_info : JunkMap) (i : Nat) (entry : Entry) :
    Option Entry :=
  if entry.reused_group then some entry
  else
    (packLoop input junk_info (p.allow_junk_reuse || !entry.reuse_id) (endOffset input p i)
      (p.bytes_per_chunk + 1)
      ⟨i * p.bytes_per_chunk, !p.multipart, entry.main_data, entry.rvz_packed_size⟩).map fun c =>
        { entry with main_data := c.main_data, rvz_packed_size := c.rvz_packed_size }

def packChunks (input : Input) (p : Parameters) (junk_info : JunkMap) :
    Nat → List Entry → Option (List Entry)
  | _, [] => some []
  | i, entry :: out => do
    let entry ← packChunk input p junk_info i entry
    let out ← packChunks input p junk_info (i + 1) out
    some (entry :: out)

/-- `RVZPack`: the entries with their data, or a read past the end of the input. Nothing stands
for a loop that does not end. -/
def rvzPack (input : Input) (p : Parameters) (out : List Entry) :
    Option (Except ReadPastEnd (List Entry)) := do
  match ← scan input with
  | .error e => some (.error e)
  | .ok junk_info => (packChunks input p junk_info 0 out).map .ok

end RVZPack

end Phocoena.DiscIO
