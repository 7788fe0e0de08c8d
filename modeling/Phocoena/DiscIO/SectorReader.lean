import Phocoena.Lib.Codec

/-! # Sector readers

Reads of any bytes of a disc image that is stored in blocks, through a cache of whole chunks of
blocks. What is behind the blocks is a `BlockSource`.
-/

namespace Phocoena.DiscIO

/-- What must never happen in a read. -/
inductive Fault where
  | divideByZero
  | outOfBounds
  | endless
deriving DecidableEq, Repr

def u32 (n : Nat) : Nat := n % 2 ^ 32
def u64 (n : Nat) : Nat := n % 2 ^ 64

/-- The virtual functions of a reader: `GetDataSize`, and `GetBlock` with its result and the bytes
that it stored from `out_ptr` on. -/
structure BlockSource where
  dataSize : Nat
  getBlock : Nat → Except Fault (Bool × List Byte)

/-! ## Cache lines -/

structure Cache where
  data : List Byte := []
  block_idx : Nat := 0
  num_blocks : Nat := 0
  lru_sreg : Nat := 0
deriving DecidableEq, Repr

namespace Cache

def reset (c : Cache) : Cache := { c with block_idx := 0, num_blocks := 0, lru_sreg := 0 }

def markUsed (c : Cache) : Cache := { c with lru_sreg := c.lru_sreg ||| 0x80000000 }

def fill (block count : Nat) (c : Cache) : Cache :=
  markUsed { c with block_idx := block, num_blocks := count }

def contains (c : Cache) (block : Nat) : Bool :=
  c.block_idx ≤ block && block - c.block_idx < c.num_blocks

def shiftLRU (c : Cache) : Cache := { c with lru_sreg := c.lru_sreg >>> 1 }

end Cache

def CACHE_LINES : Nat := 32

structure SectorReader where
  m_block_size : Nat := 0
  m_chunk_blocks : Nat := 1
  m_cache : List Cache := List.replicate CACHE_LINES {}
deriving DecidableEq, Repr

/-- `std::vector::resize` -/
def resize (size : Nat) (data : List Byte) : List Byte :=
  data.take size ++ List.replicate (size - data.length) 0

/-- Bytes stored into a buffer, which must have room for them. -/
def storeAt (position : Nat) (bytes buffer : List Byte) : Except Fault (List Byte) :=
  if position + bytes.length ≤ buffer.length then
    .ok (buffer.take position ++ bytes ++ buffer.drop (position + bytes.length))
  else .error .outOfBounds

namespace SectorReader

def setSectorSize (blocksize : Int) (s : SectorReader) : SectorReader :=
  let m_block_size := (max blocksize 0).toNat
  { s with
    m_block_size
    m_cache := s.m_cache.map fun c =>
      { c.reset with data := resize (u32 (s.m_chunk_blocks * m_block_size)) c.data } }

def findCacheLine (block_num : Nat) (s : SectorReader) : Option Nat × SectorReader :=
  match s.m_cache.findIdx? (·.contains block_num) with
  | none => (none, s)
  | some line => (some line, { s with m_cache := s.m_cache.modify line Cache.markUsed })

/-- One round of the loop of `GetEmptyCacheLine`: the lines and the oldest one so far. -/
def compareLine (state : List Cache × Nat) (line : Nat) : List Cache × Nat :=
  let (lines, oldest) := state
  if (lines.getD line {}).lru_sreg < (lines.getD oldest {}).lru_sreg then
    (lines.modify oldest Cache.shiftLRU, line)
  else (lines.modify line Cache.shiftLRU, oldest)

def getEmptyCacheLine (s : SectorReader) : Nat × SectorReader :=
  let (lines, oldest) := (List.range' 1 (s.m_cache.length - 1)).foldl compareLine (s.m_cache, 0)
  (oldest, { s with m_cache := lines.modify oldest Cache.reset })

/-! ## Reading chunks -/

/-- The buffer is written from `position` on. -/
def readMultipleAlignedBlocks (source : BlockSource) (block_size : Nat) :
    Nat → Nat → Nat → List Byte → Except Fault (Bool × List Byte)
  | 0, _, _, buffer => .ok (true, buffer)
  | cnt_blocks + 1, block_num, position, buffer => do
      let (read, bytes) ← source.getBlock block_num
      let buffer ← storeAt position bytes buffer
      if read then
        readMultipleAlignedBlocks source block_size cnt_blocks (u64 (block_num + 1))
          (position + block_size) buffer
      else .ok (false, buffer)

/-- The loop of `ReadChunk` that finds out how many blocks can be read; `i` were. -/
def probe (source : BlockSource) (block_size : Nat) :
    Nat → Nat → Nat → Nat → List Byte → Except Fault (Nat × List Byte)
  | 0, i, _, _, buffer => .ok (i, buffer)
  | cnt_blocks + 1, i, block_num, position, buffer => do
      let (read, bytes) ← source.getBlock block_num
      let buffer ← storeAt position bytes buffer
      if read then
        probe source block_size cnt_blocks (i + 1) (u64 (block_num + 1)) (position + block_size)
          buffer
      else do
        let buffer ← storeAt position (List.replicate ((cnt_blocks + 1) * block_size) 0) buffer
        .ok (i, buffer)

/-- The number of blocks of the disc, or 0 when its size is not known. -/
def endBlock (source : BlockSource) (block_size : Nat) : Nat :=
  u64 (source.dataSize + block_size - 1) / block_size

/-- The number of blocks of a chunk, without those behind the end of the disc. -/
def clampedCount (chunk_blocks end_block block_num : Nat) : Nat :=
  if end_block ≠ 0 then u32 (min chunk_blocks (u64 (end_block + (2 ^ 64 - block_num))))
  else chunk_blocks

def readChunk (source : BlockSource) (buffer : List Byte) (chunk_num : Nat) (s : SectorReader) :
    Except Fault (Nat × List Byte) :=
  if s.m_block_size = 0 then .error .divideByZero
  else do
    let block_num := u64 (chunk_num * s.m_chunk_blocks)
    let end_block := endBlock source s.m_block_size
    let cnt_blocks := clampedCount s.m_chunk_blocks end_block block_num
    let (read, buffer) ←
      readMultipleAlignedBlocks source s.m_block_size cnt_blocks block_num 0 buffer
    if read then do
      let rest := (s.m_chunk_blocks - cnt_blocks) * s.m_block_size
      let buffer ← storeAt (cnt_blocks * s.m_block_size) (List.replicate rest 0) buffer
      .ok (cnt_blocks, buffer)
    else if end_block = 0 then probe source s.m_block_size cnt_blocks 0 block_num 0 buffer
    else .ok (0, buffer)

def getCacheLine (source : BlockSource) (block_num : Nat) (s : SectorReader) :
    Except Fault (Option Nat × SectorReader) :=
  match s.findCacheLine block_num with
  | (some line, s) => .ok (some line, s)
  | (none, s) => do
      let (line, s) := s.getEmptyCacheLine
      let chunk_idx := block_num / s.m_chunk_blocks
      let (blocks_read, data) ← s.readChunk source (s.m_cache.getD line {}).data chunk_idx
      let s := { s with m_cache := s.m_cache.modify line fun c => { c with data } }
      if blocks_read = 0 then .ok (none, s)
      else
        let s := { s with
          m_cache := s.m_cache.modify line (Cache.fill (chunk_idx * s.m_chunk_blocks) blocks_read) }
        .ok (if (s.m_cache.getD line {}).contains block_num then some line else none, s)

/-! ## Reading bytes -/

/-- The loop of `Read`, with the bytes written so far. -/
def readLoop (source : BlockSource) :
    Nat → Nat → Nat → Nat → List Byte → SectorReader → Except Fault (Bool × List Byte × SectorReader)
  | _, _, 0, _, out, s => .ok (true, out, s)
  | 0, _, _, _, _, _ => .error .endless
  | fuel + 1, offset, remain, position_in_block, out, s =>
      if s.m_block_size = 0 then .error .divideByZero
      else do
        let block := offset / s.m_block_size
        let (found, s) ← s.getCacheLine source block
        match found with
        | none => .ok (false, out, s)
        | some line =>
            let cache := s.m_cache.getD line {}
            let read_offset :=
              u32 (u32 (block - cache.block_idx) * s.m_block_size + position_in_block)
            let can_read := u32 (s.m_block_size * cache.num_blocks + (2 ^ 32 - read_offset))
            let was_read := min can_read remain
            if read_offset + was_read ≤ cache.data.length then
              readLoop source fuel (u64 (offset + was_read)) (remain - was_read) 0
                (out ++ (cache.data.drop read_offset).take was_read) s
            else .error .outOfBounds

/-- The result, the bytes written, and the reader after the call. -/
def read (source : BlockSource) (offset size : Nat) (s : SectorReader) :
    Except Fault (Bool × List Byte × SectorReader) :=
  if source.dataSize < u64 (offset + size) then .ok (false, [], s)
  else if s.m_block_size = 0 then .error .divideByZero
  else s.readLoop source size offset size (u32 (offset % s.m_block_size)) []

/-- Calls of `Read` one after the other. -/
def readAll (source : BlockSource) :
    List (Nat × Nat) → SectorReader → Except Fault (List (Bool × List Byte))
  | [], _ => .ok []
  | (offset, size) :: reads, s => do
      let (done, bytes, s) ← s.read source offset size
      let results ← readAll source reads s
      .ok ((done, bytes) :: results)

end SectorReader

end Phocoena.DiscIO
