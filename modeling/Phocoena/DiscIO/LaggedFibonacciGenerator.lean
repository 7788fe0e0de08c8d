import Phocoena.Lib.Codec
import Mathlib.Logic.Function.Iterate

/-! # The lagged Fibonacci generator

The generator of the junk data between the files of a disc, and `GetSeed`, which looks for a
seed that generates given data. The words of the buffer are stored as little-endian bytes.
-/

namespace Phocoena.DiscIO

/-- `Common::swap32`. -/
def swap32 (x : BitVec 32) : BitVec 32 :=
  x.extractLsb' 0 8 ++ x.extractLsb' 8 8 ++ x.extractLsb' 16 8 ++ x.extractLsb' 24 8

def alignUp (value size : Nat) : Nat := (value + (size - 1)) / size * size

namespace LaggedFibonacciGenerator

def SEED_SIZE : Nat := 17
def LFG_K : Nat := 521
def LFG_J : Nat := 32

/-- `LFG_K * sizeof(u32)` -/
def BUFFER_BYTES : Nat := LFG_K * 4

abbrev Seed := Vector (BitVec 32) SEED_SIZE

abbrev Buffer := Vector (BitVec 32) LFG_K

def word (b : Buffer) (i : Nat) : BitVec 32 := b[i]?.getD 0

/-- `m_buffer[i] ^= m_buffer[j]` -/
def xorAssign (b : Buffer) (i j : Nat) : Buffer := b.setIfInBounds i (word b i ^^^ word b j)

/-- `Forward()` -/
def forward (b : Buffer) : Buffer :=
  let b := (List.range LFG_J).foldl (fun b i => xorAssign b i (i + LFG_K - LFG_J)) b
  (List.range' LFG_J (LFG_K - LFG_J)).foldl (fun b i => xorAssign b i (i - LFG_J)) b

/-- `Backward(start_word, end_word)`. The loops count down to above their lower end. -/
def backward (b : Buffer) (start_word end_word : Nat) : Buffer :=
  let loop_end := max LFG_J start_word
  let b := (List.range' loop_end (min end_word LFG_K - loop_end)).reverse.foldl
    (fun b i => xorAssign b i (i - LFG_J)) b
  (List.range' start_word (min end_word LFG_J - start_word)).reverse.foldl
    (fun b i => xorAssign b i (i + LFG_K - LFG_J)) b

/-- One round of the loop of `Initialize`, or nothing where the existing word does not fit. -/
def initializeWord (check_existing_data : Bool) (b : Buffer) (i : Nat) : Option Buffer :=
  let calculated := word b (i - 17) <<< 23 ^^^ word b (i - 16) >>> 9 ^^^ word b (i - 1)
  let actual := word b i &&& 0xFF00FFFF#32 ||| word b i <<< 2 &&& 0x00FC0000#32
  if check_existing_data ∧ calculated &&& 0xFFFCFFFF#32 ≠ actual then none
  else some (b.setIfInBounds i calculated)

/-- The shift by 18 instead of 16, and the byte order of the output. -/
def outputWord (x : BitVec 32) : BitVec 32 := swap32 (x &&& 0xFF00FFFF#32 ||| x >>> 2 &&& 0x00FF0000#32)

/-- `Initialize` -/
def initializeBuffer (check_existing_data : Bool) (b : Buffer) : Option Buffer :=
  ((List.range' SEED_SIZE (LFG_K - SEED_SIZE)).foldlM (initializeWord check_existing_data) b).map
    fun b => forward^[4] (b.map outputWord)

/-- The loop of `Reinitialize` that reconstructs the missing bits. -/
def reconstructSeed (b : Buffer) : Buffer :=
  (List.range SEED_SIZE).foldl (fun b i => b.setIfInBounds i
    (word b i &&& 0xFF00FFFF#32 ||| word b i <<< 2 &&& 0x00FC0000#32 |||
      (word b (i + 16) ^^^ word b (i + 15)) <<< 9 &&& 0x00030000#32)) b

/-- `Reinitialize`: the buffer and `seed_out`. -/
def reinitialize (b : Buffer) : Option (Buffer × Seed) :=
  let b := (fun b => backward b 0 LFG_K)^[4] b
  let b := reconstructSeed (b.map swap32)
  let seed_out : Seed := Vector.ofFn fun i => swap32 (word b i)
  (initializeBuffer true b).map fun b => (b, seed_out)

end LaggedFibonacciGenerator

open LaggedFibonacciGenerator

structure LaggedFibonacciGenerator where
  m_buffer : Buffer
  m_position_bytes : Nat

namespace LaggedFibonacciGenerator

/-- `SetSeed`. Every word of the buffer after the seed is calculated from it. -/
def setSeed (lfg : LaggedFibonacciGenerator) (seed : Seed) : LaggedFibonacciGenerator :=
  let b := (List.range SEED_SIZE).foldl
    (fun b i => b.setIfInBounds i (swap32 (seed[i]?.getD 0))) lfg.m_buffer
  ⟨(initializeBuffer false b).getD b, 0⟩

/-- `reinterpret_cast<u8*>(m_buffer.data())[i]` -/
def byteAt (b : Buffer) (i : Nat) : Byte := (word b (i / 4)).extractLsb' (8 * (i % 4)) 8

def getByte (lfg : LaggedFibonacciGenerator) : Byte × LaggedFibonacciGenerator :=
  (byteAt lfg.m_buffer lfg.m_position_bytes,
    if lfg.m_position_bytes + 1 = BUFFER_BYTES then ⟨forward lfg.m_buffer, 0⟩
    else ⟨lfg.m_buffer, lfg.m_position_bytes + 1⟩)

/-- The loop of `GetBytes`; every round but the last goes to the end of the buffer. -/
def getBytesLoop : (fuel : Nat) → LaggedFibonacciGenerator → (count : Nat) →
    List Byte × LaggedFibonacciGenerator
  | 0, lfg, _ => ([], lfg)
  | fuel + 1, lfg, count =>
    if count = 0 then ([], lfg)
    else
      let length := min count (BUFFER_BYTES - lfg.m_position_bytes)
      let out := (List.range' lfg.m_position_bytes length).map (byteAt lfg.m_buffer)
      let next : LaggedFibonacciGenerator :=
        if lfg.m_position_bytes + length = BUFFER_BYTES then ⟨forward lfg.m_buffer, 0⟩
        else ⟨lfg.m_buffer, lfg.m_position_bytes + length⟩
      let (rest, next) := getBytesLoop fuel next (count - length)
      (out ++ rest, next)

def getBytes (lfg : LaggedFibonacciGenerator) (count : Nat) :
    List Byte × LaggedFibonacciGenerator :=
  getBytesLoop count lfg count

/-- The loop of `Forward(count)`. -/
def forwardLoop : (fuel : Nat) → LaggedFibonacciGenerator → LaggedFibonacciGenerator
  | 0, lfg => lfg
  | fuel + 1, lfg =>
    if lfg.m_position_bytes ≥ BUFFER_BYTES then
      forwardLoop fuel ⟨forward lfg.m_buffer, lfg.m_position_bytes - BUFFER_BYTES⟩
    else lfg

def forwardBytes (lfg : LaggedFibonacciGenerator) (count : Nat) : LaggedFibonacciGenerator :=
  forwardLoop (lfg.m_position_bytes + count) ⟨lfg.m_buffer, lfg.m_position_bytes + count⟩

/-! ## GetSeed -/

/-- A read past the end of the input. -/
inductive ReadPastEnd where
  | readPastEnd
  deriving DecidableEq

def readWord (data : List Byte) (i : Nat) : Except ReadPastEnd (BitVec 32) :=
  match Codec.le32.decode (data.drop i) with
  | none => .error .readPastEnd
  | some (x, _) => .ok x

/-- `(swap32(x) & 0x00C00000) == (swap32(x) >> 2 & 0x00C00000)` -/
def looksGenerated (x : BitVec 32) : Bool :=
  swap32 x &&& 0x00C00000#32 == (swap32 x >>> 2 &&& 0x00C00000#32)

/-- `std::all_of` over the `n` words from `i` on, up to the first one that does not fit. -/
def allLookGenerated (data : List Byte) (i : Nat) : Nat → Except ReadPastEnd Bool
  | 0 => .ok true
  | n + 1 => do
    let x ← readWord data i
    if looksGenerated x then allLookGenerated data (i + 4) n else .ok false

/-- The words of the buffer that `std::copy_n` fills, the first one at `data_offset_mod_k`. -/
def copyWords (data : List Byte) (i data_offset_mod_k : Nat) : Except ReadPastEnd Buffer := do
  let words ← (List.range LFG_K).mapM fun k => readWord data (i + 4 * k)
  .ok (Vector.ofFn fun k =>
    if data_offset_mod_k ≤ k then words.getD (k - data_offset_mod_k) 0
    else words.getD (LFG_K - data_offset_mod_k + k) 0)

/-- `GetSeed` on the `size` words of the input from the byte `i` on. -/
def getSeedWords (data : List Byte) (i size data_offset : Nat) :
    Except ReadPastEnd (Option (Buffer × Seed)) :=
  if size < LFG_K then .ok none
  else do
    if ← allLookGenerated data i LFG_K then
      let data_offset_mod_k := data_offset % LFG_K
      let data_offset_div_k := data_offset / LFG_K
      let b ← copyWords data i data_offset_mod_k
      let b := backward b 0 data_offset_mod_k
      let b := (fun b => backward b 0 LFG_K)^[data_offset_div_k] b
      .ok (( reinitialize b).map fun (b, seed) => (forward^[data_offset_div_k] b, seed))
    else .ok none

/-- The loop of `GetSeed` over the data: how many bytes the generator outputs. -/
def reconstructedBytes (lfg : LaggedFibonacciGenerator) : List Byte → Nat
  | [] => 0
  | x :: data => if lfg.getByte.1 = x then reconstructedBytes lfg.getByte.2 data + 1 else 0

/-- `GetSeed` on the `size` bytes of the input from the byte `position` on; `size_t` arithmetic
wraps around. The start of the input is aligned. -/
def getSeed (data : List Byte) (position size data_offset : Nat) :
    Except ReadPastEnd (Nat × Option Seed) :=
  if position % 4 ≠ data_offset % 4 then .ok (0, none)
  else
    let bytes_to_skip := alignUp data_offset 4 - data_offset
    let u32_size := (size + 2 ^ 64 - bytes_to_skip) % 2 ^ 64 / 4
    let u32_data_offset := (data_offset + bytes_to_skip) / 4
    do
      match ← getSeedWords data (position + bytes_to_skip) u32_size u32_data_offset with
      | none => .ok (0, none)
      | some (b, seed) =>
        .ok (reconstructedBytes ⟨b, data_offset % BUFFER_BYTES⟩ ((data.drop position).take size),
          some seed)

end LaggedFibonacciGenerator

end Phocoena.DiscIO
