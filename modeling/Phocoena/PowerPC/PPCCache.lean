import Mathlib.Data.Nat.Log
import Mathlib.Data.Fintype.Prod
import Mathlib.Logic.Function.Basic

/-! # The data and instruction cache

The caches of the PowerPC: 128 sets of 8 ways with blocks of 32 bytes, written back when a
block is replaced or flushed. Which way holds an address is looked up in tables beside the
cache, one for each of the memories an address can mean.
-/

namespace Phocoena.PowerPC

abbrev Byte := BitVec 8

/-! ## Guest memory -/

inductive Region where
  | ram | exRam
  deriving DecidableEq, Repr

/-- The sizes `MemoryManager::Init` settles on. Each memory has at most the addresses with its
upper four bits. -/
structure MemoryLayout where
  ramSizeReal : Nat
  exRamSizeReal : Nat
  fakeVMemSize : Nat
  /-- `m_exram` is not null. -/
  hasExRam : Bool
  ram_bounds : 0x1000 ≤ ramSizeReal ∧ ramSizeReal ≤ 0x10000000
  exRam_bounds : 0x1000 ≤ exRamSizeReal ∧ exRamSizeReal ≤ 0x10000000
  fakeVMem_bounds : 0x1000 ≤ fakeVMemSize ∧ fakeVMemSize ≤ 0x10000000

/-- The contents of `m_ram` and `m_exram`. -/
abbrev Memory := Region → Nat → Byte

def nextPowerOf2 (value : Nat) : Nat := 2 ^ Nat.clog 2 value

namespace MemoryLayout

def ramMask (L : MemoryLayout) : BitVec 32 := BitVec.ofNat 32 (nextPowerOf2 L.ramSizeReal - 1)

def exRamMask (L : MemoryLayout) : BitVec 32 := BitVec.ofNat 32 (nextPowerOf2 L.exRamSizeReal - 1)

/-- The size is a power of two already (`0x02000000`), so rounding it up changes nothing. -/
def fakeVMemMask (L : MemoryLayout) : BitVec 32 := BitVec.ofNat 32 (nextPowerOf2 L.fakeVMemSize - 1)

/-- Where the bytes of an address begin and how many follow there. -/
def getSpanForAddress (L : MemoryLayout) (address : BitVec 32) : Option (Region × Nat × Nat) :=
  let address := address &&& 0x3FFFFFFF#32
  if address.toNat < L.ramSizeReal then
    some (.ram, address.toNat, L.ramSizeReal - address.toNat)
  else if L.hasExRam = true ∧ address >>> 28 = 1#32 ∧
      (address &&& 0x0FFFFFFF#32).toNat < L.exRamSizeReal then
    some (.exRam, (address &&& L.exRamMask).toNat,
      L.exRamSizeReal - (address &&& L.exRamMask).toNat)
  else none

def getPointerForRange (L : MemoryLayout) (address : BitVec 32) (size : Nat) :
    Option (Region × Nat) :=
  match L.getSpanForAddress address with
  | none => none
  | some (region, offset, length) => if length < size then none else some (region, offset)

/-- The buffer keeps its bytes when the range is not valid. -/
def copyFromEmu (L : MemoryLayout) (mem : Memory) (buffer : List Byte) (address : BitVec 32) :
    List Byte :=
  if buffer.length = 0 then buffer
  else match L.getPointerForRange address buffer.length with
    | none => buffer
    | some (region, offset) => (List.range buffer.length).map fun i => mem region (offset + i)

def copyToEmu (L : MemoryLayout) (mem : Memory) (address : BitVec 32) (data : List Byte) :
    Memory :=
  if data.length = 0 then mem
  else match L.getPointerForRange address data.length with
    | none => mem
    | some (region, offset) => fun r i =>
        if r = region ∧ offset ≤ i then (data[i - offset]?).getD (mem r i) else mem r i

end MemoryLayout

/-! ## The cache -/

def CACHE_EXRAM_BIT : BitVec 32 := 0x10000000#32
def CACHE_VMEM_BIT : BitVec 32 := 0x20000000#32

/-- The three vectors `lookup_table`, `lookup_table_ex` and `lookup_table_vmem`. -/
inductive Table where
  | ram | exRam | vmem
  deriving DecidableEq, Repr

def Table.ofAddress (addr : BitVec 32) : Table :=
  if addr &&& CACHE_VMEM_BIT ≠ 0#32 then .vmem
  else if addr &&& CACHE_EXRAM_BIT ≠ 0#32 then .exRam
  else .ram

def MemoryLayout.mask (L : MemoryLayout) : Table → BitVec 32
  | .ram => L.ramMask
  | .exRam => L.exRamMask
  | .vmem => L.fakeVMemMask

/-- The place of an address in the lookup tables. -/
def MemoryLayout.entry (L : MemoryLayout) (addr : BitVec 32) : Table × Nat :=
  (Table.ofAddress addr, ((addr &&& L.mask (Table.ofAddress addr)) >>> 5).toNat)

def setOf (addr : BitVec 32) : Fin 128 :=
  ⟨((addr >>> 5) &&& 0x7F#32).toNat, Nat.lt_of_le_of_lt (by
    rw [BitVec.toNat_and]
    exact Nat.and_le_right) (by decide : (0x7F#32).toNat < 128)⟩

theorem setOf_eq (addr : BitVec 32) : (setOf addr).val = addr.toNat / 32 % 128 := by
  rw [setOf]
  simp only [BitVec.toNat_and, BitVec.toNat_ushiftRight, Nat.shiftRight_eq_div_pow]
  exact Nat.and_two_pow_sub_one_eq_mod _ 7


def blockOf (addr : BitVec 32) : BitVec 32 := addr &&& ~~~0x1F#32

theorem and_blockMask (a : BitVec 32) : (a &&& ~~~31#32).toNat = a.toNat / 32 * 32 := by
  have mask : ∀ i < 32, (~~~31#32).getLsbD i = decide (5 ≤ i) := by decide
  have shifted : a &&& ~~~31#32 = (a >>> 5) <<< 5 := by
    apply BitVec.eq_of_getLsbD_eq
    intro i lt
    simp only [BitVec.getLsbD_and, mask i lt, BitVec.getLsbD_shiftLeft, BitVec.getLsbD_ushiftRight,
      lt, decide_true, Bool.true_and]
    by_cases low : i < 5
    · simp [low]
    · simp [low, Nat.le_of_not_lt low]
  rw [shifted, BitVec.toNat_shiftLeft, BitVec.toNat_ushiftRight, Nat.shiftLeft_eq,
    Nat.shiftRight_eq_div_pow]
  have := a.isLt
  omega

structure Cache where
  data : Fin 128 → Fin 8 → List Byte
  addrs : Fin 128 → Fin 8 → BitVec 32
  plru : Fin 128 → BitVec 8
  valid : Fin 128 → BitVec 8
  modified : Fin 128 → BitVec 8
  /-- A way, where the table does not hold `0xFF`. -/
  lookup : Table × Nat → Option (Fin 8)

def plruMask : Fin 8 → BitVec 8
  | 0 => 11 | 1 => 11 | 2 => 19 | 3 => 19 | 4 => 37 | 5 => 37 | 6 => 69 | 7 => 69

def plruValue : Fin 8 → BitVec 8
  | 0 => 11 | 1 => 3 | 2 => 17 | 3 => 1 | 4 => 36 | 5 => 4 | 6 => 64 | 7 => 0

/-- The first way without its bit, as the table `s_way_from_valid` lists it; the table ends
before `0xFF`. -/
def wayFromValid (valid : BitVec 8) : Option (Fin 8) :=
  (List.finRange 8).find? fun way => !valid.getLsbD way

def wayFromPlru (b : BitVec 8) : Fin 8 :=
  if b.getLsbD 0 then
    if b.getLsbD 2 then (if b.getLsbD 6 then 7 else 6)
    else if b.getLsbD 5 then 5 else 4
  else if b.getLsbD 1 then (if b.getLsbD 4 then 3 else 2)
  else if b.getLsbD 3 then 1 else 0

/-- `bits | (1 << way)` -/
def setBit (bits : BitVec 8) (way : Fin 8) : BitVec 8 := bits ||| (1#8 <<< way.val)

/-- `bits & ~(1 << way)` -/
def clearBit (bits : BitVec 8) (way : Fin 8) : BitVec 8 := bits &&& ~~~(1#8 <<< way.val)

/-- `bits & (1 << way)` -/
def hasBit (bits : BitVec 8) (way : Fin 8) : Bool := bits &&& (1#8 <<< way.val) ≠ 0#8

namespace Cache

def isValid (c : Cache) (set : Fin 128) (way : Fin 8) : Bool := hasBit (c.valid set) way

def isModified (c : Cache) (set : Fin 128) (way : Fin 8) : Bool := hasBit (c.modified set) way

/-- `array[set][way] = v` -/
def put {α : Type} (f : Fin 128 → Fin 8 → α) (set : Fin 128) (way : Fin 8) (v : α) :
    Fin 128 → Fin 8 → α := Function.update f set (Function.update (f set) way v)

def setLookup (L : MemoryLayout) (c : Cache) (addr : BitVec 32) (way : Option (Fin 8)) : Cache :=
  { c with lookup := Function.update c.lookup (L.entry addr) way }

def reset (c : Cache) : Cache :=
  { c with valid := fun _ => 0, plru := fun _ => 0, modified := fun _ => 0, lookup := fun _ => none }

def init : Cache :=
  reset ⟨fun _ _ => List.replicate 32 0, fun _ _ => 0, fun _ => 0, fun _ => 0, fun _ => 0, fun _ => none⟩

/-- The state of a cache with the memory behind it. -/
abbrev State := Cache × Memory

/-- Stores a block back to main memory, under the address it was loaded from. -/
def writeBack (L : MemoryLayout) (c : Cache) (mem : Memory) (set : Fin 128) (way : Fin 8)
    (addr : BitVec 32) : Memory :=
  if c.isModified set way then L.copyToEmu mem addr (c.data set way) else mem

/-- The branch of `GetCache` that makes room in a set. -/
def evict (L : MemoryLayout) (s : State) (set : Fin 128) (way : Fin 8) : State :=
  if s.1.isValid set way then
    (s.1.setLookup L (s.1.addrs set way) none, writeBack L s.1 s.2 set way (s.1.addrs set way))
  else s

/-- The branch of `GetCache` that loads a block. -/
def fill (L : MemoryLayout) (s : State) (set : Fin 128) (way : Fin 8) (addr : BitVec 32) : State :=
  ({ s.1.setLookup L addr (some way) with
      data := put s.1.data set way (L.copyFromEmu s.2 (s.1.data set way) addr)
      addrs := put s.1.addrs set way addr
      valid := Function.update s.1.valid set (setBit (s.1.valid set) way)
      modified := Function.update s.1.modified set (clearBit (s.1.modified set) way) }, s.2)

def selectWay (c : Cache) (set : Fin 128) : Fin 8 :=
  if c.valid set ≠ 0xFF#8 then (wayFromValid (c.valid set)).getD 0 else wayFromPlru (c.plru set)

def updatePlru (c : Cache) (set : Fin 128) (way : Fin 8) : Cache :=
  { c with plru :=
      Function.update c.plru set ((c.plru set &&& ~~~plruMask way) ||| plruValue way) }

def getCache (L : MemoryLayout) (s : State) (address : BitVec 32) (locked : Bool) :
    State × Fin 128 × Option (Fin 8) :=
  let addr := blockOf address
  let set := setOf addr
  match s.1.lookup (L.entry addr) with
  | some way => ((s.1.updatePlru set way, s.2), set, some way)
  | none =>
    if locked then (s, set, none)
    else
      let way := s.1.selectWay set
      let s := fill L (evict L s set way) set way addr
      ((s.1.updatePlru set way, s.2), set, some way)

/-- `memcpy` into a block -/
def patch (block : List Byte) (offset : Nat) (bytes : List Byte) : List Byte :=
  block.take offset ++ bytes ++ block.drop (offset + bytes.length)

def offsetInBlock (addr : BitVec 32) : Nat := (addr - (addr &&& ~~~31#32)).toNat

def lenInBlock (addr : BitVec 32) (len : Nat) : Nat :=
  min len (((addr + 32#32) &&& ~~~31#32) - addr).toNat

/-- What one round of the loop in `Read` puts in the buffer. -/
def readPart (L : MemoryLayout) (s : State) (addr : BitVec 32) (value : List Byte) (locked : Bool) :
    State × List Byte :=
  match getCache L s addr locked with
  | (s, set, some way) => (s, ((s.1.data set way).drop (offsetInBlock addr)).take value.length)
  | (s, _, none) => (s, L.copyFromEmu s.2 value addr)

def writePart (L : MemoryLayout) (s : State) (addr : BitVec 32) (value : List Byte) (locked : Bool) :
    State :=
  match getCache L s addr locked with
  | (s, set, some way) =>
      ({ s.1 with
          data := put s.1.data set way (patch (s.1.data set way) (offsetInBlock addr) value)
          modified := Function.update s.1.modified set (setBit (s.1.modified set) way) }, s.2)
  | (s, _, none) => (s.1, L.copyToEmu s.2 addr value)

/-! ## The loops over a range of addresses -/

theorem lenInBlock_eq (addr : BitVec 32) (len : Nat) :
    lenInBlock addr len = min len (32 - addr.toNat % 32) := by
  rw [lenInBlock, BitVec.toNat_sub, and_blockMask, BitVec.toNat_add]
  have := addr.isLt
  simp only [BitVec.toNat_ofNat]
  congr 1
  omega

theorem offsetInBlock_eq (addr : BitVec 32) : offsetInBlock addr = addr.toNat % 32 := by
  rw [offsetInBlock, BitVec.toNat_sub, and_blockMask]
  have := addr.isLt
  omega

theorem lenInBlock_pos (addr : BitVec 32) {len : Nat} (pos : 0 < len) : 0 < lenInBlock addr len := by
  rw [lenInBlock_eq]
  have := Nat.mod_lt addr.toNat (show 0 < 32 by decide)
  omega

def read (L : MemoryLayout) (s : State) (addr : BitVec 32) (buffer : List Byte) (locked : Bool) :
    State × List Byte :=
  if _more : 0 < buffer.length then
    let len := lenInBlock addr buffer.length
    let (s, value) := readPart L s addr (buffer.take len) locked
    let (s, rest) := read L s (addr + BitVec.ofNat 32 len) (buffer.drop len) locked
    (s, value ++ rest)
  else (s, [])
termination_by buffer.length
decreasing_by
  have := lenInBlock_pos addr _more
  rw [List.length_drop]
  omega

def write (L : MemoryLayout) (s : State) (addr : BitVec 32) (buffer : List Byte) (locked : Bool) :
    State :=
  if _more : 0 < buffer.length then
    let len := lenInBlock addr buffer.length
    let s := writePart L s addr (buffer.take len) locked
    write L s (addr + BitVec.ofNat 32 len) (buffer.drop len) locked
  else s
termination_by buffer.length
decreasing_by
  have := lenInBlock_pos addr _more
  rw [List.length_drop]
  omega

/-! ## Block operations -/

def store (L : MemoryLayout) (s : State) (addr : BitVec 32) : State :=
  match getCache L s addr true with
  | (s, _, none) => s
  | (s, set, some way) =>
      let mem :=
        if s.1.isValid set way && s.1.isModified set way then
          L.copyToEmu s.2 (blockOf addr) (s.1.data set way)
        else s.2
      ({ s.1 with
          modified := Function.update s.1.modified set (clearBit (s.1.modified set) way) }, mem)

/-- Forgets a valid block. -/
def discard (L : MemoryLayout) (c : Cache) (set : Fin 128) (way : Fin 8) : Cache :=
  { c.setLookup L (c.addrs set way) none with
      valid := Function.update c.valid set (clearBit (c.valid set) way)
      modified := Function.update c.modified set (clearBit (c.modified set) way) }

def invalidate (L : MemoryLayout) (s : State) (addr : BitVec 32) : State :=
  match getCache L s addr true with
  | (s, _, none) => s
  | (s, set, some way) => if s.1.isValid set way then (s.1.discard L set way, s.2) else s

def flush (L : MemoryLayout) (s : State) (addr : BitVec 32) : State :=
  match getCache L s addr true with
  | (s, _, none) => s
  | (s, set, some way) =>
      if s.1.isValid set way then
        (s.1.discard L set way, writeBack L s.1 s.2 set way (blockOf addr))
      else s

def touch (L : MemoryLayout) (s : State) (addr : BitVec 32) : State := (getCache L s addr false).1

/-- Every set and way, in the order of the nested loops. -/
@[irreducible] def lines : List (Fin 128 × Fin 8) := (List.finRange 128).product (List.finRange 8)

def flushLine (L : MemoryLayout) (c : Cache) (mem : Memory) (line : Fin 128 × Fin 8) : Memory :=
  if c.isValid line.1 line.2 then writeBack L c mem line.1 line.2 (c.addrs line.1 line.2) else mem

def flushAll (L : MemoryLayout) (s : State) : State :=
  (s.1.reset, lines.foldl (flushLine L s.1) s.2)

/-- Writes `way` or `0xFF` to the place of a valid block in the lookup tables. -/
def updateLookup (L : MemoryLayout) (value : Fin 8 → Option (Fin 8)) (c : Cache)
    (line : Fin 128 × Fin 8) : Cache :=
  if c.isValid line.1 line.2 then c.setLookup L (c.addrs line.1 line.2) (value line.2) else c

def updateLookups (L : MemoryLayout) (c : Cache) (value : Fin 8 → Option (Fin 8)) : Cache :=
  lines.foldl (updateLookup L value) c

/-- `DoState` in read mode; the arrays read are those of `saved`. -/
def doStateRead (L : MemoryLayout) (c saved : Cache) : Cache :=
  let cleared := c.updateLookups L fun _ => none
  updateLookups L { saved with lookup := cleared.lookup } some

/-- `InstructionCache::Invalidate` up to the call of the JIT: all ways of the set are dropped. -/
def icacheInvalidate (L : MemoryLayout) (c : Cache) (addr : BitVec 32) : Cache :=
  let set := setOf addr
  let c := ((List.finRange 8).map fun way => (set, way)).foldl (updateLookup L fun _ => none) c
  { c with valid := Function.update c.valid set 0, modified := Function.update c.modified set 0 }

end Cache

end Phocoena.PowerPC
