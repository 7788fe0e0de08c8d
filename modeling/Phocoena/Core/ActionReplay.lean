import Mathlib.Data.BitVec

/-! # Running Action Replay codes

The code functions of `Core/ActionReplay.cpp` and `ApplyMemoryPatch`. What they see of the guest,
and the addition of floats, are parameters. A run records the patches of each line that it carries
out.
-/

namespace Phocoena.ActionReplay

abbrev Byte := BitVec 8
abbrev Half := BitVec 16
abbrev Word := BitVec 32

def ZCODE_END : BitVec 3 := 0x00
def ZCODE_NORM : BitVec 3 := 0x02
def ZCODE_ROW : BitVec 3 := 0x03
def ZCODE_04 : BitVec 3 := 0x04

def CONDTIONAL_EQUAL : BitVec 3 := 0x01
def CONDTIONAL_NOT_EQUAL : BitVec 3 := 0x02
def CONDTIONAL_LESS_THAN_SIGNED : BitVec 3 := 0x03
def CONDTIONAL_GREATER_THAN_SIGNED : BitVec 3 := 0x04
def CONDTIONAL_LESS_THAN_UNSIGNED : BitVec 3 := 0x05
def CONDTIONAL_GREATER_THAN_UNSIGNED : BitVec 3 := 0x06
def CONDTIONAL_AND : BitVec 3 := 0x07

def CONDTIONAL_ONE_LINE : BitVec 2 := 0x00
def CONDTIONAL_TWO_LINES : BitVec 2 := 0x01
def CONDTIONAL_ALL_LINES_UNTIL : BitVec 2 := 0x02
def CONDTIONAL_ALL_LINES : BitVec 2 := 0x03

def DATATYPE_8BIT : BitVec 2 := 0x00
def DATATYPE_16BIT : BitVec 2 := 0x01
def DATATYPE_32BIT : BitVec 2 := 0x02
def DATATYPE_32BIT_FLOAT : BitVec 2 := 0x03

def SUB_RAM_WRITE : BitVec 2 := 0x00
def SUB_WRITE_POINTER : BitVec 2 := 0x01
def SUB_ADD_CODE : BitVec 2 := 0x02
def SUB_MASTER_CODE : BitVec 2 := 0x03

structure ARAddr where
  address : Word

namespace ARAddr

variable (addr : ARAddr)

def gcaddr : BitVec 25 := addr.address.extractLsb' 0 25
def size : BitVec 2 := addr.address.extractLsb' 25 2
def type : BitVec 3 := addr.address.extractLsb' 27 3
def subtype : BitVec 2 := addr.address.extractLsb' 30 2

def GCAddress : Word := addr.gcaddr.setWidth 32 ||| 0x80000000

end ARAddr

structure AREntry where
  cmd_addr : Word
  value : Word

/-! ## The guest -/

/-- `HostRead`, `HostWrite<u8>` and `HostIsRAMAddress` for the memory of the guest, and the sum of
a float, given by its bits, and an integer. -/
structure MMU (M : Type) where
  HostRead8 : M → Word → Byte
  HostRead16 : M → Word → Half
  HostRead32 : M → Word → Word
  HostWrite8 : M → Byte → Word → M
  HostIsRAMAddress : M → Word → Bool
  addFloat : Word → Word → Word

inductive Patch where
  | u8 (value : Byte) (address : Word)
  | u16 (value : Half) (address : Word)
  | u32 (value : Word) (address : Word)
deriving DecidableEq

def Patch.address : Patch → Word
  | .u8 _ address => address
  | .u16 _ address => address
  | .u32 _ address => address

/-- The big endian bytes. -/
def Patch.bytes : Patch → List Byte
  | .u8 value _ => [value]
  | .u16 value _ => [value.extractLsb' 8 8, value.extractLsb' 0 8]
  | .u32 value _ => [value.extractLsb' 24 8, value.extractLsb' 16 8, value.extractLsb' 8 8,
      value.extractLsb' 0 8]

/-- The memory, and the patches that a line has applied to it. -/
structure Guest (M : Type) where
  memory : M
  patches : List Patch

section

variable {M : Type} (mmu : MMU M)

/-- The loop of `ApplyMemoryPatch` on the bytes; bytes that would not change are not written. -/
def writeBytes : List Byte → Word → M → M
  | [], _, memory => memory
  | value :: values, address, memory =>
      writeBytes values (address + 1)
        (if mmu.HostRead8 memory address ≠ value then mmu.HostWrite8 memory value address
        else memory)

def ApplyMemoryPatch (patch : Patch) (guest : Guest M) : Guest M :=
  { memory :=
      if mmu.HostIsRAMAddress guest.memory patch.address then
        writeBytes mmu patch.bytes patch.address guest.memory
      else guest.memory
    patches := guest.patches ++ [patch] }

/-! ## The code functions -/

/-- `for (u32 i = 0; i <= repeat; ++i)`, which has `count` turns left. -/
def fill (patch : Nat → Patch) : (count i : Nat) → Guest M → Guest M
  | 0, _, guest => guest
  | count + 1, i, guest => fill patch count (i + 1) (ApplyMemoryPatch mmu (patch i) guest)

def Subtype_RamWriteAndFill (addr : ARAddr) (data : Word) (guest : Guest M) : Bool × Guest M :=
  let new_addr := addr.GCAddress
  if addr.size = DATATYPE_8BIT then
    let count := (data >>> 8).toNat
    (true, fill mmu (fun i => .u8 (data.setWidth 8) (new_addr + BitVec.ofNat 32 i))
      (count + 1) 0 guest)
  else if addr.size = DATATYPE_16BIT then
    let count := (data >>> 16).toNat
    (true, fill mmu (fun i => .u16 (data.setWidth 16) (new_addr + BitVec.ofNat 32 i * 2))
      (count + 1) 0 guest)
  else if addr.size = DATATYPE_32BIT_FLOAT ∨ addr.size = DATATYPE_32BIT then
    (true, ApplyMemoryPatch mmu (.u32 data new_addr) guest)
  else (false, guest)

def Subtype_WriteToPointer (addr : ARAddr) (data : Word) (guest : Guest M) : Bool × Guest M :=
  let new_addr := addr.GCAddress
  let ptr := mmu.HostRead32 guest.memory new_addr
  if addr.size = DATATYPE_8BIT then
    let offset := data >>> 8
    (true, ApplyMemoryPatch mmu (.u8 (data.setWidth 8) (ptr + offset)) guest)
  else if addr.size = DATATYPE_16BIT then
    let offset := (data >>> 16) <<< 1
    (true, ApplyMemoryPatch mmu (.u16 (data.setWidth 16) (ptr + offset)) guest)
  else if addr.size = DATATYPE_32BIT_FLOAT ∨ addr.size = DATATYPE_32BIT then
    (true, ApplyMemoryPatch mmu (.u32 data ptr) guest)
  else (false, guest)

def Subtype_AddCode (addr : ARAddr) (data : Word) (guest : Guest M) : Bool × Guest M :=
  let new_addr := addr.GCAddress
  if addr.size = DATATYPE_8BIT then
    let value := mmu.HostRead8 guest.memory new_addr + data.setWidth 8
    (true, ApplyMemoryPatch mmu (.u8 value new_addr) guest)
  else if addr.size = DATATYPE_16BIT then
    let value := mmu.HostRead16 guest.memory new_addr + data.setWidth 16
    (true, ApplyMemoryPatch mmu (.u16 value new_addr) guest)
  else if addr.size = DATATYPE_32BIT then
    let value := mmu.HostRead32 guest.memory new_addr + data
    (true, ApplyMemoryPatch mmu (.u32 value new_addr) guest)
  else if addr.size = DATATYPE_32BIT_FLOAT then
    let newval := mmu.addFloat (mmu.HostRead32 guest.memory new_addr) data
    (true, ApplyMemoryPatch mmu (.u32 newval new_addr) guest)
  else (false, guest)

/-- The loop of `ZeroCode_FillAndSlide`. -/
def slide (patch : Word → Word → Patch) (val_incr addr_incr : Word) :
    (count : Nat) → (val curr_addr : Word) → Guest M → Guest M
  | 0, _, _, guest => guest
  | count + 1, val, curr_addr, guest =>
      slide patch val_incr addr_incr count (val + val_incr) (curr_addr + addr_incr)
        (ApplyMemoryPatch mmu (patch val curr_addr) guest)

def ZeroCode_FillAndSlide (val_last : Word) (addr : ARAddr) (data : Word) (guest : Guest M) :
    Bool × Guest M :=
  let new_addr := (ARAddr.mk val_last).GCAddress
  let size := (ARAddr.mk val_last).size
  let addr_incr : Half := (data &&& 0xFFFF).setWidth 16
  let val_incr : Byte := (data >>> 24).setWidth 8
  let write_num : Byte := ((data &&& 0xFF0000) >>> 16).setWidth 8
  if size = DATATYPE_8BIT then
    (true, slide mmu (fun val => .u8 (val.setWidth 8)) (val_incr.signExtend 32)
      (addr_incr.signExtend 32) write_num.toNat addr.address new_addr guest)
  else if size = DATATYPE_16BIT then
    (true, slide mmu (fun val => .u16 (val.setWidth 16)) (val_incr.signExtend 32)
      (addr_incr.signExtend 32 * 2) write_num.toNat addr.address new_addr guest)
  else if size = DATATYPE_32BIT then
    (true, slide mmu (fun val => .u32 val) (val_incr.signExtend 32)
      (addr_incr.signExtend 32 * 4) write_num.toNat addr.address new_addr guest)
  else (false, guest)

/-- The loop of `ZeroCode_MemoryCopy`, with `count` turns left. -/
def copyBytes (src dest : Word) : (count i : Nat) → Guest M → Guest M
  | 0, _, guest => guest
  | count + 1, i, guest =>
      let value := mmu.HostRead8 guest.memory (src + BitVec.ofNat 32 i)
      copyBytes src dest count (i + 1)
        (ApplyMemoryPatch mmu (.u8 value (dest + BitVec.ofNat 32 i)) guest)

def ZeroCode_MemoryCopy (val_last : Word) (addr : ARAddr) (data : Word) (guest : Guest M) :
    Bool × Guest M :=
  let addr_dest := val_last &&& ~~~0x06000000
  let addr_src := addr.GCAddress
  let num_bytes : Byte := (data &&& 0x7FFF).setWidth 8
  if data &&& 0xFF0000 = 0 then
    if data >>> 24 ≠ 0 then
      let ptr_dest := mmu.HostRead32 guest.memory addr_dest
      let ptr_src := mmu.HostRead32 guest.memory addr_src
      (true, copyBytes mmu ptr_src ptr_dest num_bytes.toNat 0 guest)
    else (true, copyBytes mmu addr_src addr_dest num_bytes.toNat 0 guest)
  else (false, guest)

/-- `Subtype_MasterCodeAndWriteToCCXXXXXX` is not implemented. -/
def NormalCode (addr : ARAddr) (data : Word) (guest : Guest M) : Bool × Guest M :=
  if addr.subtype = SUB_RAM_WRITE then Subtype_RamWriteAndFill mmu addr data guest
  else if addr.subtype = SUB_WRITE_POINTER then Subtype_WriteToPointer mmu addr data guest
  else if addr.subtype = SUB_ADD_CODE then Subtype_AddCode mmu addr data guest
  else (false, guest)

def CompareValues (val1 val2 : Word) (type : BitVec 3) : Bool :=
  if type = CONDTIONAL_EQUAL then val1 = val2
  else if type = CONDTIONAL_NOT_EQUAL then val1 ≠ val2
  else if type = CONDTIONAL_LESS_THAN_SIGNED then val1.slt val2
  else if type = CONDTIONAL_GREATER_THAN_SIGNED then val2.slt val1
  else if type = CONDTIONAL_LESS_THAN_UNSIGNED then val1.ult val2
  else if type = CONDTIONAL_GREATER_THAN_UNSIGNED then val2.ult val1
  else if type = CONDTIONAL_AND then val1 &&& val2 ≠ 0
  else false

/-- The comparison of `ConditionalCode`. -/
def compare (addr : ARAddr) (data : Word) (memory : M) : Bool :=
  let new_addr := addr.GCAddress
  if addr.size = DATATYPE_8BIT then
    CompareValues ((mmu.HostRead8 memory new_addr).setWidth 32) (data &&& 0xFF) addr.type
  else if addr.size = DATATYPE_16BIT then
    CompareValues ((mmu.HostRead16 memory new_addr).setWidth 32) (data &&& 0xFFFF) addr.type
  else CompareValues (mmu.HostRead32 memory new_addr) data addr.type

/-- The new `skip_count`. -/
def ConditionalCode (addr : ARAddr) (data : Word) (memory : M) (skip_count : Int) : Int :=
  if compare mmu addr data memory then skip_count
  else if addr.subtype = CONDTIONAL_ONE_LINE ∨ addr.subtype = CONDTIONAL_TWO_LINES then
    addr.subtype.toNat + 1
  else -addr.subtype.toNat

/-! ## A run -/

/-- The variables of the loop of `RunCodeLocked`. -/
structure Lines where
  do_fill_and_slide : Bool
  do_memory_copy : Bool
  skip_count : Int
  val_last : Word

/-- A line ends the run, or the loop goes on; `carried` has the patches of a line carried out. -/
inductive LineResult (M : Type) where
  | stop (success : Bool) (memory : M) (carried : List (List Patch))
  | go (lines : Lines) (memory : M) (carried : List (List Patch))

def carry (lines : Lines) (result : Bool × Guest M) : LineResult M :=
  if result.1 then .go lines result.2.memory [result.2.patches]
  else .stop false result.2.memory [result.2.patches]

/-- One turn of the loop. -/
def runLine (entry : AREntry) (lines : Lines) (memory : M) : LineResult M :=
  let addr := ARAddr.mk entry.cmd_addr
  let data := entry.value
  if lines.skip_count ≠ 0 then
    if lines.skip_count > 0 then .go { lines with skip_count := lines.skip_count - 1 } memory []
    else if -CONDTIONAL_ALL_LINES.toNat = lines.skip_count then .stop true memory []
    else if -CONDTIONAL_ALL_LINES_UNTIL.toNat = lines.skip_count then
      if addr.address = 0 ∧ 0x40000000 = data then .go { lines with skip_count := 0 } memory []
      else .go lines memory []
    else .go lines memory []
  else if lines.do_fill_and_slide then
    carry { lines with do_fill_and_slide := false }
      (ZeroCode_FillAndSlide mmu lines.val_last addr data ⟨memory, []⟩)
  else if lines.do_memory_copy then
    carry { lines with do_memory_copy := false }
      (ZeroCode_MemoryCopy mmu lines.val_last addr data ⟨memory, []⟩)
  else if addr.address ≥ 0x00002000 ∧ addr.address < 0x00003000 then .stop false memory []
  else if 0x0 = addr.address then
    let zcode : BitVec 3 := (data >>> 29).setWidth 3
    if zcode = ZCODE_END then .stop true memory []
    else if zcode = ZCODE_NORM then .go lines memory []
    else if zcode = ZCODE_ROW then .stop false memory []
    else if zcode = ZCODE_04 then
      if 0x3 = (data >>> 25) &&& 0x03 then
        .go { lines with do_memory_copy := true, val_last := data } memory []
      else .go { lines with do_fill_and_slide := true, val_last := data } memory []
    else .stop false memory []
  else if addr.type = 0x00 then carry lines (NormalCode mmu addr data ⟨memory, []⟩)
  else
    .go { lines with skip_count := ConditionalCode mmu addr data memory lines.skip_count } memory []

/-- What a run returns and leaves, with the patches of each line that was carried out. -/
structure Outcome (M : Type) where
  success : Bool
  memory : M
  carried : List (List Patch)

/-- The outcome of a run that goes on behind some lines. -/
def Outcome.behind (carried : List (List Patch)) (outcome : Outcome M) : Outcome M :=
  { outcome with carried := carried ++ outcome.carried }

def runLines : List AREntry → Lines → M → Outcome M
  | [], _, memory => ⟨true, memory, []⟩
  | entry :: entries, lines, memory =>
      match runLine mmu entry lines memory with
      | .stop success memory' carried => ⟨success, memory', carried⟩
      | .go lines' memory' carried => (runLines entries lines' memory').behind carried

def RunCodeLocked (ops : List AREntry) (memory : M) : Outcome M :=
  runLines mmu ops
    { do_fill_and_slide := false, do_memory_copy := false, skip_count := 0, val_last := 0 } memory

end

end Phocoena.ActionReplay
