import Phocoena.Gekko.Interpreter

/-! # Loads, branches and the single step

The integer handlers work on the registers alone. Here they are put into a machine with a program
counter, a link and a count register and a memory to load from, beside the handlers of
`Interpreter_LoadStore.cpp` that load general registers and those of `Interpreter_Branch.cpp`.
Function hooks are left out.
-/

namespace Phocoena.Gekko.Interpreter

/-- What `MMU::Read` finds at an address; `none` if it raises an exception. -/
structure Memory where
  readU8 : BitVec 32 → Option (BitVec 8)
  readU16 : BitVec 32 → Option (BitVec 16)
  readU32 : BitVec 32 → Option (BitVec 32)

structure Machine where
  ppc : PowerPCState
  lr : BitVec 32
  ctr : BitVec 32
  xerStringctrl : BitVec 16
  msrLE : Bool
  reserve : Bool
  reserveAddress : BitVec 32
  pc : BitVec 32
  memory : Memory

/-- Runs an instruction at `pc`. The `pc` of the result is the source's `npc`; there is no result
when an exception is raised. -/
abbrev Handler := UGeckoInstruction → Machine → Option Machine

namespace Machine

def setGPR (m : Machine) (r : BitVec 5) (value : BitVec 32) : Machine :=
  { m with ppc := m.ppc.setGPR r value }

/-- To the instruction behind this one. -/
def advance (m : Machine) : Machine := { m with pc := m.pc + 4 }

end Machine

/-- An integer handler, which raises no exception. -/
def runInteger (fn : Instruction) : Handler := fun inst m =>
  some { m with ppc := fn inst m.ppc }.advance

/-! ## Loads -/

section EffectiveAddress
variable (inst : UGeckoInstruction) (s : PowerPCState)

def helperGetEA : BitVec 32 := if inst.ra ≠ 0 then s.gpr inst.ra + inst.simm else inst.simm

def helperGetEAU : BitVec 32 := s.gpr inst.ra + inst.simm

def helperGetEAX : BitVec 32 :=
  if inst.ra ≠ 0 then s.gpr inst.ra + s.gpr inst.rb else s.gpr inst.rb

def helperGetEAUX : BitVec 32 := s.gpr inst.ra + s.gpr inst.rb

end EffectiveAddress

def swap16 (x : BitVec 16) : BitVec 16 := x.rotateLeft 8

def swap32 (x : BitVec 32) : BitVec 32 :=
  x.extractLsb' 0 8 ++ x.extractLsb' 8 8 ++ x.extractLsb' 16 8 ++ x.extractLsb' 24 8

namespace Memory
variable (memory : Memory) (address : BitVec 32)

def byteZ : Option (BitVec 32) := (memory.readU8 address).map (·.setWidth 32)
def halfZ : Option (BitVec 32) := (memory.readU16 address).map (·.setWidth 32)
def halfA : Option (BitVec 32) := (memory.readU16 address).map (·.signExtend 32)
def halfReversed : Option (BitVec 32) :=
  (memory.readU16 address).map fun x => (swap16 x).setWidth 32
def wordReversed : Option (BitVec 32) := (memory.readU32 address).map swap32

end Memory

/-- The shape the loads share: `rD` receives what is read at the effective address. -/
def loadAt (ea : UGeckoInstruction → PowerPCState → BitVec 32)
    (read : Memory → BitVec 32 → Option (BitVec 32)) : Handler := fun inst m =>
  (read m.memory (ea inst m.ppc)).map fun temp => (m.setGPR inst.rd temp).advance

/-- The loads with update: `rA` then receives the effective address. -/
def loadUpdate (ea : UGeckoInstruction → PowerPCState → BitVec 32)
    (read : Memory → BitVec 32 → Option (BitVec 32)) : Handler := fun inst m =>
  let address := ea inst m.ppc
  (read m.memory address).map fun temp =>
    ((m.setGPR inst.rd temp).setGPR inst.ra address).advance

def lbz : Handler := loadAt helperGetEA Memory.byteZ
def lbzu : Handler := loadUpdate helperGetEAU Memory.byteZ
def lha : Handler := loadAt helperGetEA Memory.halfA
def lhau : Handler := loadUpdate helperGetEAU Memory.halfA
def lhz : Handler := loadAt helperGetEA Memory.halfZ
def lhzu : Handler := loadUpdate helperGetEAU Memory.halfZ
def lwz : Handler := loadAt helperGetEA Memory.readU32
def lwzu : Handler := loadUpdate helperGetEAU Memory.readU32
def lbzux : Handler := loadUpdate helperGetEAUX Memory.byteZ
def lbzx : Handler := loadAt helperGetEAX Memory.byteZ
def lhaux : Handler := loadUpdate helperGetEAUX Memory.halfA
def lhax : Handler := loadAt helperGetEAX Memory.halfA
def lhbrx : Handler := loadAt helperGetEAX Memory.halfReversed
def lhzux : Handler := loadUpdate helperGetEAUX Memory.halfZ
def lhzx : Handler := loadAt helperGetEAX Memory.halfZ
def lwbrx : Handler := loadAt helperGetEAX Memory.wordReversed
def lwzux : Handler := loadUpdate helperGetEAUX Memory.readU32
def lwzx : Handler := loadAt helperGetEAX Memory.readU32

/-- A misaligned address raises an alignment exception. -/
def lwarx : Handler := fun inst m =>
  let address := helperGetEAX inst m.ppc
  if address &&& 3 ≠ 0 then none
  else (m.memory.readU32 address).map fun temp =>
    { m.setGPR inst.rd temp with reserve := true, reserveAddress := address }.advance

/-- The register that byte `k` of a string load goes to. -/
def stringRegister (rd : BitVec 5) (k : Nat) : BitVec 5 := rd + BitVec.ofNat 5 (k / 4)

/-- The loop of the string loads from byte `k` on, with the number of bytes that are left. A
register is cleared when its first byte comes. -/
def loadString (memory : Memory) (rd : BitVec 5) :
    Nat → Nat → BitVec 32 → PowerPCState → Option PowerPCState
  | 0, _, _, s => some s
  | left + 1, k, ea, s =>
    let reg := stringRegister rd k
    let s := if k % 4 = 0 then s.setGPR reg 0 else s
    (memory.readU8 ea).bind fun temp =>
      loadString memory rd left (k + 1) (ea + 1)
        (s.setGPR reg (s.gpr reg ||| temp.setWidth 32 <<< (24 - 8 * (k % 4))))

/-- A string load of `n` bytes; little endian mode raises an alignment exception. -/
def runString (n : Nat) (ea : BitVec 32) : Handler := fun inst m =>
  if m.msrLE then none
  else (loadString m.memory inst.rd n 0 ea m.ppc).map fun s => { m with ppc := s }.advance

/-- The number of bytes of an `lswi`; the field `NB` stands where `RB` does. -/
def lswiBytes (inst : UGeckoInstruction) : Nat := if inst.rb ≠ 0 then inst.rb.toNat else 32

/-- The number of bytes of an `lswx`. -/
def lswxBytes (xerStringctrl : BitVec 16) : Nat := (xerStringctrl.setWidth 8).toNat

def lswi : Handler := fun inst m =>
  runString (lswiBytes inst) (if inst.ra ≠ 0 then m.ppc.gpr inst.ra else 0) inst m

def lswx : Handler := fun inst m =>
  runString (lswxBytes m.xerStringctrl) (helperGetEAX inst m.ppc) inst m

/-! ## Branches -/

/-- `ConditionRegister::GetBit`. -/
def getBit (cr : BitVec 3 → BitVec 64) (bit : BitVec 5) : Bool :=
  let field := getField (cr (bit.extractLsb' 2 3))
  match (bit.setWidth 2).toNat with
  | 0 => field.lt
  | 1 => field.gt
  | 2 => field.eq
  | _ => field.so

section
variable (inst : UGeckoInstruction) (m : Machine)

/-- `CTR--`, unless the instruction says not to. -/
def decremented : BitVec 32 := if inst.bo.getLsbD 2 then m.ctr else m.ctr - 1

def counterHolds (ctr : BitVec 32) : Bool :=
  inst.bo.getLsbD 2 || ((ctr != 0) != inst.bo.getLsbD 1)

def conditionHolds : Bool :=
  inst.bo.getLsbD 4 || getBit m.ppc.cr inst.bi == inst.bo.getLsbD 3

/-- To the destination, leaving the return address in LR if the instruction is a call. -/
def takeBranch (destination : BitVec 32) : Machine :=
  { m with
    lr := if inst.lk then m.pc + 4 else m.lr
    pc := destination }

end

def bx : Handler := fun inst m =>
  some (takeBranch inst m ((inst.li ++ 0#2).signExtend 32 + if inst.aa then 0 else m.pc))

def bcx : Handler := fun inst m =>
  let m := { m with ctr := decremented inst m }
  if counterHolds inst m.ctr && conditionHolds inst m then
    some (takeBranch inst m ((inst.bd ++ 0#2).signExtend 32 + if inst.aa then 0 else m.pc))
  else some m.advance

def bclrx : Handler := fun inst m =>
  let m := { m with ctr := decremented inst m }
  if counterHolds inst m.ctr && conditionHolds inst m then
    some (takeBranch inst m (m.lr &&& ~~~3#32))
  else some m.advance

def bcctrx : Handler := fun inst m =>
  if conditionHolds inst m then some (takeBranch inst m (m.ctr &&& ~~~3#32)) else some m.advance

/-! ## Dispatch -/

/-- The general register loads of the interpreter's `s_primary_table`. -/
def loadPrimaryTable : List (BitVec 6 × Handler) :=
  [(32, lwz), (33, lwzu), (34, lbz), (35, lbzu), (40, lhz), (41, lhzu), (42, lha), (43, lhau)]

/-- The general register loads of the interpreter's `s_table31`. -/
def loadTable31 : List (BitVec 10 × Handler) :=
  [(23, lwzx), (55, lwzux), (279, lhzx), (311, lhzux), (343, lhax), (375, lhaux), (87, lbzx),
   (119, lbzux), (534, lwbrx), (790, lhbrx), (20, lwarx), (533, lswx), (597, lswi)]

/-- The branches of the interpreter's `s_primary_table`. -/
def branchPrimaryTable : List (BitVec 6 × Handler) := [(16, bcx), (18, bx)]

/-- The branches of the interpreter's `s_table19`. -/
def branchTable19 : List (BitVec 10 × Handler) := [(528, bcctrx), (16, bclrx)]

def getLoadOp (inst : UGeckoInstruction) : Option Handler :=
  if inst.opcd = 31 then loadTable31.lookup inst.subop10 else loadPrimaryTable.lookup inst.opcd

def getBranchOp (inst : UGeckoInstruction) : Option Handler :=
  if inst.opcd = 19 then branchTable19.lookup inst.subop10
  else branchPrimaryTable.lookup inst.opcd

/-- `RunInterpreterOp`, with `other` for the handlers that are not modelled. -/
def runInterpreterOp (other : Handler) : Handler := fun inst =>
  match getInterpreterOp inst, getLoadOp inst, getBranchOp inst with
  | some fn, _, _ => runInteger fn inst
  | none, some fn, _ => fn inst
  | none, none, some fn => fn inst
  | none, none, none => other inst

/-- `SingleStepInner`. -/
def singleStep (readOpcode : BitVec 32 → Option UGeckoInstruction) (other : Handler)
    (m : Machine) : Option Machine :=
  (readOpcode m.pc).bind fun inst => runInterpreterOp other inst m

end Phocoena.Gekko.Interpreter
