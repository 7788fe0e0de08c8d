import Phocoena.JitArm64.HostCode
import Phocoena.JitCommon.ConstantPropagation
import Phocoena.Lib.Program

/-! # The register cache and the emitter's operations

`Arm64GPRCache` decides, while code is generated, whether a guest register is read from
its host register, loaded from `ppcState` or materialised from a known constant. The
instruction compilers are programs over these operations. Host registers do not run out
here, so nothing is evicted.
-/

namespace Phocoena.JitArm64

open A64 JitCommon

/-- Where the guest carry is. -/
inductive CarryFlag where
  | inPPCState
  | inHostCarry
  | constantTrue
  | constantFalse
  deriving DecidableEq, Repr

/-- What the analyser says about the instruction being compiled (`js.op`) and the next one. -/
structure CodeOp where
  wantsCA : Bool
  canMergeNextInstruction : Bool
  nextWantsCAInFlags : Bool
  nextIsInteger : Bool
  /-- Which of two constants `MOVI2R2` finds shorter to load; it depends on the code address. -/
  movi2r2 : BitVec 64 → BitVec 64 → Bool

/-- The state of the recompiler within a block (`js`, the register cache and the known
constants). -/
structure JitState where
  constProp : ConstantPropagation
  inHostRegister : GuestReg → Bool
  inPPCState : GuestReg → Bool
  carryFlag : CarryFlag
  op : CodeOp
  scopedRegs : Nat
  fixupBranches : Nat

/-- The known values once `g` has none. CR fields never have one. -/
def GuestReg.clear (k : ConstantPropagation) : GuestReg → ConstantPropagation
  | .gpr i => k.clearGPR i
  | .cr _ => k

namespace JitState

/-- `IsImm` and `GetImm`. Only GPRs have known values. -/
def imm (js : JitState) : GuestReg → Option (BitVec 32)
  | .gpr i => bif js.constProp.hasGPR i then some (js.constProp.getGPR i) else none
  | .cr _ => none

end JitState

inductive Op where
  | constProp
  | carryFlag
  | setCarryFlag (c : CarryFlag)
  | codeOp
  | movi2r2 (imm₁ imm₂ : BitVec 64)
  | getScopedReg
  | fixupBranch
  | bindForRead (g : GuestReg)
  | bindForWrite (g : GuestReg) (willRead : Bool)
  | setImmediate (i : BitVec 5) (imm : BitVec 32)
  | emit (i : HostInst)

/-- What an operation answers. -/
abbrev Op.Ret : Op → Type
  | .constProp => ConstantPropagation
  | .carryFlag => CarryFlag
  | .codeOp => CodeOp
  | .movi2r2 _ _ => Bool
  | .getScopedReg | .bindForRead _ => Reg HostReg
  | .fixupBranch => Nat
  | .setCarryFlag _ | .bindForWrite _ _ | .setImmediate _ _ | .emit _ => Unit

/-- A program of the code generator. -/
abbrev Emit (α : Type) : Type := Program Op Op.Ret α

/-! ## The operations at compile time -/

namespace JitState

variable (js : JitState)

/-- Code that brings `g` into its host register, from wherever it is. -/
def loadCode (g : GuestReg) : HostInst :=
  match js.imm g with
  | some imm => .data (.movi 32 (.name (.guest g)) (imm.setWidth 64))
  | none => .ldr g

/-- A load from `ppcState` leaves the copy there valid; a constant's copy is as it was. -/
def bindForRead (g : GuestReg) : Reg HostReg × JitState × List HostInst :=
  if js.inHostRegister g then (.name (.guest g), js, [])
  else (.name (.guest g), { js with
          inHostRegister := Function.update js.inHostRegister g true
          inPPCState := if (js.imm g).isSome then js.inPPCState
            else Function.update js.inPPCState g true }, [js.loadCode g])

/-- `BindForWrite` with `will_write` set, as every integer instruction calls it. -/
def bindForWrite (g : GuestReg) (willRead : Bool) : Unit × JitState × List HostInst :=
  let code := if js.inHostRegister g then [] else if willRead then [js.loadCode g] else []
  ((), { js with
          inHostRegister := Function.update js.inHostRegister g true
          inPPCState := Function.update js.inPPCState g false
          constProp := g.clear js.constProp }, code)

def setImmediate (i : BitVec 5) (imm : BitVec 32) : JitState :=
  { js with
    inHostRegister := Function.update js.inHostRegister (.gpr i) false
    inPPCState := Function.update js.inPPCState (.gpr i) false
    constProp := js.constProp.setGPR i imm }

end JitState

def compileOp : Program.Handler Op Op.Ret JitState HostInst
  | .constProp, js => (js.constProp, js, [])
  | .carryFlag, js => (js.carryFlag, js, [])
  | .setCarryFlag c, js => ((), { js with carryFlag := c }, [])
  | .codeOp, js => (js.op, js, [])
  | .movi2r2 imm₁ imm₂, js => (js.op.movi2r2 imm₁ imm₂, js, [])
  | .getScopedReg, js =>
      (.name (.temp js.scopedRegs), { js with scopedRegs := js.scopedRegs + 1 }, [])
  | .fixupBranch, js => (js.fixupBranches, { js with fixupBranches := js.fixupBranches + 1 }, [])
  | .bindForRead g, js => js.bindForRead g
  | .bindForWrite g willRead, js => js.bindForWrite g willRead
  | .setImmediate i imm, js => ((), js.setImmediate i imm, [])
  | .emit i, js => ((), js, [i])

/-! ## The operations as the instruction compilers call them -/

namespace Emit

def constProp : Emit ConstantPropagation := Program.perform Op.constProp

def getCarryFlag : Emit CarryFlag := Program.perform Op.carryFlag

def setCarryFlag (c : CarryFlag) : Emit Unit := Program.perform (Op.setCarryFlag c)

def codeOp : Emit CodeOp := Program.perform Op.codeOp

/-- `gpr.R`. -/
def r (i : BitVec 5) : Emit (Reg HostReg) := Program.perform (Op.bindForRead (.gpr i))

/-- `gpr.CR`. -/
def cr (i : BitVec 3) : Emit (Reg HostReg) := Program.perform (Op.bindForRead (.cr i))

def bindToRegister (i : BitVec 5) (willRead : Bool) : Emit Unit :=
  Program.perform (Op.bindForWrite (.gpr i) willRead)

def bindCRToRegister (i : BitVec 3) (willRead : Bool) : Emit Unit :=
  Program.perform (Op.bindForWrite (.cr i) willRead)

def setImmediate (i : BitVec 5) (imm : BitVec 32) : Emit Unit := Program.perform (Op.setImmediate i imm)

def getScopedReg : Emit (Reg HostReg) := Program.perform Op.getScopedReg

def inst (i : HostInst) : Emit Unit := Program.perform (Op.emit i)

def data (i : Inst HostReg) : Emit Unit := inst (.data i)

/-- A forward branch, to be resolved by `setJumpTarget`. -/
def branch (i : Nat → HostInst) : Emit Nat := do
  let target ← Program.perform Op.fixupBranch
  inst (i target)
  return target

def setJumpTarget (target : Nat) : Emit Unit := inst (.label target)

end Emit

end Phocoena.JitArm64

/-! ## CR0, XER and the lazy carry

The helpers at the head of `JitArm64_Integer.cpp`. The guest carry stays in the host's carry
flag or is known at compile time for as long as that is worth it; `js.carryFlag` says where
it is.
-/

namespace Phocoena.JitArm64

open A64

namespace Emit

def computeRC0 (reg : Reg HostReg) : Emit Unit := do
  bindCRToRegister 0 false
  data (.sxtw (← cr 0) reg)

/-- `ComputeRC0` of a constant. -/
def computeRC0Imm (imm : BitVec 32) : Emit Unit := do
  bindCRToRegister 0 false
  data (.movi 64 (← cr 0) (imm.signExtend 64))

def generateConstantOverflow (overflow : Bool) : Emit Unit := do
  let wa ← getScopedReg
  if overflow then
    -- XER_OV_MASK | XER_SO_MASK
    data (.movi 32 wa 3)
    inst (.strb wa .xerSoOv)
  else
    inst (.ldrb wa .xerSoOv)
    data (.logical 32 .and false wa wa (.imm 0xFFFFFFFE))
    inst (.strb wa .xerSoOv)

def flushCarry : Emit Unit := do
  match ← getCarryFlag with
  | .inPPCState => pure ()
  | .inHostCarry =>
      let wa ← getScopedReg
      data (.cset 32 wa .cs)
      inst (.strb wa .xerCa)
  | .constantTrue =>
      let wa ← getScopedReg
      data (.movi 32 wa 1)
      inst (.strb wa .xerCa)
  | .constantFalse => inst (.strb .zr .xerCa)
  setCarryFlag .inPPCState

/-- `ComputeCarry` of a register that holds the carry as 0 or 1. -/
def computeCarryReg (reg : Reg HostReg) : Emit Unit := do
  setCarryFlag .inPPCState
  let op ← codeOp
  if op.wantsCA then
    if op.canMergeNextInstruction && op.nextWantsCAInFlags then
      data (.cmp 32 reg (.imm 1))
      setCarryFlag .inHostCarry
    else inst (.strb reg .xerCa)

/-- `ComputeCarry` of a carry known at compile time. -/
def computeCarryConst (carry : Bool) : Emit Unit :=
  setCarryFlag (if carry then .constantTrue else .constantFalse)

/-- `ComputeCarry` of the host's carry flag. -/
def computeCarry : Emit Unit := do
  setCarryFlag .inPPCState
  let op ← codeOp
  if op.wantsCA then
    setCarryFlag .inHostCarry
    if !(op.canMergeNextInstruction && op.nextIsInteger) then flushCarry

def loadCarry : Emit Unit := do
  match ← getCarryFlag with
  | .inPPCState =>
      let wa ← getScopedReg
      inst (.ldrb wa .xerCa)
      data (.cmp 32 wa (.imm 1))
  | .inHostCarry => pure ()
  | .constantTrue => data (.cmp 32 .zr (.reg .zr))
  | .constantFalse => data (.cmn 32 .zr (.reg .zr))

def hasConstantCarry : Emit Bool := do
  let c ← getCarryFlag
  return c = .constantTrue ∨ c = .constantFalse

end Emit

end Phocoena.JitArm64
