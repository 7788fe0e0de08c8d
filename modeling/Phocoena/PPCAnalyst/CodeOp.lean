import Phocoena.Gekko.PPCTables

/-! # The operations of a block

What `PPCAnalyzer` records of one instruction, and `SetInstructionStats`, which fills it in from
the instruction tables. The results of the forward scan and of the idle loop detection are left
out.
-/

namespace Phocoena.PPCAnalyst

open Gekko

/-- The special purpose registers the analyzer asks for. -/
def sprXER : BitVec 10 := 1
def sprLR : BitVec 10 := 8
def sprMMCR0 : BitVec 10 := 952
def sprMMCR1 : BitVec 10 := 956

def boDontDecrementFlag : BitVec 5 := 4
def boDontCheckCondition : BitVec 5 := 16

structure CodeOp where
  inst : UGeckoInstruction
  opinfo : GekkoOPInfo
  address : BitVec 32
  branchTo : BitVec 32
  regsIn : BitVec 32
  regsOut : BitVec 32
  fregsIn : BitVec 32
  fregOut : Option (BitVec 5)
  crIn : BitVec 8
  crOut : BitVec 8
  branchUsesCtr : Bool
  wantsFPRF : Bool
  wantsCA : Bool
  wantsCAInFlags : Bool
  outputFPRF : Bool
  outputCA : Bool
  canEndBlock : Bool
  canCauseException : Bool
  skipLRStack : Bool
  skip : Bool
  crWillBeRead : BitVec 8
  crWillBeWritten : BitVec 8
  crDiscardable : BitVec 8
  gprWillBeRead : BitVec 32
  gprWillBeWritten : BitVec 32
  fprWillBeRead : BitVec 32
  fprWillBeWritten : BitVec 32
  gprDiscardable : BitVec 32
  fprDiscardable : BitVec 32
  fprInXmm : BitVec 32
  deriving DecidableEq

/-- The options of a `PPCAnalyzer`. -/
structure PPCAnalyzer where
  optionConditionalContinue : Bool
  optionBranchFollow : Bool
  optionBranchMerge : Bool
  optionCarryMerge : Bool
  optionCrorMerge : Bool
  isDebuggingEnabled : Bool
  enableBranchFollowing : Bool
  enableFloatExceptions : Bool
  enableDivByZeroExceptions : Bool

/-- The set with the one element `i`. -/
def single {w k : Nat} (i : BitVec k) : BitVec w := 1#w <<< i.toNat

/-- The elements of a set from `i` on. -/
def upFrom {k : Nat} (i : BitVec k) : BitVec 32 := BitVec.allOnes 32 <<< i.toNat

def isMfspr (inst : UGeckoInstruction) : Bool := inst.opcd == 31 && inst.subop10 == 339

def isMtspr (inst : UGeckoInstruction) : Bool := inst.opcd == 31 && inst.subop10 == 467

def getSPRIndex (inst : UGeckoInstruction) : BitVec 10 := inst.spru ++ inst.sprl

def instructionCanEndBlock (inst : UGeckoInstruction) (opinfo : GekkoOPInfo) : Bool :=
  opinfo.flags.has flEndBlock &&
    (!isMtspr inst || getSPRIndex inst == sprMMCR0 || getSPRIndex inst == sprMMCR1)

namespace CodeOp

def getFregsOut (op : CodeOp) : BitVec 32 :=
  match op.fregOut with
  | some i => single i
  | none => 0

/-- `code[i] = {}` and the fields set before `SetInstructionStats`. -/
def fresh (inst : UGeckoInstruction) (opinfo : GekkoOPInfo) (address : BitVec 32) : CodeOp where
  inst := inst
  opinfo := opinfo
  address := address
  branchTo := 0
  regsIn := 0
  regsOut := 0
  fregsIn := 0
  fregOut := some 0
  crIn := 0
  crOut := 0
  branchUsesCtr := false
  wantsFPRF := false
  wantsCA := false
  wantsCAInFlags := false
  outputFPRF := false
  outputCA := false
  canEndBlock := false
  canCauseException := false
  skipLRStack := false
  skip := false
  crWillBeRead := 0
  crWillBeWritten := 0
  crDiscardable := 0
  gprWillBeRead := 0
  gprWillBeWritten := 0
  fprWillBeRead := 0
  fprWillBeWritten := 0
  gprDiscardable := 0
  fprDiscardable := 0
  fprInXmm := 0

end CodeOp

/-! ## `SetInstructionStats` -/

section
variable (inst : UGeckoInstruction) (opinfo : GekkoOPInfo)

def crInOf : BitVec 8 :=
  if opinfo.flags.has flReadAllCR then 0xFF
  else if opinfo.flags.has flReadCRn then single inst.crfs
  else if opinfo.flags.has flReadCRBI then single (inst.bi >>> 2)
  else if opinfo.type = .cr then
    -- the other three bits of the destination are inputs too
    single (inst.crba >>> 2) ||| single (inst.crbb >>> 2) ||| single (inst.crbd >>> 2)
  else 0

def crOutOf : BitVec 8 :=
  if opinfo.flags.has flSetAllCR then 0xFF
  else if opinfo.flags.has flSetCRn then single inst.crfd
  else if opinfo.flags.has flSetCR0 || opinfo.flags.has flRcBit && inst.rc then single 0#3
  else if opinfo.flags.has flSetCR1 || opinfo.flags.has flRcBitF && inst.rc then single 1#3
  else if opinfo.type = .cr then single (inst.crbd >>> 2)
  else 0

/-- The element `i` if a condition holds. -/
def onlyIf {w k : Nat} (c : Bool) (i : BitVec k) : BitVec w := if c then single i else 0

def regsOutOf : BitVec 32 :=
  onlyIf (opinfo.flags.has flOutA) inst.ra ||| onlyIf (opinfo.flags.has flOutD) inst.rd |||
    (if inst.opcd = 46 then upFrom inst.rd else 0)

def regsInOf : BitVec 32 :=
  onlyIf (opinfo.flags.has flInA || opinfo.flags.has flInA0 && inst.ra != 0) inst.ra |||
    onlyIf (opinfo.flags.has flInB) inst.rb ||| onlyIf (opinfo.flags.has flInC) inst.rcReg |||
    onlyIf (opinfo.flags.has flInS) inst.rs ||| (if inst.opcd = 47 then upFrom inst.rs else 0)

def fregsInOf : BitVec 32 :=
  onlyIf (opinfo.flags.has flInFloatA) inst.fa ||| onlyIf (opinfo.flags.has flInFloatB) inst.fb |||
    onlyIf (opinfo.flags.has flInFloatC) inst.fc ||| onlyIf (opinfo.flags.has flInFloatD) inst.fd |||
    onlyIf (opinfo.flags.has flInFloatS) inst.fs

/-- Where a branch with an immediate address goes; all ones for the other instructions. -/
def branchToOf (address : BitVec 32) : BitVec 32 :=
  let base := if inst.aa then 0 else address
  if inst.opcd = 18 then base + (inst.li ++ 0#2).signExtend 32
  else if inst.opcd = 16 then base + (inst.bd ++ 0#2).signExtend 32
  else BitVec.allOnes 32

def branchUsesCtrOf : Bool :=
  (inst.opcd == 16 || inst.opcd == 19 && (inst.subop10 == 16 || inst.subop10 == 528)) &&
    inst.bo &&& boDontDecrementFlag == 0

end

/-- `SetInstructionStats`, for a block in which `fpaAny` says whether there was a floating point
instruction before. -/
def PPCAnalyzer.setInstructionStats (a : PPCAnalyzer) (fpaAny : Bool) (code : CodeOp)
    (opinfo : GekkoOPInfo) : CodeOp × Bool :=
  let inst := code.inst
  let flags := opinfo.flags
  let firstFpuInstruction := flags.has flUseFPU && !fpaAny
  let readsCA := flags.has flReadCA
  let setsCA := flags.has flSetCA
  ({ code with
      crIn := crInOf inst opinfo
      crOut := crOutOf inst opinfo
      wantsFPRF := flags.has flReadFPRF
      outputFPRF := flags.has flSetFPRF
      canEndBlock := instructionCanEndBlock inst code.opinfo
      canCauseException := firstFpuInstruction || flags.has (flLoadStore ||| flProgramException) ||
        a.enableFloatExceptions && flags.has flFloatException ||
        a.enableDivByZeroExceptions && flags.has flFloatDiv
      wantsCAInFlags := a.optionCarryMerge && (readsCA && setsCA && opinfo.type = .integer)
      -- mfspr needs CA in XER, and mtspr can set it there
      wantsCA := if isMfspr inst then getSPRIndex inst == sprXER else readsCA
      outputCA := if isMtspr inst then getSPRIndex inst == sprXER else setsCA
      regsIn := regsInOf inst opinfo
      regsOut := regsOutOf inst opinfo
      fregOut := if flags.has flOutFloatD then some inst.fd else none
      fregsIn := fregsInOf inst opinfo
      branchUsesCtr := branchUsesCtrOf inst
      branchTo := branchToOf inst code.address },
    fpaAny || flags.has flUseFPU)

end Phocoena.PPCAnalyst
