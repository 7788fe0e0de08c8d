import Phocoena.PPCAnalyst.CodeOp
import Mathlib.Data.List.Basic

/-! # `PPCAnalyzer::Analyze`

The block is read from memory, following branches, its instructions are reordered, and one scan
from its end finds what each operation may discard and which flags it must produce.
-/

namespace Phocoena.PPCAnalyst

open Gekko

/-- What `Analyze` asks of the rest of the emulator. -/
structure Env where
  /-- `MMU::TryReadInstruction`. -/
  tryReadInstruction : BitVec 32 → Option UGeckoInstruction
  /-- `HLE::TryReplaceFunction`. -/
  tryReplaceFunction : BitVec 32 → Bool
  isAddressBreakPoint : BitVec 32 → Bool

/-! ## Reordering -/

section
variable (a : PPCAnalyzer) (env : Env)

/-- `CanSwapAdjacentOps`. -/
def PPCAnalyzer.canSwapAdjacentOps (x y : CodeOp) : Bool :=
  let xFlags := x.opinfo.flags
  let yFlags := y.opinfo.flags
  let fixed := flTimer ||| flNoReorder ||| flSetOE
  let carry := flSetCA ||| flReadCA
  !(a.isDebuggingEnabled &&
      (env.isAddressBreakPoint x.address || env.isAddressBreakPoint y.address)) &&
    !(x.canCauseException || y.canCauseException) &&
    !(x.canEndBlock || y.canEndBlock) &&
    !xFlags.has fixed && !yFlags.has fixed &&
    !(xFlags.has carry && yFlags.has carry) &&
    y.opinfo.type == .integer &&
    y.regsOut &&& x.regsIn == 0 && y.crOut &&& x.crIn == 0 &&
    x.regsOut &&& y.regsIn == 0 && x.crOut &&& y.crIn == 0 &&
    y.regsOut &&& x.regsOut == 0 && y.crOut &&& x.crOut == 0

inductive ReorderType where
  | carry
  | cmp
  | cror
  deriving DecidableEq

def isCarryOp (x : CodeOp) : Bool :=
  x.opinfo.flags.has flSetCA && !x.opinfo.flags.has flSetOE && x.opinfo.type == .integer

def isCror (x : CodeOp) : Bool := x.inst.opcd == 19 && x.inst.subop10 == 449

def ReorderType.moves (type : ReorderType) (x : CodeOp) : Bool :=
  match type with
  | .cror => isCror x
  | .carry => isCarryOp x
  | .cmp => x.crOut != 0

/-- Whether a carry operation stays next to `before`, the operation it would move away from. -/
def staysBehind (reverse : Bool) (before x : CodeOp) : Bool :=
  if reverse then x.opinfo.flags.has flSetCA && before.opinfo.flags.has flReadCA
  else x.opinfo.flags.has flReadCA && before.opinfo.flags.has flSetCA

def ReorderType.staysPut (type : ReorderType) (reverse : Bool) (i : Nat) (code : List CodeOp)
    (x : CodeOp) : Bool :=
  match type, i with
  | .carry, j + 1 => (code[j]?).any fun before => staysBehind reverse before x
  | _, _ => false

/-- The loop of `ReorderInstructionsCore` from position `i` on, as long as it goes backwards. The
list is in the order the pass goes through the block. -/
def PPCAnalyzer.bubble (reverse : Bool) (type : ReorderType) : Nat → List CodeOp → List CodeOp
  | i, code =>
    match code[i]?, code[i + 1]? with
    | some x, some y =>
      if type.moves x && !type.staysPut reverse i code x && a.canSwapAdjacentOps env x y then
        let swapped := (code.set i y).set (i + 1) x
        match i with
        | 0 => swapped
        | j + 1 => bubble reverse type j swapped
      else code
    | _, _ => code

/-- `ReorderInstructionsCore`: a pass from the end of the block is one through the reversed
block. -/
def PPCAnalyzer.reorderInstructionsCore (reverse : Bool) (type : ReorderType)
    (code : List CodeOp) : List CodeOp :=
  let along := if reverse then code.reverse else code
  let passed := (List.range (code.length - 1)).foldl
    (fun code i => a.bubble env reverse type i code) along
  if reverse then passed.reverse else passed

def PPCAnalyzer.reorderInstructions (code : List CodeOp) : List CodeOp :=
  let carried :=
    if a.optionCarryMerge then
      a.reorderInstructionsCore env true .carry (a.reorderInstructionsCore env false .carry code)
    else code
  let compared :=
    if a.optionBranchMerge then a.reorderInstructionsCore env false .cmp carried else carried
  if a.optionCrorMerge then a.reorderInstructionsCore env true .cror compared else compared

/-! ## Reading the block -/

def branchFollowingThreshold : Nat := 2

/-- What the reading loop carries from one instruction to the next. -/
structure Reading where
  address : BitVec 32
  fpaAny : Bool
  foundCall : Bool
  caller : Nat
  numFollows : Nat

def always (inst : UGeckoInstruction) : Bool :=
  inst.bo &&& boDontDecrementFlag != 0 && inst.bo &&& boDontCheckCondition != 0

/-- `conditional_continue`: the block goes on behind the instruction. -/
def PPCAnalyzer.conditionalContinue (inst : UGeckoInstruction) : Bool :=
  a.optionConditionalContinue &&
    (inst.opcd == 16 && !always inst || inst.opcd == 19 && inst.subop10 == 16 && !always inst ||
      inst.opcd == 3 || inst.opcd == 31 && inst.subop10 == 4 ||
      inst.opcd == 19 && inst.subop10 == 528 && inst.bo &&& boDontCheckCondition == 0)

/-- Whether the branch `op` is followed, what becomes of the operations up to it, and of the
call that a return may come back to. -/
def PPCAnalyzer.follow (blockSize : Nat) (code : List CodeOp) (op : CodeOp) (st : Reading) :
    Bool × List CodeOp × CodeOp × Reading :=
  let inst := op.inst
  let call := { st with foundCall := true, caller := code.length }
  if !(a.enableBranchFollowing && a.optionBranchFollow) then (false, code, op, st)
  else if (inst.opcd == 18 || inst.opcd == 16 && always inst) && 1 < blockSize then
    (true, code, op, if inst.lk then call else st)
  else if inst.opcd == 19 && inst.subop10 == 16 && !inst.lk && st.foundCall then
    let target := ((code[st.caller]?).map CodeOp.address).getD 0 + 4
    if always inst && st.numFollows < branchFollowingThreshold then
      -- the return is not compiled, and the call pushes no return address
      (true, code.modify st.caller fun c => { c with skipLRStack := true },
        { op with branchTo := target, skip := true }, { st with foundCall := false })
    else (false, code, { op with branchTo := target }, st)
  else if isMtspr inst && getSPRIndex inst == sprLR then
    (false, code, op, { st with foundCall := false })
  else (false, code, op, st)

/-- The reading loop, with the number of instructions it may still read. -/
def PPCAnalyzer.readInstructions (blockSize : Nat) : Nat → Reading → List CodeOp → List CodeOp
  | 0, _, code => code
  | more + 1, st, code =>
    match env.tryReadInstruction st.address with
    | none => code
    | some inst =>
      let opinfo := getOpInfo inst
      let (stats, fpaAny) :=
        a.setInstructionStats st.fpaAny (.fresh inst opinfo st.address) opinfo
      let (follow, earlier, op, st) := a.follow blockSize code stats { st with fpaAny }
      let read := earlier ++ [op]
      if follow && st.numFollows < branchFollowingThreshold then
        readInstructions blockSize more
          { st with numFollows := st.numFollows + 1, address := op.branchTo } read
      else if !a.conditionalContinue inst && op.canEndBlock then read
      else
        readInstructions blockSize more
          { st with
            address := st.address + 4
            foundCall := st.foundCall && !a.conditionalContinue inst } read

section
variable {P : CodeOp → Prop}

/-- Following a branch changes no operation but in its branch fields. -/
theorem follow_forall {blockSize : Nat} {code : List CodeOp} {op : CodeOp} {st : Reading}
    (branch : ∀ op branchTo skip skipLRStack, P op →
      P { op with branchTo := branchTo, skip := skip, skipLRStack := skipLRStack })
    (earlier : ∀ x ∈ code, P x) (holds : P op) :
    (∀ x ∈ (a.follow blockSize code op st).2.1, P x) ∧
      P (a.follow blockSize code op st).2.2.1 := by
  unfold PPCAnalyzer.follow
  dsimp only
  split
  · exact ⟨earlier, holds⟩
  · split
    · exact ⟨earlier, holds⟩
    · split
      · split
        · refine ⟨?_, branch op _ true op.skipLRStack holds⟩
          intro x mem
          obtain ⟨i, lt, eq⟩ := List.getElem_of_mem mem
          rw [List.length_modify] at lt
          rw [List.getElem_modify] at eq
          split at eq
          · subst eq
            exact branch code[i] code[i].branchTo code[i].skip true
              (earlier _ (List.getElem_mem lt))
          · exact eq ▸ earlier _ (List.getElem_mem lt)
        · exact ⟨earlier, branch op _ op.skip op.skipLRStack holds⟩
      · split
        · exact ⟨earlier, holds⟩
        · exact ⟨earlier, holds⟩

/-- What holds of an operation when its statistics are set, whatever its branch fields, holds of
all operations read. -/
theorem readInstructions_forall
    (fresh : ∀ fpaAny inst address, env.tryReadInstruction address = some inst →
      P (a.setInstructionStats fpaAny (.fresh inst (getOpInfo inst) address) (getOpInfo inst)).1)
    (branch : ∀ op branchTo skip skipLRStack, P op →
      P { op with branchTo := branchTo, skip := skip, skipLRStack := skipLRStack })
    (blockSize more : Nat) (st : Reading) (code : List CodeOp) (earlier : ∀ x ∈ code, P x) :
    ∀ x ∈ a.readInstructions env blockSize more st code, P x := by
  induction more generalizing st code with
  | zero => exact earlier
  | succ more ih =>
      unfold PPCAnalyzer.readInstructions
      split
      · exact earlier
      · rename_i inst found
        dsimp only
        have stats := fresh st.fpaAny inst st.address found
        obtain ⟨old, new⟩ := @follow_forall a P _ _ _ { st with
          fpaAny := (a.setInstructionStats st.fpaAny (.fresh inst (getOpInfo inst) st.address)
            (getOpInfo inst)).2 } branch earlier stats
        have read : ∀ x ∈ _ ++ [_], P x :=
          List.forall_mem_append.mpr ⟨old, List.forall_mem_singleton.mpr new⟩
        split
        · exact ih _ _ read
        · split
          · exact read
          · exact ih _ _ read

end

/-- The block in the order it is compiled in, before the scans. -/
def PPCAnalyzer.block (address : BitVec 32) (blockSize : Nat) : List CodeOp :=
  let code := a.readInstructions env blockSize blockSize ⟨address, false, false, 0, 0⟩ []
  if 1 < code.length then a.reorderInstructions env code else code

end

/-! ## The backward scan -/

/-- `CanCauseGatherPipeInterruptCheck`. -/
def canCauseGatherPipeInterruptCheck (op : CodeOp) : Bool :=
  op.inst.opcd == 31 && op.inst.subop10 == 854 ||
    op.opinfo.type == .store || op.opinfo.type == .storeFP || op.opinfo.type == .storePS

def Env.interrupts (env : Env) (op : CodeOp) : Bool :=
  env.tryReplaceFunction op.address || env.isAddressBreakPoint op.address

/-- `may_exit_block`. -/
def Env.mayExitBlock (env : Env) (op : CodeOp) : Bool :=
  env.interrupts op || op.canEndBlock || op.canCauseException

structure Scan where
  wantsFPRF : Bool
  wantsCA : Bool
  crWillBeRead : BitVec 8
  crWillBeWritten : BitVec 8
  crDiscardable : BitVec 8
  gprWillBeRead : BitVec 32
  gprWillBeWritten : BitVec 32
  fprWillBeRead : BitVec 32
  fprWillBeWritten : BitVec 32
  gprDiscardable : BitVec 32
  fprDiscardable : BitVec 32
  fprInXmm : BitVec 32

/-- At the end of the block, which any flag may be wanted behind. -/
def Scan.atEnd : Scan := ⟨true, true, 0, 0, 0, 0, 0, 0, 0, 0, 0, 0⟩

/-- No register can be discarded where the gather pipe may raise an interrupt. -/
def Scan.flushed (sc : Scan) (op : CodeOp) : Scan :=
  if canCauseGatherPipeInterruptCheck op then
    { sc with gprDiscardable := 0, fprDiscardable := 0, crDiscardable := 0 }
  else sc

/-- What the scan stores in an operation, from what it found behind it. -/
def Env.annotate (env : Env) (op : CodeOp) (after : Scan) : CodeOp :=
  let sc := after.flushed op
  { op with
    wantsFPRF := sc.wantsFPRF || env.mayExitBlock op
    wantsCA := sc.wantsCA || env.mayExitBlock op
    gprWillBeRead := sc.gprWillBeRead
    gprWillBeWritten := sc.gprWillBeWritten
    fprWillBeRead := sc.fprWillBeRead
    fprWillBeWritten := sc.fprWillBeWritten
    crWillBeRead := sc.crWillBeRead
    crWillBeWritten := sc.crWillBeWritten
    gprDiscardable := sc.gprDiscardable
    fprDiscardable := sc.fprDiscardable
    crDiscardable := sc.crDiscardable
    fprInXmm := sc.fprInXmm }

/-- What is found before an operation. -/
def Env.scanOp (env : Env) (op : CodeOp) (after : Scan) : Scan :=
  let sc := after.flushed op
  let mayExit := env.mayExitBlock op
  let flags : Scan := { sc with
    wantsFPRF := (sc.wantsFPRF || op.wantsFPRF || mayExit) && (!op.outputFPRF || op.wantsFPRF)
    wantsCA := (sc.wantsCA || op.wantsCA || mayExit) && (!op.outputCA || op.wantsCA) }
  if env.interrupts op then
    { flags with
      gprWillBeRead := 0
      gprWillBeWritten := 0
      fprWillBeRead := 0
      fprWillBeWritten := 0
      fprInXmm := 0
      crWillBeRead := 0
      crWillBeWritten := 0
      gprDiscardable := 0
      fprDiscardable := 0
      crDiscardable := 0 }
  else
    let used : Scan := { flags with
      gprWillBeRead := sc.gprWillBeRead &&& ~~~op.regsOut ||| op.regsIn
      gprWillBeWritten := sc.gprWillBeWritten ||| op.regsOut
      fprWillBeRead := sc.fprWillBeRead &&& ~~~op.getFregsOut ||| op.fregsIn
      fprWillBeWritten := sc.fprWillBeWritten ||| op.getFregsOut
      crWillBeRead := sc.crWillBeRead &&& ~~~op.crOut ||| op.crIn
      crWillBeWritten := sc.crWillBeWritten ||| op.crOut
      fprInXmm :=
        if "stfd".isPrefixOf op.opinfo.opname then sc.fprInXmm else sc.fprInXmm ||| op.fregsIn }
    if op.canEndBlock || op.canCauseException then
      { used with gprDiscardable := 0, fprDiscardable := 0, crDiscardable := 0 }
    else
      { used with
        gprDiscardable := (sc.gprDiscardable ||| op.regsOut) &&& ~~~op.regsIn
        fprDiscardable := (sc.fprDiscardable ||| op.getFregsOut) &&& ~~~op.fregsIn
        crDiscardable := (sc.crDiscardable ||| op.crOut) &&& ~~~op.crIn }

/-- What the scan has found when it reaches the first of the operations. -/
def Env.scan (env : Env) (code : List CodeOp) : Scan := code.foldr env.scanOp .atEnd

def Env.backwardScan (env : Env) : List CodeOp → List CodeOp
  | [] => []
  | op :: later => env.annotate op (env.scan later) :: env.backwardScan later

/-- The operations of the block after `Analyze`. -/
def PPCAnalyzer.analyze (a : PPCAnalyzer) (env : Env) (address : BitVec 32) (blockSize : Nat) :
    List CodeOp :=
  env.backwardScan (a.block env address blockSize)

end Phocoena.PPCAnalyst
