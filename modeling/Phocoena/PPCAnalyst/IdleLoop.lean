import Phocoena.PPCAnalyst.Analyze
import Phocoena.Gekko.Machine
import Phocoena.Lib.Restart

/-! # Idle loops

`PPCAnalyzer::IsBusyWaitLoop`, which decides from the registers the operations declare whether a
loop waits for an event, and what the operations of such a loop really read and write.
-/

namespace Phocoena.PPCAnalyst

open Gekko Gekko.Interpreter Restart

/-- `IsBusyWaitLoop` for the operations up to a branch, with the registers written so far and those
that may not be written any more. -/
def isBusyWaitLoop (blockAddress : BitVec 32) : BitVec 32 → BitVec 32 → List CodeOp → Bool
  | _, _, [] => false
  | writtenRegs, writeDisallowedRegs, op :: later =>
    if op.opinfo.type = .branch then
      if op.branchUsesCtr then false
      else if op.branchTo = blockAddress ∧ later.isEmpty = true then true
      -- any other branch is passed over
      else isBusyWaitLoop blockAddress writtenRegs writeDisallowedRegs later
    else if op.inst.hex = 0x60000000 then
      isBusyWaitLoop blockAddress writtenRegs writeDisallowedRegs later
    else if op.opinfo.type ≠ .integer ∧ op.opinfo.type ≠ .load then false
    else
      let writeDisallowedRegs := writeDisallowedRegs ||| (op.regsIn &&& ~~~writtenRegs)
      if op.regsOut &&& writeDisallowedRegs ≠ 0 then false
      else isBusyWaitLoop blockAddress (writtenRegs ||| op.regsOut) writeDisallowedRegs later

section
variable (a : PPCAnalyzer) (env : Env) (address : BitVec 32) (blockSize i : Nat)

/-- The operations that `Analyze` reads, before it reorders them. -/
def PPCAnalyzer.readBlock : List CodeOp :=
  a.readInstructions env blockSize blockSize ⟨address, false, false, 0, 0⟩ []

/-- The operations up to the one at position `i`. -/
def PPCAnalyzer.loopOps : List CodeOp := (a.readBlock env address blockSize).take (i + 1)

/-- What `Analyze` stores in `branchIsIdleLoop` of the operation it reads at position `i`. The
operations before it have their final branches by then. -/
def PPCAnalyzer.branchIsIdleLoop : Bool :=
  match (a.readBlock env address blockSize)[i]? with
  | some op =>
    op.branchTo == address && isBusyWaitLoop address 0 0 (a.loopOps env address blockSize i)
  | none => false

end

/-! ## Iterations -/

section
variable (env : Env) (other : Handler)

/-- The interpreter's step, where it comes to the operation. -/
def Env.stepOp (op : CodeOp) (m : Machine) : Option Machine :=
  if m.pc = op.address then singleStep env.tryReadInstruction other m else none

/-- Goes through the operations in order. -/
def Env.iterate (ops : List CodeOp) : Machine → Option Machine :=
  runAll (ops.map (env.stepOp other))

def Env.iterations (ops : List CodeOp) : Nat → Machine → Option Machine
  | 0, m => some m
  | n + 1, m => (env.iterate other ops m).bind (iterations ops n)

end

/-! ## What the operations read and write -/

/-- What an operation of an idle loop can change, besides the summary overflow bit and the program
counter. -/
inductive Cell where
  | gpr (r : BitVec 5)
  | cr (i : BitVec 3)
  | ca
  | ov
  | lr
  | reserve
  deriving DecidableEq

namespace CodeOp
variable (op : CodeOp)

def isNop : Bool := op.inst.hex == 0x60000000

def isLswx : Bool := op.inst.opcd == 31 && op.inst.subop10 == 533

def isLswi : Bool := op.inst.opcd == 31 && op.inst.subop10 == 597

def isLwarx : Bool := op.inst.opcd == 31 && op.inst.subop10 == 20

def isBclrx : Bool := op.inst.opcd == 19 && op.inst.subop10 == 16

def isStringLoad : Bool := op.isLswx || op.isLswi

/-- The number of bytes a string load loads. -/
def stringBytes (xerStringctrl : BitVec 16) : Nat :=
  if op.isLswi then lswiBytes op.inst else lswxBytes xerStringctrl

/-- The registers an operation sets. A string load sets as many as its bytes fill, whatever the
tables say. -/
def SetsRegister (xerStringctrl : BitVec 16) (r : BitVec 5) : Prop :=
  op.isNop = false ∧
    if op.isStringLoad then ∃ k < op.stringBytes xerStringctrl, r = stringRegister op.inst.rd k
    else op.regsOut.getLsbD r.toNat = true

def reads : Set Cell := fun c => match c with
  | .gpr r => op.isNop = false ∧ op.regsIn.getLsbD r.toNat = true
  | .cr i => op.opinfo.type = .branch ∧ op.crIn.getLsbD i.toNat = true
  | .ca => op.opinfo.flags.has flReadCA = true
  | .lr => op.isBclrx = true
  | .ov | .reserve => False

/-- What an operation may write. -/
def writes (xerStringctrl : BitVec 16) : Set Cell := fun c => match c with
  | .gpr r => op.SetsRegister xerStringctrl r
  | .cr i => op.opinfo.type = .integer ∧ op.crOut.getLsbD i.toNat = true
  | .ca => op.opinfo.flags.has flSetCA = true
  | .ov => op.opinfo.flags.has flSetOE = true
  | .lr => op.opinfo.type = .branch ∧ op.inst.lk = true
  | .reserve => op.isLwarx = true

/-- What an operation always writes: a call that is not taken does not write LR. -/
def surelyWrites (xerStringctrl : BitVec 16) : Set Cell := fun c =>
  c ∈ op.writes xerStringctrl ∧ (c = .lr → op.inst.opcd = 18 ∨ always op.inst = true)

def footprint (xerStringctrl : BitVec 16) : Set Cell × Set Cell :=
  (op.reads, op.surelyWrites xerStringctrl)

/-- The operation copies the summary overflow bit into a condition register field. -/
def copiesSO : Bool := op.opinfo.type == .integer && op.crOut != 0

end CodeOp

/-- The loop keeps the rule of `IsBusyWaitLoop` also where the registers that the analyzer looks at
do not show it. -/
structure Settled (ops : List CodeOp) (m : Machine) : Prop where
  /-- A condition register field, CA or LR that is read before the loop has written it is not
  written by the loop. -/
  cells : ∀ c, (∀ r, c ≠ .gpr r) → Exposed c (ops.map (·.footprint m.xerStringctrl)) →
    ∀ op ∈ ops, c ∉ op.writes m.xerStringctrl
  /-- If the loop has string loads, the same holds for the registers they really set. -/
  strings : (∃ op ∈ ops, op.isStringLoad = true) →
    ∀ r, Exposed (.gpr r) (ops.map (·.footprint m.xerStringctrl)) →
      ∀ op ∈ ops, .gpr r ∉ op.writes m.xerStringctrl
  /-- The summary overflow bit is set, or no operation can set it behind one that copies it. -/
  overflow : m.ppc.xerSO = true ∨
    ops.Pairwise fun x y => x.copiesSO = true → y.opinfo.flags.has flSetOE = false

end Phocoena.PPCAnalyst
