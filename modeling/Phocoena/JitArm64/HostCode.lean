import Phocoena.Common.LogicalImm
import Phocoena.Lib.A64

/-! # Host code

The machine the recompiler emits code for: the AArch64 registers, the flags and the part of
`ppcState` that integer code loads and stores. Every guest register has a host register of
its own here; which of them are in use is the register cache's business.
-/

namespace Phocoena.JitArm64

open A64

/-- What the register cache allocates host registers for. -/
inductive GuestReg where
  | gpr (i : BitVec 5)
  | cr (i : BitVec 3)
  deriving DecidableEq, Repr

inductive HostReg where
  | guest (g : GuestReg)
  | temp (n : Nat)
  deriving DecidableEq, Repr

/-- The bytes of `ppcState` that hold XER. -/
inductive XerByte where
  | xerCa
  | xerSoOv
  deriving DecidableEq, Repr

inductive HostInst where
  | data (i : Inst HostReg)
  | ldrb (rt : Reg HostReg) (f : XerByte)
  | strb (rt : Reg HostReg) (f : XerByte)
  /-- Loads a guest register from `ppcState` into its host register. -/
  | ldr (g : GuestReg)
  | cbz (w : Nat) (rt : Reg HostReg) (target : Nat)
  | bcond (cond : Cond) (target : Nat)
  | b (target : Nat)
  /-- The place a forward branch jumps to (`SetJumpTarget`). -/
  | label (n : Nat)
  deriving DecidableEq, Repr

/-- The state of the host but for the guest registers kept in `ppcState`. -/
structure HostState where
  x : HostReg → BitVec 64
  flags : NZCV
  xer : XerByte → BitVec 8
  /-- The target of a forward branch that was taken and not yet reached. -/
  pending : Option Nat

namespace HostState

def get (s : HostState) : Reg HostReg → BitVec 64
  | .name r => s.x r
  | .zr => 0

def set (s : HostState) (r : Reg HostReg) (v : BitVec 64) : HostState :=
  match r with
  | .name r => { s with x := Function.update s.x r v }
  | .zr => s

@[simp] theorem get_zr (s : HostState) : s.get .zr = 0 := rfl

@[simp] theorem get_name (s : HostState) (r : HostReg) : s.get (.name r) = s.x r := rfl

@[simp] theorem set_zr (s : HostState) (v : BitVec 64) : s.set .zr v = s := rfl

@[simp] theorem set_name (s : HostState) (r : HostReg) (v : BitVec 64) :
    s.set (.name r) v = { s with x := Function.update s.x r v } := rfl

/-- One instruction, executed. A load of a guest register is the memory's to answer. -/
def run (s : HostState) : HostInst → HostState
  | .data i => { s.set i.dest (i.eval s.get s.flags).1 with flags := (i.eval s.get s.flags).2 }
  | .ldrb rt f => s.set rt ((s.xer f).setWidth 64)
  | .strb rt f => { s with xer := Function.update s.xer f ((s.get rt).setWidth 8) }
  | .ldr _ => s
  | .cbz w rt target =>
      if (s.get rt).setWidth w = 0#w then { s with pending := some target } else s
  | .bcond cond target => if cond.holds s.flags then { s with pending := some target } else s
  | .b target => { s with pending := some target }
  | .label _ => s

/-- One instruction, jumped over on the way to `target`. -/
def skip (s : HostState) (target : Nat) : HostInst → HostState
  | .label n => if n = target then { s with pending := none } else s
  | _ => s

def step (i : HostInst) (s : HostState) : HostState :=
  match s.pending with
  | none => s.run i
  | some target => s.skip target i

theorem step_of_none {s : HostState} (i : HostInst) (h : s.pending = none) :
    s.step i = s.run i := by simp only [step, h]

theorem step_of_some {s : HostState} {target : Nat} (i : HostInst) (h : s.pending = some target) :
    s.step i = s.skip target i := by simp only [step, h]

end HostState

/-- The host with the guest registers in `ppcState`. -/
structure Machine extends HostState where
  gpr : BitVec 5 → BitVec 32
  cr : BitVec 3 → BitVec 64

namespace Machine

/-- A guest register in `ppcState`, as a load returns it. -/
def load (m : Machine) : GuestReg → BitVec 64
  | .gpr i => (m.gpr i).setWidth 64
  | .cr i => m.cr i

def step (i : HostInst) (m : Machine) : Machine :=
  match i, m.pending with
  | .ldr g, none => { m with x := Function.update m.x (.guest g) (m.load g) }
  | i, _ => { m with toHostState := m.toHostState.step i }

end Machine

namespace HostInst

/-- The host register an instruction writes. -/
def dest : HostInst → Reg HostReg
  | data i => i.dest
  | ldrb rt _ => rt
  | ldr g => .name (.guest g)
  | _ => .zr

def sources : HostInst → List (Reg HostReg)
  | data i => i.sources
  | strb rt _ | cbz _ rt _ => [rt]
  | _ => []

/-- The assembler accepts the instruction. -/
def encodable : HostInst → Bool
  | data i => i.encodable Common.LogicalImm.valid
  | cbz w _ _ => widthOk w
  | _ => true

end HostInst

end Phocoena.JitArm64
