import Phocoena.Common.LogicalImm
import Phocoena.Lib.A64
import Phocoena.Lib.BitParts
import Mathlib.Data.List.Basic

/-! # Synthesizing constants

`MOVI2R` looks for the base from which the fewest parts are left to be replaced: all zeros, all
ones, an address near the code or a logical immediate.
-/

namespace Phocoena.Arm64Emitter

open BitParts (part patch differing)

/-- A general purpose register, where number 31 is the zero register. -/
abbrev GPR := A64.Reg (Fin 31)

/-- An instruction as its emitter is called. -/
inductive Emitted where
  | MOVZ (size : GPRSize) (Rd : GPR) (imm : BitVec 16) (pos : Nat)
  | MOVN (size : GPRSize) (Rd : GPR) (imm : BitVec 16) (pos : Nat)
  | MOVK (size : GPRSize) (Rd : GPR) (imm : BitVec 16) (pos : Nat)
  | ADR (Rd : GPR) (imm : BitVec 64)
  | ADRP (Rd : GPR) (imm : BitVec 64)
  /-- `AND`, `ORR`, `EOR` and `ANDS` of a logical immediate. -/
  | logicalImm (op : A64.LogicalOp) (flags : Bool) (size : GPRSize) (Rd Rn : GPR) (imm : LogicalImm)
  | data (i : A64.Inst (Fin 31))
deriving DecidableEq, Repr

/-- The processor, as far as the instructions here go. -/
@[ext] structure Machine where
  x : Fin 31 → BitVec 64
  nzcv : A64.NZCV
  pc : BitVec 64

namespace Machine

def get (m : Machine) : GPR → BitVec 64
  | .name r => m.x r
  | .zr => 0

/-- The machine behind an instruction with this result. -/
def after (m : Machine) (r : GPR) (result : BitVec 64 × A64.NZCV) : Machine where
  x i := if .name i = r then result.1 else m.x i
  nzcv := result.2
  pc := m.pc + 4

end Machine

namespace Emitted

def dest : Emitted → GPR
  | MOVZ _ Rd _ _ | MOVN _ Rd _ _ | MOVK _ Rd _ _ | ADR Rd _ | ADRP Rd _
  | logicalImm _ _ _ Rd _ _ => Rd
  | data i => i.dest

/-- `EncodeAddressInst` keeps 21 bits, which the processor reads as a signed number. -/
def addressOffset (imm : BitVec 64) : BitVec 64 := (imm.setWidth 21).signExtend 64

/-- What the processor does with the fields of the encoding. The fields of a logical immediate
may have no meaning. -/
def eval (m : Machine) : Emitted → Option (BitVec 64 × A64.NZCV)
  | MOVZ size _ imm pos => some ((imm.setWidth size.bits <<< (16 * pos)).setWidth 64, m.nzcv)
  | MOVN size _ imm pos => some ((~~~(imm.setWidth size.bits <<< (16 * pos))).setWidth 64, m.nzcv)
  | MOVK size Rd imm pos =>
      some ((patch ((m.get Rd).setWidth size.bits) pos imm).setWidth 64, m.nzcv)
  | ADR _ imm => some (m.pc + addressOffset imm, m.nzcv)
  | ADRP _ imm =>
      some ((m.pc &&& ~~~(0xFFF : BitVec 64)) + addressOffset (imm.sshiftRight 12) <<< 12, m.nzcv)
  | logicalImm op flags size _ Rn imm =>
      (A64.decodeBitMasks size.bits imm.n (imm.s.setWidth 6) (imm.r.setWidth 6)).map fun value =>
        (A64.Inst.logical size.bits op flags .zr Rn (.imm (value.setWidth 64))).eval m.get m.nzcv
  | data i => some (i.eval m.get m.nzcv)

/-- Number 31 is the stack pointer where an immediate is added, and where an instruction with an
immediate leaves the flags alone. -/
def zeroRegisterOk : A64.Inst (Fin 31) → Bool
  | .arith _ _ flags rd rn (.imm _) => rn ≠ .zr && (flags || rd ≠ .zr)
  | _ => true

/-- The assertions of the encoders, and that the fields have the values meant. -/
def encodable : Emitted → Bool
  | MOVZ size _ _ pos | MOVN size _ _ pos | MOVK size _ _ pos => pos < size.bits / 16
  | ADR .. | ADRP .. => true
  | logicalImm _ flags size Rd _ imm =>
      imm.valid && (size = .B64 || !imm.n) && decide (imm.r.toNat < 64 ∧ imm.s.toNat < 64) &&
        (flags || Rd ≠ .zr)
  | data i => i.encodable (fun _ _ => false) && zeroRegisterOk i

end Emitted

def Machine.step (m : Machine) (i : Emitted) : Option Machine := (i.eval m).map (m.after i.dest)

def Machine.run (m : Machine) (code : List Emitted) : Option Machine := code.foldlM Machine.step m

/-! ## The emitter -/

inductive Approach where
  | MOVZBase | MOVNBase | ADRBase | ADRPBase | ORRBase
deriving DecidableEq, Repr

structure Part where
  imm : BitVec 16
  shift : Nat
deriving DecidableEq, Repr

/-- `best_parts`, `best_approach` and `best_base`. -/
structure Candidate (w : Nat) where
  parts : List Part
  approach : Approach
  base : BitVec w
deriving DecidableEq, Repr

def partsOf {w : Nat} (imm base : BitVec w) : List Part :=
  (differing imm base).map fun i => ⟨part imm i, i⟩

def instructions_required {w : Nat} (c : Candidate w) : Nat :=
  c.parts.length + if c.approach = .MOVZBase ∨ c.approach = .MOVNBase then 0 else 1

/-- `try_base` from the second time on. -/
def try_base {w : Nat} (imm base : BitVec w) (approach : Approach) (best : Candidate w) :
    Candidate w :=
  let c := ⟨partsOf imm base, approach, base⟩
  if instructions_required c < instructions_required best then c else best

def sext_21_bit (x : BitVec 64) : BitVec 64 :=
  (x &&& 0x1FFFFF) ||| if x &&& 0x100000 ≠ 0 then ~~~0x1FFFFF else 0

def adrp_offset (pc imm : BitVec 64) : BitVec 64 := sext_21_bit (imm >>> 12 - pc >>> 12) <<< 12

def adr_offset (pc imm : BitVec 64) : BitVec 64 := sext_21_bit (imm - pc)

def adrp_base (pc imm : BitVec 64) : BitVec 64 := (pc &&& ~~~0xFFF) + adrp_offset pc imm

def adr_base (pc imm : BitVec 64) : BitVec 64 := pc + adr_offset pc imm

/-- The loop over the repetitions of halves and quarters of the constant. -/
def tryOrrs (imm : BitVec 64) (best : Candidate 64) : List (BitVec 64) → Candidate 64
  | [] => best
  | orr_imm :: rest =>
      if (LogicalImm.ofValue orr_imm .B64).valid then
        let best := try_base imm orr_imm .ORRBase best
        if instructions_required best ≤ 1 then best else tryOrrs imm best rest
      else tryOrrs imm best rest

def repetitions (imm : BitVec 64) : List (BitVec 64) :=
  [imm, imm <<< 32 ||| (imm &&& 0x00000000FFFFFFFF), (imm &&& 0xFFFFFFFF00000000) ||| imm >>> 32,
    imm <<< 48 ||| (imm &&& 0x0000FFFFFFFF0000) ||| imm >>> 48]

def tryOrr : (size : GPRSize) → BitVec size.bits → Candidate size.bits → Candidate size.bits
  | .B64, imm, best => tryOrrs imm best (repetitions imm)
  | .B32, imm, best =>
      if (LogicalImm.ofValue (imm.setWidth 64) .B32).valid then try_base imm imm .ORRBase best
      else best

def tryAddresses (pc : BitVec 64) :
    (size : GPRSize) → BitVec size.bits → Candidate size.bits → Candidate size.bits
  | .B64, imm, best =>
      try_base imm (adr_base pc imm) .ADRBase (try_base imm (adrp_base pc imm) .ADRPBase best)
  | .B32, _, best => best

def bestCandidate (pc : BitVec 64) (size : GPRSize) (imm : BitVec size.bits) :
    Candidate size.bits :=
  let best := try_base imm (BitVec.allOnes size.bits) .MOVNBase ⟨partsOf imm 0, .MOVZBase, 0⟩
  let best := tryAddresses pc size imm best
  if instructions_required best > 1 then tryOrr size imm best else best

def TryORRI2R (size : GPRSize) (Rd Rn : GPR) (imm : BitVec 64) : Option Emitted :=
  let result := LogicalImm.ofValue imm size
  if result.valid then some (.logicalImm .orr false size Rd Rn result) else none

/-- The instruction that overwrites the entire register, and the parts that are left. -/
def emitBase (pc : BitVec 64) (size : GPRSize) (Rd : GPR) (imm : BitVec size.bits)
    (best : Candidate size.bits) : Option (Emitted × List Part) :=
  match best.approach, best.parts with
  | .MOVZBase, [] => some (.MOVZ size Rd 0 0, [])
  | .MOVZBase, first :: parts => some (.MOVZ size Rd first.imm first.shift, parts)
  | .MOVNBase, [] => some (.MOVN size Rd (~~~0xFFFF) 0, [])
  | .MOVNBase, first :: parts => some (.MOVN size Rd (~~~first.imm) first.shift, parts)
  | .ADRBase, parts => some (.ADR Rd (adr_offset pc (imm.setWidth 64)), parts)
  | .ADRPBase, parts => some (.ADRP Rd (adrp_offset pc (imm.setWidth 64)), parts)
  | .ORRBase, parts => (TryORRI2R size Rd .zr (best.base.setWidth 64)).map fun i => (i, parts)

/-- The instruction for one of the remaining parts. Behind `ADRP` it is asserted that bits 12 to
15 are in place. -/
def emitPart (pc : BitVec 64) (size : GPRSize) (Rd : GPR) (imm : BitVec size.bits)
    (approach : Approach) (part : Part) : Option Emitted :=
  if approach = .ADRPBase ∧ part.shift = 0 then
    if part.imm.setWidth 64 =
        (adrp_base pc (imm.setWidth 64) &&& 0xF000) + (part.imm.setWidth 64 &&& 0xFFF) then
      some (.data (.arith size.bits .add false Rd Rd (.imm (part.imm.setWidth 64 &&& 0xFFF))))
    else none
  else some (.MOVK size Rd part.imm part.shift)

/-- `none` where an assertion fails. -/
def MOVI2RImpl (pc : BitVec 64) (size : GPRSize) (Rd : GPR) (imm : BitVec size.bits) :
    Option (List Emitted) :=
  let best := bestCandidate pc size imm
  (emitBase pc size Rd imm best).bind fun (first, parts) =>
    (parts.mapM (emitPart pc size Rd imm best.approach)).map (first :: ·)

def MOVI2R (pc : BitVec 64) (size : GPRSize) (Rd : GPR) (imm : BitVec 64) : Option (List Emitted) :=
  MOVI2RImpl pc size Rd (imm.setWidth size.bits)

/-- The code, and whether it is the one for the second constant: the one with fewer
instructions. -/
def MOVI2R2 (pc : BitVec 64) (size : GPRSize) (Rd : GPR) (imm1 imm2 : BitVec 64) :
    Option (List Emitted × Bool) := do
  let size1 := (← MOVI2R pc size Rd imm1).length
  let size2 := (← MOVI2R pc size Rd imm2).length
  let element : Bool := size1 > size2
  let code ← MOVI2R pc size Rd (if element then imm2 else imm1)
  pure (code, element)

end Phocoena.Arm64Emitter
