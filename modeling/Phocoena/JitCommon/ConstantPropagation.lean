import Phocoena.Gekko.Interpreter

/-! # Compile-time evaluation of integer instructions

`ConstantPropagation.cpp`: the registers whose value the compiler knows, and the
evaluation of an instruction from them. A result that is not fully executed leaves the
instruction to the code generator.
-/

namespace Phocoena.JitCommon

open Gekko

structure ConstantPropagationResult where
  gprValue : BitVec 32 := 0
  /-- The register the instruction writes; `none` is the source's `-1`. -/
  gpr : Option (BitVec 5) := none
  instructionFullyExecuted : Bool := false
  computeRc : Bool := false
  carry : Option Bool := none
  overflow : Option Bool := none
  deriving DecidableEq, Repr

namespace ConstantPropagationResult

/-- The three-argument constructor of the source. -/
def ofValue (gpr : BitVec 5) (gprValue : BitVec 32) (computeRc : Bool := false) :
    ConstantPropagationResult where
  gprValue := gprValue
  gpr := some gpr
  instructionFullyExecuted := true
  computeRc := computeRc

def doNothing : ConstantPropagationResult where
  instructionFullyExecuted := true

/-- The default-constructed result: nothing could be evaluated. -/
def unevaluated : ConstantPropagationResult := {}

end ConstantPropagationResult

/-- `m_gpr_values` and `m_gpr_values_known`. -/
structure ConstantPropagation where
  gprValues : BitVec 5 → BitVec 32
  gprValuesKnown : BitVec 5 → Bool

/-- The function pointers `BitOR`, `BitAND` and `BitXOR`. -/
inductive BitOp where
  | or
  | and
  | xor
  deriving DecidableEq, Repr

def BitOp.apply : BitOp → BitVec 32 → BitVec 32 → BitVec 32
  | .or, a, b => a ||| b
  | .and, a, b => a &&& b
  | .xor, a, b => a ^^^ b

namespace ConstantPropagation

open ConstantPropagationResult

variable (k : ConstantPropagation) (inst : UGeckoInstruction) (flags : InstructionFlags)

def hasGPR (gpr : BitVec 5) : Bool := k.gprValuesKnown gpr

def getGPR (gpr : BitVec 5) : BitVec 32 := k.gprValues gpr

def setGPR (gpr : BitVec 5) (value : BitVec 32) : ConstantPropagation where
  gprValues := Function.update k.gprValues gpr value
  gprValuesKnown := Function.update k.gprValuesKnown gpr true

def clearGPR (gpr : BitVec 5) : ConstantPropagation :=
  { k with gprValuesKnown := Function.update k.gprValuesKnown gpr false }

/-- `Apply`. -/
def applyResult (result : ConstantPropagationResult) : ConstantPropagation :=
  match result.gpr with
  | some gpr => k.setGPR gpr result.gprValue
  | none => k

def evaluateMulImm : ConstantPropagationResult :=
  if inst.simm16 = 0 then ofValue inst.rd 0
  else if !k.hasGPR inst.ra then unevaluated
  else ofValue inst.rd (k.getGPR inst.ra * inst.simm)

def evaluateSubImmCarry : ConstantPropagationResult :=
  if !k.hasGPR inst.ra then unevaluated
  else
    let a := k.getGPR inst.ra
    let imm := inst.simm
    { ofValue inst.rd (imm - a) with carry := some (a ≤ imm) }

def evaluateAddImm : ConstantPropagationResult :=
  let immediate := if inst.opcd.getLsbD 0 then inst.simm <<< 16 else inst.simm
  if inst.ra = 0 then ofValue inst.rd immediate
  else if !k.hasGPR inst.ra then unevaluated
  else ofValue inst.rd (k.getGPR inst.ra + immediate)

def evaluateAddImmCarry : ConstantPropagationResult :=
  if !k.hasGPR inst.ra then unevaluated
  else
    let a := k.getGPR inst.ra
    let rc := inst.opcd.getLsbD 0
    { ofValue inst.rd (a + inst.simm) rc with carry := some (Interpreter.helperCarry a inst.simm) }

def evaluateRlwimix : ConstantPropagationResult :=
  if !k.hasGPR inst.rs then unevaluated
  else
    let mask := makeRotationMask inst.mb inst.me
    let rotated := (k.getGPR inst.rs).rotateLeft inst.sh.toNat
    if mask = 0xFFFFFFFF then ofValue inst.ra rotated inst.rc
    else if !k.hasGPR inst.ra then unevaluated
    else ofValue inst.ra ((k.getGPR inst.ra &&& ~~~mask) ||| (rotated &&& mask)) inst.rc

def evaluateRlwinmxRlwnmx (shift : BitVec 32) : ConstantPropagationResult :=
  if !k.hasGPR inst.rs then unevaluated
  else
    let mask := makeRotationMask inst.mb inst.me
    ofValue inst.ra ((k.getGPR inst.rs).rotateLeft shift.toNat &&& mask) inst.rc

def evaluateBitwiseImm (doOp : BitOp) : ConstantPropagationResult :=
  let isAnd : Bool := doOp = .and
  let immediate := if inst.opcd.getLsbD 0 then inst.uimm32 <<< 16 else inst.uimm32
  if inst.uimm = 0 && !isAnd && inst.ra = inst.rs then doNothing
  else if !k.hasGPR inst.rs then unevaluated
  else ofValue inst.ra (doOp.apply (k.getGPR inst.rs) immediate) isAnd

def evaluateTable31Negx : ConstantPropagationResult :=
  if !k.hasGPR inst.ra then unevaluated
  else
    let out := -(k.getGPR inst.ra).signExtend 64
    { ofValue inst.rd (out.setWidth 32) inst.rc with
      overflow := if flags.has flSetOE then some (out != (out.setWidth 32).signExtend 64)
        else none }

/-- The `switch` of `EvaluateTable31S`: the value of `rA` and the carry, if one is set. -/
def table31SValue (s : BitVec 32) : Option (BitVec 32 × Option Bool) :=
  match inst.subop10.toNat with
  | 26 => some (s.clz, none)                                                    -- cntlzwx
  | 824 => some (s.sshiftRight inst.sh.toNat,                                   -- srawix
      some (inst.sh != 0 && s.msb && s <<< (32 - inst.sh.toNat) != 0))
  | 922 => some ((s.setWidth 16).signExtend 32, none)                           -- extshx
  | 954 => some ((s.setWidth 8).signExtend 32, none)                            -- extsbx
  | _ => none

def evaluateTable31S : ConstantPropagationResult :=
  if !k.hasGPR inst.rs then unevaluated
  else match table31SValue inst (k.getGPR inst.rs) with
    | some (a, carry) => { ofValue inst.ra a inst.rc with carry := carry }
    | none => unevaluated

/-- The check on a known zero dividend, which the unsigned divisions fall through to. -/
def evaluateZeroDividend (value : BitVec 32) (knownRegIsB : Bool) : ConstantPropagationResult :=
  if !knownRegIsB && value = 0 && !flags.has flSetOE then ofValue inst.rd 0 inst.rc
  else unevaluated

def evaluateTable31ABOneRegisterKnown (value : BitVec 32) (knownRegIsB : Bool) :
    ConstantPropagationResult :=
  match inst.subop10.toNat with
  | 11 | 75 | 235 | 747 =>                                        -- mulhwux, mulhwx, mullwx(o)
    if value = 0 then
      { ofValue inst.rd 0 inst.rc with
        overflow := if flags.has flSetOE then some false else none }
    else unevaluated
  | 459 | 971 =>                                                  -- divwux, divwuox
    if knownRegIsB && value = 0 then
      { ofValue inst.rd 0 inst.rc with
        overflow := if flags.has flSetOE then some true else none }
    else evaluateZeroDividend inst flags value knownRegIsB
  | 491 | 1003 => evaluateZeroDividend inst flags value knownRegIsB        -- divwx, divwox
  | _ => unevaluated

def evaluateTable31ABIdenticalRegisters : ConstantPropagationResult :=
  match inst.subop10.toNat with
  | 8 | 40 | 520 | 552 =>                                         -- subfcx, subfx, with OE
    { ofValue inst.rd 0 inst.rc with
      carry := if flags.has flSetCA then some true else none
      overflow := if flags.has flSetOE then some false else none }
  | _ => unevaluated

/-- The `switch` of `EvaluateTable31AB`: `d` and `d_overflow`. -/
def table31ABValue (a b : BitVec 32) : Option (BitVec 64 × BitVec 64) :=
  match inst.subop10.toNat with
  | 8 | 40 | 520 | 552 =>                                         -- subfcx, subfx, with OE
    some ((~~~a).setWidth 64 + b.setWidth 64 + 1, b.signExtend 64 - a.signExtend 64)
  | 10 | 522 | 266 | 778 =>                                       -- addcx, addx, with OE
    some (a.setWidth 64 + b.setWidth 64, a.signExtend 64 + b.signExtend 64)
  | 11 =>                                                         -- mulhwux
    let d := (a.setWidth 64 * b.setWidth 64) >>> 32
    some (d, d)
  | 75 =>                                                         -- mulhwx
    let d := (a.signExtend 64 * b.signExtend 64) >>> 32
    some (d, d)
  | 235 | 747 =>                                                  -- mullwx, mullwox
    let d := a.signExtend 64 * b.signExtend 64
    some (d, d)
  | 459 | 971 =>                                                  -- divwux, divwuox
    let d := if b = 0 then 0x100000000#64 else (a / b).setWidth 64
    some (d, d)
  | 491 | 1003 =>                                                 -- divwx, divwox
    let d :=
      if b = 0 ∨ (a = 0x80000000 ∧ b = 0xFFFFFFFF) then
        if a.msb then 0xFFFFFFFF#64 else 0x100000000#64
      else (a.sdiv b).signExtend 64
    some (d, d)
  | _ => none

def evaluateTable31AB : ConstantPropagationResult :=
  let hasA := k.hasGPR inst.ra
  let hasB := k.hasGPR inst.rb
  if !hasA || !hasB then
    if hasA then evaluateTable31ABOneRegisterKnown inst flags (k.getGPR inst.ra) false
    else if hasB then evaluateTable31ABOneRegisterKnown inst flags (k.getGPR inst.rb) true
    else if inst.ra = inst.rb then evaluateTable31ABIdenticalRegisters inst flags
    else unevaluated
  else match table31ABValue inst (k.getGPR inst.ra) (k.getGPR inst.rb) with
    | some (d, dOverflow) =>
      { ofValue inst.rd (d.setWidth 32) inst.rc with
        carry := if flags.has flSetCA then some (d >>> 32 != 0) else none
        overflow := if flags.has flSetOE then
            some (dOverflow != (dOverflow.setWidth 32).signExtend 64)
          else none }
    | none => unevaluated

def evaluateTable31SBOneRegisterKnown (value : BitVec 32) (knownRegIsB : Bool) :
    ConstantPropagationResult :=
  match inst.subop10.toNat with
  | 24 | 536 =>                                                   -- slwx, srwx
    if (!knownRegIsB && value = 0) || (knownRegIsB && value &&& 0x20 ≠ 0) then
      ofValue inst.ra 0 inst.rc
    else unevaluated
  | 60 =>                                                         -- andcx
    let value := if knownRegIsB then ~~~value else value
    if value = 0 then ofValue inst.ra 0 inst.rc else unevaluated
  | 28 => if value = 0 then ofValue inst.ra 0 inst.rc else unevaluated              -- andx
  | 124 => if value = 0xFFFFFFFF then ofValue inst.ra 0 inst.rc else unevaluated    -- norx
  | 412 =>                                                        -- orcx
    let value := if knownRegIsB then ~~~value else value
    if value = 0xFFFFFFFF then ofValue inst.ra 0xFFFFFFFF inst.rc else unevaluated
  | 444 =>                                                        -- orx
    if value = 0xFFFFFFFF then ofValue inst.ra 0xFFFFFFFF inst.rc else unevaluated
  | 476 => if value = 0 then ofValue inst.ra 0xFFFFFFFF inst.rc else unevaluated    -- nandx
  | 792 =>                                                        -- srawx
    if !knownRegIsB && value = 0 then { ofValue inst.ra 0 inst.rc with carry := some false }
    else unevaluated
  | _ => unevaluated

def evaluateTable31SBIdenticalRegisters : ConstantPropagationResult :=
  match inst.subop10.toNat with
  | 60 => ofValue inst.ra 0 inst.rc                               -- andcx
  | 284 => ofValue inst.ra 0xFFFFFFFF inst.rc                     -- eqvx
  | 316 => ofValue inst.ra 0 inst.rc                              -- xorx
  | 412 => ofValue inst.ra 0xFFFFFFFF inst.rc                     -- orcx
  | _ => unevaluated

/-- The `switch` of `EvaluateTable31SB`: the value of `rA` and the carry, if one is set. -/
def table31SBValue (s b : BitVec 32) : Option (BitVec 32 × Option Bool) :=
  match inst.subop10.toNat with
  | 24 => some ((s.setWidth 64 <<< (b &&& 0x3f).toNat).setWidth 32, none)       -- slwx
  | 28 => some (s &&& b, none)                                                  -- andx
  | 60 => some (s &&& ~~~b, none)                                               -- andcx
  | 124 => some (~~~(s ||| b), none)                                            -- norx
  | 284 => some (~~~(s ^^^ b), none)                                            -- eqvx
  | 316 => some (s ^^^ b, none)                                                 -- xorx
  | 412 => some (s ||| ~~~b, none)                                              -- orcx
  | 444 => some (s ||| b, none)                                                 -- orx
  | 476 => some (~~~(s &&& b), none)                                            -- nandx
  | 536 => some ((s.setWidth 64 >>> (b &&& 0x3f).toNat).setWidth 32, none)      -- srwx
  | 792 =>                                                                      -- srawx
    let temp := (s.signExtend 64 <<< 32).sshiftRight (b &&& 0x3f).toNat
    let a := (temp >>> 32).setWidth 32
    some (a, some (temp &&& a.setWidth 64 != 0))
  | _ => none

def evaluateTable31SB : ConstantPropagationResult :=
  let hasS := k.hasGPR inst.rs
  let hasB := k.hasGPR inst.rb
  if !hasS || !hasB then
    if hasS then evaluateTable31SBOneRegisterKnown inst (k.getGPR inst.rs) false
    else if hasB then evaluateTable31SBOneRegisterKnown inst (k.getGPR inst.rb) true
    else if inst.rs = inst.rb then evaluateTable31SBIdenticalRegisters inst
    else unevaluated
  else match table31SBValue inst (k.getGPR inst.rs) (k.getGPR inst.rb) with
    | some (a, carry) => { ofValue inst.ra a inst.rc with carry := carry }
    | none => unevaluated

def evaluateTable31 : ConstantPropagationResult :=
  if flags.has flInB then
    if flags.has flOutD then k.evaluateTable31AB inst flags
    else k.evaluateTable31SB inst
  else match inst.subop10.toNat with
    | 104 | 616 => k.evaluateTable31Negx inst flags               -- negx, negox
    | _ => k.evaluateTable31S inst

def evaluateInstruction : ConstantPropagationResult :=
  match inst.opcd.toNat with
  | 7 => k.evaluateMulImm inst
  | 8 => k.evaluateSubImmCarry inst
  | 12 | 13 => k.evaluateAddImmCarry inst
  | 14 | 15 => k.evaluateAddImm inst
  | 20 => k.evaluateRlwimix inst
  | 21 => k.evaluateRlwinmxRlwnmx inst (inst.sh.setWidth 32)
  | 23 =>
    if k.hasGPR inst.rb then k.evaluateRlwinmxRlwnmx inst (k.getGPR inst.rb &&& 0x1F)
    else unevaluated
  | 24 | 25 => k.evaluateBitwiseImm inst .or
  | 26 | 27 => k.evaluateBitwiseImm inst .xor
  | 28 | 29 => k.evaluateBitwiseImm inst .and
  | 31 => k.evaluateTable31 inst flags
  | _ => unevaluated

end ConstantPropagation

end Phocoena.JitCommon
