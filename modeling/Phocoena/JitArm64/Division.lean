import Phocoena.Gekko.Instruction
import Phocoena.JitArm64.Emitter
import Phocoena.JitArm64.RegCache
import Phocoena.JitCommon.DivUtils

/-! # Compiling divisions

`divwux` and `divwx` of `JitArm64_Integer.cpp`, from behind the fallback for the forms that
record overflow.
-/

namespace Phocoena.JitArm64

open A64 Gekko JitCommon Emit

/-- `MathUtil::IsPow2` of an unsigned value. -/
def isPow2 {w : Nat} (imm : BitVec w) : Bool := 0 < imm ∧ imm &&& (imm - 1) = 0

/-- `MathUtil::IsPow2` of a signed value. -/
def isPow2Signed {w : Nat} (imm : BitVec w) : Bool := (0#w).slt imm ∧ imm &&& (imm - 1) = 0

/-- `MathUtil::IntLog2`. -/
def intLog2 (val : BitVec 64) : Nat := 63 - val.clz.toNat

def divwux (inst : UGeckoInstruction) : Emit Unit := do
  let a := inst.ra
  let b := inst.rb
  let d := inst.rd
  let k ← constProp
  if k.hasGPR b then
    let divisor := k.getGPR b
    if divisor = 0 then
      setImmediate d 0
      if inst.rc then computeRC0Imm 0
    else
      let allocateReg := decide (d = a)
      bindToRegister d allocateReg
      let rd ← r d
      let ra ← r a
      if isPow2 divisor then
        let shift := intLog2 (divisor.setWidth 64)
        if shift ≠ 0 then data (.lsr 32 rd ra shift)
        else if d ≠ a then data (.mov 32 rd ra)
      else
        let m := unsignedDivisionConstants divisor
        let wi ← if allocateReg then getScopedReg else pure rd
        data (.movi 32 wi (m.multiplier.setWidth 64))
        if m.fast then data (.umull rd ra wi) else data (.umaddl rd ra wi wi)
        data (.lsr 64 rd rd (32 + m.shift.toNat))
      if inst.rc then computeRC0 (← r d)
  else
    bindToRegister d (d = a ∨ d = b)
    -- d = a / b
    data (.udiv 32 (← r d) (← r a) (← r b))
    if inst.rc then computeRC0 (← r d)

/-- The last case of `divwx` with a known divisor: multiply by a rounded reciprocal. -/
def divwxByMultiplication (a d : BitVec 5) (divisor : BitVec 32) (allocateReg : Bool) :
    Emit Unit := do
  match signedDivisionConstants 64 divisor with
  | none => pure ()
  | some m =>
      let rd ← r d
      let wa ← getScopedReg
      let wb ← if allocateReg then getScopedReg else pure rd
      data (.sxtw wa (← r a))
      data (.movi 64 wb (m.multiplier.signExtend 64))
      if (0#32).slt divisor ∧ m.multiplier.slt 0#32 then
        data (.mul 64 rd wa wb)
        data (.arith 64 .add false rd wa (.shifted rd .lsr 32))
        data (.lsr 32 wa wa 31)
        data (.arith 32 .add false rd wa (.shifted rd .asr m.shift.toNat))
      else if divisor.slt 0#32 ∧ (0#32).slt m.multiplier then
        data (.mneg 64 rd wa wb)
        data (.arith 64 .add false wa rd (.shifted wa .lsr 32))
        data (.lsr 32 rd wa 31)
        data (.arith 32 .add false rd rd (.shifted wa .asr m.shift.toNat))
      else if (0#32).slt m.multiplier then
        data (.mul 64 rd wa wb)
        data (.asr 64 rd rd (32 + m.shift.toNat))
        data (.arith 32 .add false rd rd (.shifted wa .lsr 31))
      else
        data (.mul 64 rd wa wb)
        data (.lsr 64 wa rd 63)
        data (.asr 64 rd rd (32 + m.shift.toNat))
        data (.arith 32 .add false rd wa (.reg rd))

/-- `divwx` with a known divisor. -/
def divwxByConstant (a d : BitVec 5) (divisor : BitVec 32) : Emit Unit := do
  let allocateReg := decide (a = d)
  bindToRegister d allocateReg
  -- Handle 0, 1, and -1 explicitly
  if divisor = 0 then data (.asr 32 (← r d) (← r a) 31)
  else if divisor = 1 then
    if d ≠ a then data (.mov 32 (← r d) (← r a))
  else if divisor = -1 then
    -- Rd = (Ra == 0x80000000) ? 0xFFFFFFFF : -Ra
    data (.negs 32 (← r d) (← r a))
    data (.select 32 .csinv (← r d) (← r d) .zr .vc)
  else if divisor = 2 ∨ divisor = -2 then
    let ra ← r a
    let rd ← r d
    data (.arith 32 .add false rd ra (.shifted ra .lsr 31))
    if divisor.slt 0 then data (.neg 32 rd (.shifted rd .asr 1))
    else data (.asr 32 rd rd 1)
  else if isPow2Signed divisor ∨ isPow2Signed (-divisor.signExtend 64) then
    let absVal := (divisor.signExtend 64).abs.setWidth 32
    let ra ← r a
    let rd ← r d
    let wa ← if allocateReg then getScopedReg else pure rd
    data (.tst 32 ra (.reg ra))
    addI2R 32 wa ra ((absVal - 1).setWidth 64) wa
    data (.select 32 .csel wa ra wa .pl)
    if divisor.slt 0 then
      data (.neg 32 rd (.shifted wa .asr (intLog2 (absVal.setWidth 64))))
    else data (.asr 32 rd wa (intLog2 (absVal.setWidth 64)))
  else divwxByMultiplication a d divisor allocateReg

def divwx (inst : UGeckoInstruction) : Emit Unit := do
  let a := inst.ra
  let b := inst.rb
  let d := inst.rd
  let k ← constProp
  if k.hasGPR a ∧ k.getGPR a = 0 then
    -- Zero divided by anything is always zero
    setImmediate d 0
    if inst.rc then computeRC0Imm 0
  else if k.hasGPR a then
    let dividend := k.getGPR a
    bindToRegister d (d = a ∨ d = b)
    let rb ← r b
    let rd ← r d
    let overflow1 ← branch (.cbz 32 rb)
    let overflow2 ← if dividend = 0x80000000 then do
        data (.cmn 32 rb (.imm 1))
        some <$> branch (.bcond .eq)
      else pure none
    data (.sdiv 32 rd (← r a) rb)
    let done ← branch .b
    setJumpTarget overflow1
    match overflow2 with
    | some overflow2 => setJumpTarget overflow2
    | none => pure ()
    data (.movi 32 rd (if dividend.msb then 0xFFFFFFFF else 0))
    setJumpTarget done
    if inst.rc then computeRC0 rd
  else if k.hasGPR b then
    divwxByConstant a d (k.getGPR b)
    if inst.rc then computeRC0 (← r d)
  else
    flushCarry
    bindToRegister d (d = a ∨ d = b)
    let ra ← r a
    let rb ← r b
    let rd ← r d
    let overflow1 ← branch (.cbz 32 rb)
    -- Is RA 0x80000000?
    data (.negs 32 .zr ra)
    -- Is RB -1?
    data (.ccmn 32 rb 1 ⟨false, false, false, false⟩ .vs)
    let overflow2 ← branch (.bcond .eq)
    data (.sdiv 32 rd ra rb)
    let done ← branch .b
    setJumpTarget overflow1
    setJumpTarget overflow2
    data (.asr 32 rd ra 31)
    setJumpTarget done
    if inst.rc then computeRC0 rd

end Phocoena.JitArm64
