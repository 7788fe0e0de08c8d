import Phocoena.DSP.Registers

/-! # Arithmetic instructions of the DSP

Each instruction is a function of its word and of the state. `ZeroWriteBackLog` does nothing, as
the interpreter is built without `PRECISE_BACKLOG`.
-/

namespace Phocoena.DSP.Interpreter

open State

section
variable {M : Type}

/-- `(opc >> n) & 0x1` -/
def bit (n : Nat) (opc : BitVec 16) : BitVec 1 := opc.extractLsb' n 1

/-! ## Results -/

/-- `SetLongAcc(reg, value); UpdateSR64(value);` -/
def setAndTestValue (reg : BitVec 1) (value : Int) (s : State M) : State M :=
  (s.SetLongAcc reg value).UpdateSR64 value false false

/-- `SetLongAcc(reg, value); UpdateSR64(GetLongAcc(reg));` -/
def setAndTest (reg : BitVec 1) (value : Int) (s : State M) : State M :=
  let s := s.SetLongAcc reg value
  s.UpdateSR64 (s.GetLongAcc reg) false false

def addAndTest (reg : BitVec 1) (val1 val2 : Int) (s : State M) : State M :=
  let s := s.SetLongAcc reg (val1 + val2)
  s.UpdateSR64Add val1 val2 (s.GetLongAcc reg)

def subAndTest (reg : BitVec 1) (val1 val2 : Int) (s : State M) : State M :=
  let s := s.SetLongAcc reg (val1 - val2)
  s.UpdateSR64Sub val1 val2 (s.GetLongAcc reg)

def compareLong (val1 val2 : Int) (s : State M) : State M :=
  s.UpdateSR64Sub val1 val2 (dsp_convert_long_acc (val1 - val2))

/-- The middle part is set, and tested. -/
def setMidAndTest (reg : BitVec 1) (accm : BitVec 16) (s : State M) : State M :=
  let s := s.setAccMid reg accm
  s.UpdateSR16 accm false false (isOverS32 (s.GetLongAcc reg))

/-! ## Clear, test and compare -/

def clr (opc : BitVec 16) (s : State M) : State M := setAndTestValue (bit 11 opc) 0 s

def clrl (opc : BitVec 16) (s : State M) : State M :=
  setAndTestValue (bit 8 opc) (dsp_round_long_acc (s.GetLongAcc (bit 8 opc))) s

variable (bus : Bus M) in
def andcf (opc : BitVec 16) (s : State M) : State M :=
  let (imm, s) := s.FetchInstruction bus
  s.UpdateSRLogicZero (s.GetAccMid (bit 8 opc) &&& imm == imm)

variable (bus : Bus M) in
def andf (opc : BitVec 16) (s : State M) : State M :=
  let (imm, s) := s.FetchInstruction bus
  s.UpdateSRLogicZero (s.GetAccMid (bit 8 opc) &&& imm == 0)

def tst (opc : BitVec 16) (s : State M) : State M :=
  s.UpdateSR64 (s.GetLongAcc (bit 11 opc)) false false

def tstaxh (opc : BitVec 16) (s : State M) : State M :=
  s.UpdateSR16 (s.GetAXHigh (bit 8 opc)) false false false

def cmp (_ : BitVec 16) (s : State M) : State M :=
  compareLong (s.GetLongAcc 0) (s.GetLongAcc 1) s

def cmpaxh (opc : BitVec 16) (s : State M) : State M :=
  compareLong (s.GetLongAcc (bit 11 opc)) ((s.GetAXHigh (bit 12 opc)).toInt * 2 ^ 16) s

variable (bus : Bus M) in
/-- Immediate is considered to be at M level in the 40-bit accumulator. -/
def cmpi (opc : BitVec 16) (s : State M) : State M :=
  let (imm, s) := s.FetchInstruction bus
  compareLong (s.GetLongAcc (bit 8 opc)) (imm.toInt * 2 ^ 16) s

/-- The signed low byte of an instruction, at M level. -/
def shortImmediate (opc : BitVec 16) : Int := (opc.setWidth 8).toInt * 2 ^ 16

def cmpis (opc : BitVec 16) (s : State M) : State M :=
  compareLong (s.GetLongAcc (bit 8 opc)) (shortImmediate opc) s

/-! ## Logic -/

def xorr (opc : BitVec 16) (s : State M) : State M :=
  setMidAndTest (bit 8 opc) (s.GetAccMid (bit 8 opc) ^^^ s.axh (bit 9 opc)) s

def andr (opc : BitVec 16) (s : State M) : State M :=
  setMidAndTest (bit 8 opc) (s.GetAccMid (bit 8 opc) &&& s.axh (bit 9 opc)) s

def orr (opc : BitVec 16) (s : State M) : State M :=
  setMidAndTest (bit 8 opc) (s.GetAccMid (bit 8 opc) ||| s.axh (bit 9 opc)) s

def andc (opc : BitVec 16) (s : State M) : State M :=
  setMidAndTest (bit 8 opc) (s.GetAccMid (bit 8 opc) &&& s.GetAccMid (1 - bit 8 opc)) s

def orc (opc : BitVec 16) (s : State M) : State M :=
  setMidAndTest (bit 8 opc) (s.GetAccMid (bit 8 opc) ||| s.GetAccMid (1 - bit 8 opc)) s

def xorc (opc : BitVec 16) (s : State M) : State M :=
  setMidAndTest (bit 8 opc) (s.GetAccMid (bit 8 opc) ^^^ s.GetAccMid (1 - bit 8 opc)) s

def notc (opc : BitVec 16) (s : State M) : State M :=
  setMidAndTest (bit 8 opc) (s.GetAccMid (bit 8 opc) ^^^ 0xffff) s

section
variable (bus : Bus M)

def xori (opc : BitVec 16) (s : State M) : State M :=
  let (imm, s) := s.FetchInstruction bus
  setMidAndTest (bit 8 opc) (s.GetAccMid (bit 8 opc) ^^^ imm) s

def andi (opc : BitVec 16) (s : State M) : State M :=
  let (imm, s) := s.FetchInstruction bus
  setMidAndTest (bit 8 opc) (s.GetAccMid (bit 8 opc) &&& imm) s

def ori (opc : BitVec 16) (s : State M) : State M :=
  let (imm, s) := s.FetchInstruction bus
  setMidAndTest (bit 8 opc) (s.GetAccMid (bit 8 opc) ||| imm) s

end

/-! ## Add -/

/-- `ax0.l`, `ax1.l`, `ax0.h` or `ax1.h`, at M level. -/
def axOperand (opc : BitVec 16) (s : State M) : Int :=
  (if bit 10 opc = 0 then s.axl (bit 9 opc) else s.axh (bit 9 opc)).toInt * 2 ^ 16

def addr (opc : BitVec 16) (s : State M) : State M :=
  addAndTest (bit 8 opc) (s.GetLongAcc (bit 8 opc)) (axOperand opc s) s

def addax (opc : BitVec 16) (s : State M) : State M :=
  addAndTest (bit 8 opc) (s.GetLongAcc (bit 8 opc)) (s.GetLongACX (bit 9 opc)) s

def add (opc : BitVec 16) (s : State M) : State M :=
  addAndTest (bit 8 opc) (s.GetLongAcc (bit 8 opc)) (s.GetLongAcc (1 - bit 8 opc)) s

def addp (opc : BitVec 16) (s : State M) : State M :=
  addAndTest (bit 8 opc) (s.GetLongAcc (bit 8 opc)) s.GetLongProduct s

def addaxl (opc : BitVec 16) (s : State M) : State M :=
  addAndTest (bit 8 opc) (s.GetLongAcc (bit 8 opc)) (s.GetAXLow (bit 9 opc)).toNat s

variable (bus : Bus M) in
def addi (opc : BitVec 16) (s : State M) : State M :=
  let (imm, s) := s.FetchInstruction bus
  addAndTest (bit 8 opc) (s.GetLongAcc (bit 8 opc)) (imm.toInt * 2 ^ 16) s

def addis (opc : BitVec 16) (s : State M) : State M :=
  addAndTest (bit 8 opc) (s.GetLongAcc (bit 8 opc)) (shortImmediate opc) s

def incm (opc : BitVec 16) (s : State M) : State M :=
  addAndTest (bit 8 opc) (s.GetLongAcc (bit 8 opc)) 0x10000 s

def inc (opc : BitVec 16) (s : State M) : State M :=
  addAndTest (bit 8 opc) (s.GetLongAcc (bit 8 opc)) 1 s

/-! ## Subtract -/

def subr (opc : BitVec 16) (s : State M) : State M :=
  subAndTest (bit 8 opc) (s.GetLongAcc (bit 8 opc)) (axOperand opc s) s

def subax (opc : BitVec 16) (s : State M) : State M :=
  subAndTest (bit 8 opc) (s.GetLongAcc (bit 8 opc)) (s.GetLongACX (bit 9 opc)) s

def sub (opc : BitVec 16) (s : State M) : State M :=
  subAndTest (bit 8 opc) (s.GetLongAcc (bit 8 opc)) (s.GetLongAcc (1 - bit 8 opc)) s

def subp (opc : BitVec 16) (s : State M) : State M :=
  subAndTest (bit 8 opc) (s.GetLongAcc (bit 8 opc)) s.GetLongProduct s

def decm (opc : BitVec 16) (s : State M) : State M :=
  subAndTest (bit 8 opc) (s.GetLongAcc (bit 8 opc)) 0x10000 s

def dec (opc : BitVec 16) (s : State M) : State M :=
  subAndTest (bit 8 opc) (s.GetLongAcc (bit 8 opc)) 1 s

def neg (opc : BitVec 16) (s : State M) : State M :=
  subAndTest (bit 8 opc) 0 (s.GetLongAcc (bit 8 opc)) s

def abs (opc : BitVec 16) (s : State M) : State M :=
  let acc := s.GetLongAcc (bit 11 opc)
  setAndTest (bit 11 opc) (if acc < 0 then 0 - acc else acc) s

/-! ## Move -/

def movr (opc : BitVec 16) (s : State M) : State M :=
  setAndTestValue (bit 8 opc) (axOperand opc s) s

def movax (opc : BitVec 16) (s : State M) : State M :=
  setAndTestValue (bit 8 opc) (s.GetLongACX (bit 9 opc)) s

def mov (opc : BitVec 16) (s : State M) : State M :=
  setAndTestValue (bit 8 opc) (s.GetLongAcc (1 - bit 8 opc)) s

/-! ## Shift -/

/-- A shift to the left in 64 bits. -/
def shl (acc : Int) (shift : Nat) : Int := wrap (2 ^ 63) (acc * 2 ^ shift)

/-- Lop off the extraneous sign extension our 64-bit fake accum causes -/
def lopOff (acc : Int) : Int := acc % 2 ^ 40

def lsl16 (opc : BitVec 16) (s : State M) : State M :=
  setAndTest (bit 8 opc) (shl (s.GetLongAcc (bit 8 opc)) 16) s

def lsr16 (opc : BitVec 16) (s : State M) : State M :=
  setAndTest (bit 8 opc) (lopOff (s.GetLongAcc (bit 8 opc)) / 2 ^ 16) s

def asr16 (opc : BitVec 16) (s : State M) : State M :=
  setAndTest (bit 11 opc) (s.GetLongAcc (bit 11 opc) / 2 ^ 16) s

/-- `opc & 0x3f` -/
def shiftField (opc : BitVec 16) : Nat := opc.toNat % 0x40

/-- The amount of a shift to the right is the negated field. -/
def rightShift (opc : BitVec 16) : Nat := if shiftField opc = 0 then 0 else 0x40 - shiftField opc

def lsl (opc : BitVec 16) (s : State M) : State M :=
  setAndTest (bit 8 opc) (shl (s.GetLongAcc (bit 8 opc)) (shiftField opc)) s

def lsr (opc : BitVec 16) (s : State M) : State M :=
  setAndTest (bit 8 opc) (lopOff (s.GetLongAcc (bit 8 opc)) / 2 ^ rightShift opc) s

def asl (opc : BitVec 16) (s : State M) : State M :=
  setAndTest (bit 8 opc) (shl (s.GetLongAcc (bit 8 opc)) (shiftField opc)) s

def asr (opc : BitVec 16) (s : State M) : State M :=
  setAndTest (bit 8 opc) (s.GetLongAcc (bit 8 opc) / 2 ^ rightShift opc) s

/-- The signed amount in a register. -/
def shiftAmount (value : BitVec 16) : Int :=
  if value.toNat % 0x40 = 0 then 0
  else if value.toNat / 0x40 % 2 ≠ 0 then -0x40 + (value.toNat % 0x40 : Nat)
  else (value.toNat % 0x40 : Nat)

def shiftRightBy (acc shift : Int) : Int :=
  if 0 < shift then acc / 2 ^ shift.toNat
  else if shift < 0 then shl acc (-shift).toNat
  else acc

def shiftLeftBy (acc shift : Int) : Int :=
  if 0 < shift then shl acc shift.toNat
  else if shift < 0 then acc / 2 ^ (-shift).toNat
  else acc

def lsrn (_ : BitVec 16) (s : State M) : State M :=
  setAndTest 0 (shiftRightBy (lopOff (s.GetLongAcc 0)) (shiftAmount (s.GetAccMid 1))) s

def asrn (_ : BitVec 16) (s : State M) : State M :=
  setAndTest 0 (shiftRightBy (s.GetLongAcc 0) (shiftAmount (s.GetAccMid 1))) s

def lsrnrx (opc : BitVec 16) (s : State M) : State M :=
  setAndTest (bit 8 opc)
    (shiftLeftBy (lopOff (s.GetLongAcc (bit 8 opc))) (shiftAmount (s.axh (bit 9 opc)))) s

def asrnrx (opc : BitVec 16) (s : State M) : State M :=
  setAndTest (bit 8 opc)
    (shiftLeftBy (s.GetLongAcc (bit 8 opc)) (shiftAmount (s.axh (bit 9 opc)))) s

def lsrnr (opc : BitVec 16) (s : State M) : State M :=
  setAndTest (bit 8 opc) (shiftLeftBy (lopOff (s.GetLongAcc (bit 8 opc)))
    (shiftAmount (s.GetAccMid (1 - bit 8 opc)))) s

def asrnr (opc : BitVec 16) (s : State M) : State M :=
  setAndTest (bit 8 opc)
    (shiftLeftBy (s.GetLongAcc (bit 8 opc)) (shiftAmount (s.GetAccMid (1 - bit 8 opc)))) s

end

end Phocoena.DSP.Interpreter

/-! ## Multiplier instructions of the DSP

The product of one multiplication is moved or added to an accumulator while the next one is made.
-/

namespace Phocoena.DSP.Interpreter

open State

variable {M : Type}

def clrp (_ : BitVec 16) (s : State M) : State M :=
  { s with prod := ⟨0x0000, 0xfff0, 0x00ff, 0x0010⟩ }

def tstprod (_ : BitVec 16) (s : State M) : State M := s.UpdateSR64 s.GetLongProduct false false

/-! ## Move the product -/

def movp (opc : BitVec 16) (s : State M) : State M :=
  setAndTestValue (bit 8 opc) s.GetLongProduct s

def movnp (opc : BitVec 16) (s : State M) : State M :=
  setAndTestValue (bit 8 opc) (-s.GetLongProduct) s

def movpz (opc : BitVec 16) (s : State M) : State M :=
  setAndTestValue (bit 8 opc) s.GetLongProductRounded s

/-- The overflow flag is not set here. -/
def addpaxz (opc : BitVec 16) (s : State M) : State M :=
  let oldprod := s.GetLongProduct
  let res := s.GetLongProductRounded + s.GetLongACX (bit 9 opc) / 0x10000 * 0x10000
  let s := s.SetLongAcc (bit 8 opc) res
  s.UpdateSR64 (s.GetLongAcc (bit 8 opc)) (isCarryAdd oldprod (s.GetLongAcc (bit 8 opc))) false

/-! ## Multiply -/

/-- `SetLongProduct(prod); SetLongAcc(reg, acc); UpdateSR64(GetLongAcc(reg));` -/
def multiplyAndSet (reg : BitVec 1) (acc prod : Int) (s : State M) : State M :=
  setAndTest reg acc (s.SetLongProduct prod)

def mulaxh (_ : BitVec 16) (s : State M) : State M :=
  s.SetLongProduct (s.Multiply (s.GetAXHigh 0) (s.GetAXHigh 0) 0)

def mul (opc : BitVec 16) (s : State M) : State M :=
  s.SetLongProduct (s.Multiply (s.GetAXHigh (bit 11 opc)) (s.GetAXLow (bit 11 opc)) 0)

def axProduct (opc : BitVec 16) (s : State M) : Int :=
  s.Multiply (s.GetAXLow (bit 11 opc)) (s.GetAXHigh (bit 11 opc)) 0

def mulac (opc : BitVec 16) (s : State M) : State M :=
  multiplyAndSet (bit 8 opc) (s.GetLongAcc (bit 8 opc) + s.GetLongProduct) (axProduct opc s) s

def mulmv (opc : BitVec 16) (s : State M) : State M :=
  multiplyAndSet (bit 8 opc) s.GetLongProduct (axProduct opc s) s

def mulmvz (opc : BitVec 16) (s : State M) : State M :=
  multiplyAndSet (bit 8 opc) s.GetLongProductRounded (axProduct opc s) s

/-! ## Multiply parts of both -/

/-- `ax0.l` or `ax0.h`, and `ax1.l` or `ax1.h`. -/
def xOperand (reg part : BitVec 1) (s : State M) : BitVec 16 :=
  if part = 0 then s.GetAXLow reg else s.GetAXHigh reg

def xProduct (opc : BitVec 16) (s : State M) : Int :=
  s.MultiplyMulX (bit 12 opc) (bit 11 opc) (xOperand 0 (bit 12 opc) s) (xOperand 1 (bit 11 opc) s)

def mulx (opc : BitVec 16) (s : State M) : State M := s.SetLongProduct (xProduct opc s)

def mulxac (opc : BitVec 16) (s : State M) : State M :=
  multiplyAndSet (bit 8 opc) (s.GetLongAcc (bit 8 opc) + s.GetLongProduct) (xProduct opc s) s

def mulxmv (opc : BitVec 16) (s : State M) : State M :=
  multiplyAndSet (bit 8 opc) s.GetLongProduct (xProduct opc s) s

def mulxmvz (opc : BitVec 16) (s : State M) : State M :=
  multiplyAndSet (bit 8 opc) s.GetLongProductRounded (xProduct opc s) s

/-! ## Multiply with an accumulator -/

def cProduct (opc : BitVec 16) (s : State M) : Int :=
  s.Multiply (s.GetAccMid (bit 12 opc)) (s.GetAXHigh (bit 11 opc)) 0

def mulc (opc : BitVec 16) (s : State M) : State M := s.SetLongProduct (cProduct opc s)

def mulcac (opc : BitVec 16) (s : State M) : State M :=
  multiplyAndSet (bit 8 opc) (s.GetLongAcc (bit 8 opc) + s.GetLongProduct) (cProduct opc s) s

def mulcmv (opc : BitVec 16) (s : State M) : State M :=
  multiplyAndSet (bit 8 opc) s.GetLongProduct (cProduct opc s) s

def mulcmvz (opc : BitVec 16) (s : State M) : State M :=
  multiplyAndSet (bit 8 opc) s.GetLongProductRounded (cProduct opc s) s

/-! ## Multiply and add -/

def maddx (opc : BitVec 16) (s : State M) : State M :=
  s.SetLongProduct (s.MultiplyAdd (xOperand 0 (bit 9 opc) s) (xOperand 1 (bit 8 opc) s))

def msubx (opc : BitVec 16) (s : State M) : State M :=
  s.SetLongProduct (s.MultiplySub (xOperand 0 (bit 9 opc) s) (xOperand 1 (bit 8 opc) s))

def maddc (opc : BitVec 16) (s : State M) : State M :=
  s.SetLongProduct (s.MultiplyAdd (s.GetAccMid (bit 9 opc)) (s.GetAXHigh (bit 8 opc)))

def msubc (opc : BitVec 16) (s : State M) : State M :=
  s.SetLongProduct (s.MultiplySub (s.GetAccMid (bit 9 opc)) (s.GetAXHigh (bit 8 opc)))

def madd (opc : BitVec 16) (s : State M) : State M :=
  s.SetLongProduct (s.MultiplyAdd (s.GetAXLow (bit 8 opc)) (s.GetAXHigh (bit 8 opc)))

def msub (opc : BitVec 16) (s : State M) : State M :=
  s.SetLongProduct (s.MultiplySub (s.GetAXLow (bit 8 opc)) (s.GetAXHigh (bit 8 opc)))

end Phocoena.DSP.Interpreter
