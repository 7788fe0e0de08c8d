import Phocoena.Lib.Wrapped
import Mathlib.Logic.Function.Basic

/-! # Registers of the DSP

The accumulators, the product and the status register of the DSP, with the helpers that the
interpreter's instructions are made of. An accumulator is the signed value of its 64 bits. The
memory and what is mapped into it is a bus.
-/

namespace Phocoena.DSP

/-! ## Status register -/

def SR_CARRY : BitVec 16 := 0x0001
def SR_OVERFLOW : BitVec 16 := 0x0002
def SR_ARITH_ZERO : BitVec 16 := 0x0004
def SR_SIGN : BitVec 16 := 0x0008
def SR_OVER_S32 : BitVec 16 := 0x0010
def SR_TOP2BITS : BitVec 16 := 0x0020
def SR_LOGIC_ZERO : BitVec 16 := 0x0040
def SR_OVERFLOW_STICKY : BitVec 16 := 0x0080
def SR_100 : BitVec 16 := 0x0100
def SR_MUL_MODIFY : BitVec 16 := 0x2000
def SR_40_MODE_BIT : BitVec 16 := 0x4000
def SR_MUL_UNSIGNED : BitVec 16 := 0x8000
def SR_CMP_MASK : BitVec 16 := 0x3f

/-! ## State -/

structure Prod where
  l : BitVec 16
  m : BitVec 16
  h : BitVec 16
  m2 : BitVec 16
deriving DecidableEq

/-- `M` is the state of the memory and of the hardware behind it. -/
structure State (M : Type) where
  ar : BitVec 2 → BitVec 16
  ix : BitVec 2 → BitVec 16
  wr : BitVec 2 → BitVec 16
  st : BitVec 2 → BitVec 16
  reg_stacks : BitVec 2 → BitVec 5 → BitVec 16
  reg_stack_ptrs : BitVec 2 → BitVec 5
  cr : BitVec 16
  sr : BitVec 16
  prod : Prod
  axl : BitVec 1 → BitVec 16
  axh : BitVec 1 → BitVec 16
  /-- `ac[reg].val`, as a signed number -/
  ac : BitVec 1 → Int
  pc : BitVec 16
  memory : M
  /-- `m_write_back_log_idx` and `m_write_back_log`, up to the -1. -/
  write_back_log : List (BitVec 5 × BitVec 16)
  /-- Not in the source: no assertion has failed. -/
  asserts : Bool

/-- Reads of the hardware registers may change what is behind them. -/
structure Bus (M : Type) where
  ReadDMEM : M → BitVec 16 → BitVec 16 × M
  WriteDMEM : M → BitVec 16 → BitVec 16 → M
  ReadIMEM : M → BitVec 16 → BitVec 16

/-! ## Conversions -/

/-- s64 -> s40 -/
def dsp_convert_long_acc (val : Int) : Int := wrap (2 ^ 39) val

def dsp_round_long_acc (val : Int) : Int :=
  if val / 0x10000 % 2 ≠ 0 then (val + 0x8000) / 0x10000 * 0x10000
  else (val + 0x7fff) / 0x10000 * 0x10000

def isCarryAdd (val result : Int) : Bool := decide (result % 2 ^ 64 < val % 2 ^ 64)

def isCarrySubtract (val result : Int) : Bool := decide (result % 2 ^ 64 ≤ val % 2 ^ 64)

/-- The sign of `(val1 ^ res) & (val2 ^ res)`. -/
def isOverflow (val1 val2 res : Int) : Bool :=
  decide ((val1 < 0 ↔ ¬ res < 0) ∧ (val2 < 0 ↔ ¬ res < 0))

def isOverS32 (acc : Int) : Bool := decide (acc ≠ wrap (2 ^ 31) acc)

/-- The top 25 of the 64 bits are equal. -/
def IsProperlySignExtended (val : Int) : Bool := decide (val / 2 ^ 39 = 0 ∨ val / 2 ^ 39 = -1)

/-- `if (c) sr |= mask;` -/
def orIf (c : Bool) (mask sr : BitVec 16) : BitVec 16 := if c then sr ||| mask else sr

namespace State
variable {M : Type}

def IsSRFlagSet (mask : BitVec 16) (s : State M) : Bool := s.sr &&& mask != 0

/-! ## Accumulators -/

def GetLongACX (reg : BitVec 1) (s : State M) : Int :=
  (s.axh reg).toInt * 2 ^ 16 + (s.axl reg).toNat

def GetAXLow (reg : BitVec 1) (s : State M) : BitVec 16 := s.axl reg

def GetAXHigh (reg : BitVec 1) (s : State M) : BitVec 16 := s.axh reg

def GetLongAcc (reg : BitVec 1) (s : State M) : Int := s.ac reg

/-- 40-bit sign extension -/
def SetLongAcc (reg : BitVec 1) (value : Int) (s : State M) : State M :=
  { s with ac := Function.update s.ac reg (dsp_convert_long_acc value) }

def GetAccLow (reg : BitVec 1) (s : State M) : BitVec 16 := BitVec.ofInt 16 (s.ac reg)

def GetAccMid (reg : BitVec 1) (s : State M) : BitVec 16 := BitVec.ofInt 16 (s.ac reg / 2 ^ 16)

/-- The low 16 of the 32 bits of `h`. -/
def GetAccHigh (reg : BitVec 1) (s : State M) : BitVec 16 := BitVec.ofInt 16 (s.ac reg / 2 ^ 32)

def setAccLow (reg : BitVec 1) (value : BitVec 16) (s : State M) : State M :=
  { s with ac := Function.update s.ac reg (s.ac reg / 2 ^ 16 * 2 ^ 16 + value.toNat) }

def setAccMid (reg : BitVec 1) (value : BitVec 16) (s : State M) : State M :=
  let val := s.ac reg / 2 ^ 32 * 2 ^ 32 + value.toNat * 2 ^ 16 + s.ac reg % 2 ^ 16
  { s with ac := Function.update s.ac reg val }

/-- `h` is the upper 32 bits. -/
def setAccHigh (reg : BitVec 1) (value : Int) (s : State M) : State M :=
  { s with ac := Function.update s.ac reg (value * 2 ^ 32 + s.ac reg % 2 ^ 32) }

/-! ## Product -/

def GetLongProduct (s : State M) : Int :=
  (s.prod.h.setWidth 8).toInt * 2 ^ 32 + (s.prod.m.toNat + s.prod.m2.toNat) * 2 ^ 16 +
    s.prod.l.toNat

def GetLongProductRounded (s : State M) : Int := dsp_round_long_acc s.GetLongProduct

def SetLongProduct (value : Int) (s : State M) : State M :=
  { s with prod := {
      l := BitVec.ofInt 16 value
      m := BitVec.ofInt 16 (value / 2 ^ 16)
      h := (BitVec.ofInt 8 (value / 2 ^ 32)).setWidth 16
      m2 := 0 } }

def GetMultiplyProduct (a b : BitVec 16) (sign : Nat) (s : State M) : Int :=
  let prod : Int :=
    if sign = 1 ∧ s.IsSRFlagSet SR_MUL_UNSIGNED then a.toNat * b.toNat
    else if sign = 2 ∧ s.IsSRFlagSet SR_MUL_UNSIGNED then a.toNat * b.toInt
    else a.toInt * b.toInt
  -- Conditionally multiply by 2.
  if s.IsSRFlagSet SR_MUL_MODIFY then prod else prod * 2

def Multiply (a b : BitVec 16) (sign : Nat) (s : State M) : Int := s.GetMultiplyProduct a b sign

def MultiplyAdd (a b : BitVec 16) (s : State M) : Int :=
  s.GetLongProduct + s.GetMultiplyProduct a b 0

def MultiplySub (a b : BitVec 16) (s : State M) : Int :=
  s.GetLongProduct - s.GetMultiplyProduct a b 0

def MultiplyMulX (axh0 axh1 : BitVec 1) (val1 val2 : BitVec 16) (s : State M) : Int :=
  if axh0 = 0 ∧ axh1 = 0 then s.Multiply val1 val2 1
  else if axh0 = 0 ∧ axh1 = 1 then s.Multiply val1 val2 2
  else if axh0 = 1 ∧ axh1 = 0 then s.Multiply val2 val1 2
  else s.Multiply val1 val2 0

/-! ## Flags -/

/-- The flags that a result sets: carry, overflow, the tests of the value. -/
def setFlags (carry overflow zero sign over_s32 top2bits : Bool) (s : State M) : State M :=
  { s with
    sr := orIf top2bits SR_TOP2BITS <| orIf over_s32 SR_OVER_S32 <| orIf sign SR_SIGN <|
      orIf zero SR_ARITH_ZERO <| orIf overflow SR_OVERFLOW_STICKY <| orIf overflow SR_OVERFLOW <|
      orIf carry SR_CARRY (s.sr &&& ~~~SR_CMP_MASK) }

def UpdateSR16 (value : BitVec 16) (carry overflow over_s32 : Bool) (s : State M) : State M :=
  s.setFlags carry overflow (value == 0) value.msb over_s32
    (value >>> 14 == 0 || value >>> 14 == 3)

def UpdateSR64 (value : Int) (carry overflow : Bool) (s : State M) : State M :=
  { s with asserts := s.asserts && IsProperlySignExtended value }.setFlags carry overflow
    (value == 0) (decide (value < 0)) (isOverS32 value)
    (value / 2 ^ 30 % 4 == 0 || value / 2 ^ 30 % 4 == 3)

def UpdateSR64Add (val1 val2 result : Int) (s : State M) : State M :=
  let asserts := ((val1 + val2) % 2 ^ 40 == result % 2 ^ 40) && IsProperlySignExtended val1 &&
    IsProperlySignExtended val2
  { s with asserts := s.asserts && asserts }.UpdateSR64 result (isCarryAdd val1 result)
    (isOverflow val1 val2 result)

def UpdateSR64Sub (val1 val2 result : Int) (s : State M) : State M :=
  let asserts := ((val1 - val2) % 2 ^ 40 == result % 2 ^ 40) && IsProperlySignExtended val1 &&
    IsProperlySignExtended val2
  { s with asserts := s.asserts && asserts }.UpdateSR64 result (isCarrySubtract val1 result)
    (isOverflow val1 (-val2) result)

def UpdateSRLogicZero (value : Bool) (s : State M) : State M :=
  { s with sr := if value then s.sr ||| SR_LOGIC_ZERO else s.sr &&& ~~~SR_LOGIC_ZERO }

/-! ## Address registers -/

def IncrementAddressRegister (reg : BitVec 2) (s : State M) : BitVec 16 :=
  let ar := (s.ar reg).setWidth 32
  let wr := (s.wr reg).setWidth 32
  let nar := ar + 1
  let wrapped : BitVec 32 := if nar ^^^ ar > (wr ||| 1) <<< 1 then nar - (wr + 1) else nar
  wrapped.setWidth 16

def DecrementAddressRegister (reg : BitVec 2) (s : State M) : BitVec 16 :=
  let ar := (s.ar reg).setWidth 32
  let wr := (s.wr reg).setWidth 32
  let nar := ar + wr
  let wrapped : BitVec 32 :=
    if (nar ^^^ ar) &&& ((wr ||| 1) <<< 1) > wr then nar - (wr + 1) else nar
  wrapped.setWidth 16

def IncreaseAddressRegister (reg : BitVec 2) (ix_ : BitVec 16) (s : State M) : BitVec 16 :=
  let ar := (s.ar reg).setWidth 32
  let wr := (s.wr reg).setWidth 32
  let ix := ix_.signExtend 32
  let nar := ar + ix
  let dar := (nar ^^^ ar ^^^ ix) &&& ((wr ||| 1) <<< 1)
  let wrapped : BitVec 32 :=
    if ix_.msb then
      -- Underflow or below min for mask
      if ((nar + wr + 1) ^^^ nar) &&& dar ≤ wr then nar + (wr + 1) else nar
    else if dar > wr then nar - (wr + 1)
    else nar
  wrapped.setWidth 16

def DecreaseAddressRegister (reg : BitVec 2) (ix_ : BitVec 16) (s : State M) : BitVec 16 :=
  let ar := (s.ar reg).setWidth 32
  let wr := (s.wr reg).setWidth 32
  let ix := ix_.signExtend 32
  let nar := ar - ix
  let dar := (nar ^^^ ar ^^^ ~~~ix) &&& ((wr ||| 1) <<< 1)
  let wrapped : BitVec 32 :=
    -- (ix < 0 && ix != -0x8000)
    if ix > 0xFFFF8000 then
      if dar > wr then nar - (wr + 1) else nar
    else if ((nar + wr + 1) ^^^ nar) &&& dar ≤ wr then nar + (wr + 1)
    else nar
  wrapped.setWidth 16

def setAr (reg : BitVec 2) (value : BitVec 16) (s : State M) : State M :=
  { s with ar := Function.update s.ar reg value }

/-! ## Memory -/

variable (bus : Bus M)

def ReadDMEM (address : BitVec 16) (s : State M) : BitVec 16 × State M :=
  let (value, memory) := bus.ReadDMEM s.memory address
  (value, { s with memory })

def WriteDMEM (address value : BitVec 16) (s : State M) : State M :=
  { s with memory := bus.WriteDMEM s.memory address value }

def FetchInstruction (s : State M) : BitVec 16 × State M :=
  (bus.ReadIMEM s.memory s.pc, { s with pc := s.pc + 1 })

/-! ## Registers by number -/

def StoreStack (reg : BitVec 2) (val : BitVec 16) (s : State M) : State M :=
  let ptr := s.reg_stack_ptrs reg + 1
  { s with
    reg_stack_ptrs := Function.update s.reg_stack_ptrs reg ptr
    reg_stacks := Function.update s.reg_stacks reg
      (Function.update (s.reg_stacks reg) ptr (s.st reg))
    st := Function.update s.st reg val }

def PopStack (reg : BitVec 2) (s : State M) : BitVec 16 × State M :=
  (s.st reg, { s with
    st := Function.update s.st reg (s.reg_stacks reg (s.reg_stack_ptrs reg))
    reg_stack_ptrs := Function.update s.reg_stack_ptrs reg (s.reg_stack_ptrs reg - 1) })

/-- Reads of `ac0.m` and `ac1.m` saturate in the 40-bit mode. -/
def readAccMid (reg : BitVec 1) (s : State M) : BitVec 16 :=
  if s.IsSRFlagSet SR_40_MODE_BIT && isOverS32 (s.GetLongAcc reg) then
    if 0 < s.GetLongAcc reg then 0x7fff else 0x8000
  else s.GetAccMid reg

/-- The registers come in groups of four, and pairs, by the low bits of their number. -/
def OpReadRegister (reg : BitVec 5) (s : State M) : BitVec 16 × State M :=
  let four := reg.setWidth 2
  let two := reg.setWidth 1
  match reg.toNat with
  | 0x0 | 0x1 | 0x2 | 0x3 => (s.ar four, s)
  | 0x4 | 0x5 | 0x6 | 0x7 => (s.ix four, s)
  | 0x8 | 0x9 | 0xa | 0xb => (s.wr four, s)
  | 0xc | 0xd | 0xe | 0xf => s.PopStack four
  | 0x10 | 0x11 => (s.GetAccHigh two, s)
  | 0x12 => (s.cr, s)
  | 0x13 => (s.sr, s)
  | 0x14 => (s.prod.l, s)
  | 0x15 => (s.prod.m, s)
  | 0x16 => (s.prod.h, s)
  | 0x17 => (s.prod.m2, s)
  | 0x18 | 0x19 => (s.axl two, s)
  | 0x1a | 0x1b => (s.axh two, s)
  | 0x1c | 0x1d => (s.GetAccLow two, s)
  | _ => (s.readAccMid two, s)

def OpWriteRegister (reg : BitVec 5) (val : BitVec 16) (s : State M) : State M :=
  let four := reg.setWidth 2
  let two := reg.setWidth 1
  match reg.toNat with
  | 0x0 | 0x1 | 0x2 | 0x3 => s.setAr four val
  | 0x4 | 0x5 | 0x6 | 0x7 => { s with ix := Function.update s.ix four val }
  | 0x8 | 0x9 | 0xa | 0xb => { s with wr := Function.update s.wr four val }
  | 0xc | 0xd | 0xe | 0xf => s.StoreStack four val
  -- Sign extend from the bottom 8 bits.
  | 0x10 | 0x11 => s.setAccHigh two (val.setWidth 8).toInt
  | 0x12 => { s with cr := val &&& 0x00ff }
  | 0x13 => { s with sr := val &&& ~~~SR_100 }
  | 0x14 => { s with prod := { s.prod with l := val } }
  | 0x15 => { s with prod := { s.prod with m := val } }
  | 0x16 => { s with prod := { s.prod with h := val &&& 0x00ff } }
  | 0x17 => { s with prod := { s.prod with m2 := val } }
  | 0x18 | 0x19 => { s with axl := Function.update s.axl two val }
  | 0x1a | 0x1b => { s with axh := Function.update s.axh two val }
  | 0x1c | 0x1d => s.setAccLow two val
  | _ => s.setAccMid two val

/-- Sign extend into whole accum. -/
def ConditionalExtendAccum (reg : BitVec 5) (s : State M) : State M :=
  if 0x1e ≤ reg.toNat ∧ s.IsSRFlagSet SR_40_MODE_BIT then
    let two := reg.setWidth 1
    (s.setAccHigh two (if (s.GetAccMid two).msb then -1 else 0)).setAccLow two 0
  else s

/-! ## Write-back log -/

def WriteToBackLog (idx : BitVec 5) (value : BitVec 16) (s : State M) : State M :=
  { s with write_back_log := s.write_back_log ++ [(idx, value)] }

def ApplyWriteBackLog (s : State M) : State M :=
  { s.write_back_log.foldl (fun s entry => s.OpWriteRegister entry.1 entry.2) s with
    write_back_log := [] }

end State

end Phocoena.DSP
