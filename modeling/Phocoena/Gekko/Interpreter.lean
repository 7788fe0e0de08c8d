import Phocoena.Gekko.Instruction
import Mathlib.Logic.Function.Basic

/-! # The guest state the integer instructions touch

General purpose registers, the eight condition register fields in their 64-bit
internal format, and the CA, OV and SO bits of XER.
-/

namespace Phocoena.Gekko

/-! ## Condition register fields -/

def crSO : BitVec 4 := 1
def crEQ : BitVec 4 := 2
def crGT : BitVec 4 := 4
def crLT : BitVec 4 := 8

def crEmuSOBit : Nat := 59
def crEmuLTBit : Nat := 62

/-- `ConditionRegister::PPCToInternal`. -/
def ppcToInternal (value : BitVec 4) : BitVec 64 :=
  0x100000000#64 |||
  (BitVec.ofBool (value &&& crSO != 0)).setWidth 64 <<< crEmuSOBit |||
  (BitVec.ofBool (value &&& crEQ == 0)).setWidth 64 |||
  (BitVec.ofBool (value &&& crGT == 0)).setWidth 64 <<< 63 |||
  (BitVec.ofBool (value &&& crLT != 0)).setWidth 64 <<< crEmuLTBit

/-- The comparison bits of a field as `ConditionRegister::GetField` decodes them: SO and LT
are single bits, EQ and GT are read off the value. -/
structure CRField where
  so : Bool
  eq : Bool
  gt : Bool
  lt : Bool
  deriving DecidableEq, Repr

/-- `ConditionRegister::GetField`, with its four result bits named. -/
def getField (crVal : BitVec 64) : CRField where
  so := crVal.getLsbD crEmuSOBit
  eq := crVal &&& 0xFFFFFFFF#64 == 0
  gt := (0#64).slt crVal
  lt := crVal.getLsbD crEmuLTBit

/-! ## The state -/

structure PowerPCState where
  gpr : BitVec 5 → BitVec 32
  cr : BitVec 3 → BitVec 64
  xerCA : Bool
  xerSO : Bool
  xerOV : Bool

namespace PowerPCState

def setGPR (s : PowerPCState) (i : BitVec 5) (value : BitVec 32) : PowerPCState :=
  { s with gpr := Function.update s.gpr i value }

/-- `ConditionRegister::SetField`: `s_crTable` tabulates `PPCToInternal`. -/
def setField (s : PowerPCState) (i : BitVec 3) (value : BitVec 4) : PowerPCState :=
  { s with cr := Function.update s.cr i (ppcToInternal value) }

def setCarry (s : PowerPCState) (ca : Bool) : PowerPCState := { s with xerCA := ca }

/-- `GetCarry`, as the `u32` the callers add. -/
def getCarry (s : PowerPCState) : BitVec 32 := (BitVec.ofBool s.xerCA).setWidth 32

/-- `SetXER_OV`: overwrites OV and, through `SetXER_SO`, accumulates into SO. -/
def setXEROV (s : PowerPCState) (value : Bool) : PowerPCState :=
  { s with xerOV := value, xerSO := s.xerSO || value }

variable (s : PowerPCState) (i j : BitVec 5) (v : BitVec 32) (c : Bool)

@[simp] theorem setGPR_gpr_self : (s.setGPR i v).gpr i = v := by simp [setGPR]
@[simp] theorem setGPR_gpr_of_ne (h : j ≠ i) : (s.setGPR i v).gpr j = s.gpr j := by
  simp [setGPR, h]
@[simp] theorem setGPR_gpr : s.setGPR i (s.gpr i) = s := by simp [setGPR]
@[simp] theorem setGPR_cr : (s.setGPR i v).cr = s.cr := rfl
@[simp] theorem setGPR_xerCA : (s.setGPR i v).xerCA = s.xerCA := rfl
@[simp] theorem setGPR_xerSO : (s.setGPR i v).xerSO = s.xerSO := rfl
@[simp] theorem setGPR_xerOV : (s.setGPR i v).xerOV = s.xerOV := rfl

@[simp] theorem setCarry_gpr : (s.setCarry c).gpr = s.gpr := rfl
@[simp] theorem setCarry_cr : (s.setCarry c).cr = s.cr := rfl
@[simp] theorem setCarry_xerCA : (s.setCarry c).xerCA = c := rfl
@[simp] theorem setCarry_xerSO : (s.setCarry c).xerSO = s.xerSO := rfl
@[simp] theorem setCarry_xerOV : (s.setCarry c).xerOV = s.xerOV := rfl

@[simp] theorem setXEROV_gpr : (s.setXEROV c).gpr = s.gpr := rfl
@[simp] theorem setXEROV_cr : (s.setXEROV c).cr = s.cr := rfl
@[simp] theorem setXEROV_xerCA : (s.setXEROV c).xerCA = s.xerCA := rfl
@[simp] theorem setXEROV_xerSO : (s.setXEROV c).xerSO = (s.xerSO || c) := rfl
@[simp] theorem setXEROV_xerOV : (s.setXEROV c).xerOV = c := rfl

end PowerPCState

end Phocoena.Gekko

/-! ## The integer interpreter

`Interpreter_Integer.cpp`, one definition per handler, and the rows of the
interpreter's opcode tables that dispatch to them. The trap instructions are of
type `System` in the opcode tables and are left out.
-/

namespace Phocoena.Gekko.Interpreter

open PowerPCState

/-- The value `Helper_UpdateCR0` stores: the sign-extended result, kept out of GT when it is
zero, with the summary overflow bit inserted. -/
def cr0Value (so : Bool) (value : BitVec 32) : BitVec 64 :=
  let signExtended := value.signExtend 64
  let crVal := if value = 0 then signExtended ||| 1#64 <<< 63 else signExtended
  (crVal &&& ~~~(1#64 <<< crEmuSOBit)) ||| (BitVec.ofBool so).setWidth 64 <<< crEmuSOBit

def helperUpdateCR0 (s : PowerPCState) (value : BitVec 32) : PowerPCState :=
  { s with cr := Function.update s.cr 0 (cr0Value s.xerSO value) }

section

variable (s : PowerPCState) (value : BitVec 32)

@[simp] theorem helperUpdateCR0_gpr : (helperUpdateCR0 s value).gpr = s.gpr := rfl
@[simp] theorem helperUpdateCR0_xerCA : (helperUpdateCR0 s value).xerCA = s.xerCA := rfl
@[simp] theorem helperUpdateCR0_xerSO : (helperUpdateCR0 s value).xerSO = s.xerSO := rfl
@[simp] theorem helperUpdateCR0_xerOV : (helperUpdateCR0 s value).xerOV = s.xerOV := rfl
@[simp] theorem helperUpdateCR0_cr_zero :
    (helperUpdateCR0 s value).cr 0#3 = cr0Value s.xerSO value := by simp [helperUpdateCR0]
@[simp] theorem helperUpdateCR0_cr_of_ne {i : BitVec 3} (h : i ≠ 0#3) :
    (helperUpdateCR0 s value).cr i = s.cr i := Function.update_of_ne h _ _

end

def helperCarry (value1 value2 : BitVec 32) : Bool := ~~~value1 < value2

/-- `if (inst.Rc) Helper_UpdateCR0(...)`. -/
def updateRc (inst : UGeckoInstruction) (s : PowerPCState) (value : BitVec 32) : PowerPCState :=
  if inst.rc then helperUpdateCR0 s value else s

/-- `if (inst.OE) SetXER_OV(...)`. -/
def updateOE (inst : UGeckoInstruction) (s : PowerPCState) (overflow : Bool) : PowerPCState :=
  if inst.oe then s.setXEROV overflow else s

@[simp] theorem updateOE_gpr (inst : UGeckoInstruction) (s : PowerPCState) (overflow : Bool) :
    (updateOE inst s overflow).gpr = s.gpr := by
  unfold updateOE
  split <;> rfl

abbrev Instruction := UGeckoInstruction → PowerPCState → PowerPCState

/-! ## Immediate forms -/

def addi : Instruction := fun inst s =>
  if inst.ra ≠ 0 then s.setGPR inst.rd (s.gpr inst.ra + inst.simm) else s.setGPR inst.rd inst.simm

def addic : Instruction := fun inst s =>
  let a := s.gpr inst.ra
  let imm := inst.simm
  (s.setGPR inst.rd (a + imm)).setCarry (helperCarry a imm)

def addicRc : Instruction := fun inst s =>
  let s := addic inst s
  helperUpdateCR0 s (s.gpr inst.rd)

def addis : Instruction := fun inst s =>
  if inst.ra ≠ 0 then s.setGPR inst.rd (s.gpr inst.ra + inst.simm <<< 16)
  else s.setGPR inst.rd (inst.simm <<< 16)

def andiRc : Instruction := fun inst s =>
  let s := s.setGPR inst.ra (s.gpr inst.rs &&& inst.uimm32)
  helperUpdateCR0 s (s.gpr inst.ra)

def andisRc : Instruction := fun inst s =>
  let s := s.setGPR inst.ra (s.gpr inst.rs &&& inst.uimm32 <<< 16)
  helperUpdateCR0 s (s.gpr inst.ra)

/-- `Helper_IntCompare`, given the outcomes of `a < b` and `a > b` at the operand type. -/
def helperIntCompare (s : PowerPCState) (inst : UGeckoInstruction) (lt gt : Bool) :
    PowerPCState :=
  let crField := if lt then crLT else if gt then crGT else crEQ
  let crField := if s.xerSO then crField ||| crSO else crField
  s.setField inst.crfd crField

def cmpi : Instruction := fun inst s =>
  let a := s.gpr inst.ra
  let b := inst.simm
  helperIntCompare s inst (a.slt b) (b.slt a)

def cmpli : Instruction := fun inst s =>
  let a := s.gpr inst.ra
  let b := inst.uimm32
  helperIntCompare s inst (a.ult b) (b.ult a)

def mulli : Instruction := fun inst s => s.setGPR inst.rd (s.gpr inst.ra * inst.simm)

def ori : Instruction := fun inst s => s.setGPR inst.ra (s.gpr inst.rs ||| inst.uimm32)

def oris : Instruction := fun inst s => s.setGPR inst.ra (s.gpr inst.rs ||| inst.uimm32 <<< 16)

def subfic : Instruction := fun inst s =>
  let a := s.gpr inst.ra
  let immediate := inst.simm
  (s.setGPR inst.rd (immediate - a)).setCarry (a == 0 || helperCarry (0 - a) immediate)

def xori : Instruction := fun inst s => s.setGPR inst.ra (s.gpr inst.rs ^^^ inst.uimm32)

def xoris : Instruction := fun inst s => s.setGPR inst.ra (s.gpr inst.rs ^^^ inst.uimm32 <<< 16)

/-! ## Rotates -/

def rlwimix : Instruction := fun inst s =>
  let mask := makeRotationMask inst.mb inst.me
  let s := s.setGPR inst.ra
    ((s.gpr inst.ra &&& ~~~mask) ||| ((s.gpr inst.rs).rotateLeft inst.sh.toNat &&& mask))
  updateRc inst s (s.gpr inst.ra)

def rlwinmx : Instruction := fun inst s =>
  let mask := makeRotationMask inst.mb inst.me
  let s := s.setGPR inst.ra ((s.gpr inst.rs).rotateLeft inst.sh.toNat &&& mask)
  updateRc inst s (s.gpr inst.ra)

def rlwnmx : Instruction := fun inst s =>
  let mask := makeRotationMask inst.mb inst.me
  let s := s.setGPR inst.ra
    ((s.gpr inst.rs).rotateLeft (s.gpr inst.rb &&& 0x1F).toNat &&& mask)
  updateRc inst s (s.gpr inst.ra)

/-! ## Logical operations, shifts and extensions -/

/-- The shape the logical handlers of table 31 share: `rA` receives `op rS rB`. -/
def logical (op : BitVec 32 → BitVec 32 → BitVec 32) : Instruction := fun inst s =>
  let s := s.setGPR inst.ra (op (s.gpr inst.rs) (s.gpr inst.rb))
  updateRc inst s (s.gpr inst.ra)

def andx : Instruction := logical fun s b => s &&& b
def andcx : Instruction := logical fun s b => s &&& ~~~b
def eqvx : Instruction := logical fun s b => ~~~(s ^^^ b)
def nandx : Instruction := logical fun s b => ~~~(s &&& b)
def norx : Instruction := logical fun s b => ~~~(s ||| b)
def orx : Instruction := logical fun s b => s ||| b
def orcx : Instruction := logical fun s b => s ||| ~~~b
def xorx : Instruction := logical fun s b => s ^^^ b

def slwx : Instruction := logical fun s amount =>
  if amount &&& 0x20 ≠ 0 then 0 else s <<< (amount &&& 0x1f).toNat

def srwx : Instruction := logical fun s amount =>
  if amount &&& 0x20 ≠ 0 then 0 else s >>> (amount &&& 0x1f).toNat

def cmp : Instruction := fun inst s =>
  let a := s.gpr inst.ra
  let b := s.gpr inst.rb
  helperIntCompare s inst (a.slt b) (b.slt a)

def cmpl : Instruction := fun inst s =>
  let a := s.gpr inst.ra
  let b := s.gpr inst.rb
  helperIntCompare s inst (a.ult b) (b.ult a)

/-- The shape of the one-operand handlers: `rA` receives `op rS`. -/
def unary (op : BitVec 32 → BitVec 32) : Instruction := fun inst s =>
  let s := s.setGPR inst.ra (op (s.gpr inst.rs))
  updateRc inst s (s.gpr inst.ra)

def cntlzwx : Instruction := unary fun s => s.clz
def extsbx : Instruction := unary fun s => (s.setWidth 8).signExtend 32
def extshx : Instruction := unary fun s => (s.setWidth 16).signExtend 32

/-- The carry of an arithmetic right shift by `amount < 32`: a negative operand lost a one. -/
def shiftCarry (rrs : BitVec 32) (amount : Nat) : Bool :=
  rrs.msb && decide (0 < amount) && rrs <<< (32 - amount) != 0

def srawx : Instruction := fun inst s =>
  let rb := s.gpr inst.rb
  let rs := s.gpr inst.rs
  let s :=
    if rb &&& 0x20 ≠ 0 then
      if rs &&& 0x80000000 ≠ 0 then (s.setGPR inst.ra 0xFFFFFFFF).setCarry true
      else (s.setGPR inst.ra 0).setCarry false
    else
      let amount := (rb &&& 0x1f).toNat
      (s.setGPR inst.ra (rs.sshiftRight amount)).setCarry (shiftCarry rs amount)
  updateRc inst s (s.gpr inst.ra)

def srawix : Instruction := fun inst s =>
  let amount := inst.sh.toNat
  let rrs := s.gpr inst.rs
  let s := (s.setGPR inst.ra (rrs.sshiftRight amount)).setCarry (shiftCarry rrs amount)
  updateRc inst s (s.gpr inst.ra)

/-! ## Arithmetic -/

def hasAddOverflowed (x y result : BitVec 32) : Bool :=
  ((x ^^^ result) &&& (y ^^^ result)) >>> 31 != 0

def addx : Instruction := fun inst s =>
  let a := s.gpr inst.ra
  let b := s.gpr inst.rb
  let result := a + b
  let s := updateOE inst (s.setGPR inst.rd result) (hasAddOverflowed a b result)
  updateRc inst s result

/-- The tail the carrying additions and subtractions share: `rD`, CA, OV and CR0 from the two
addends, the sum and its carry. -/
def carrying (inst : UGeckoInstruction) (s : PowerPCState) (x y result : BitVec 32)
    (carry : Bool) : PowerPCState :=
  let s := (s.setGPR inst.rd result).setCarry carry
  let s := updateOE inst s (hasAddOverflowed x y result)
  updateRc inst s result

def addcx : Instruction := fun inst s =>
  let a := s.gpr inst.ra
  let b := s.gpr inst.rb
  carrying inst s a b (a + b) (helperCarry a b)

def addex : Instruction := fun inst s =>
  let carry := s.getCarry
  let a := s.gpr inst.ra
  let b := s.gpr inst.rb
  carrying inst s a b (a + b + carry)
    (helperCarry a b || (carry != 0 && helperCarry (a + b) carry))

def addmex : Instruction := fun inst s =>
  let carry := s.getCarry
  let a := s.gpr inst.ra
  let b := 0xFFFFFFFF#32
  carrying inst s a b (a + b + carry) (helperCarry a (carry - 1))

def addzex : Instruction := fun inst s =>
  let carry := s.getCarry
  let a := s.gpr inst.ra
  carrying inst s a 0 (a + carry) (helperCarry a carry)

/-- The quotient `divwx` stores, overflow cases included. -/
def divwQuotient (a b : BitVec 32) : BitVec 32 :=
  if b = 0 ∨ (a = 0x80000000 ∧ b = 0xFFFFFFFF) then
    if a.msb then 0xFFFFFFFF else 0
  else a.sdiv b

def divwx : Instruction := fun inst s =>
  let a := s.gpr inst.ra
  let b := s.gpr inst.rb
  let overflow : Bool := b = 0 ∨ (a = 0x80000000 ∧ b = 0xFFFFFFFF)
  let s := updateOE inst (s.setGPR inst.rd (divwQuotient a b)) overflow
  updateRc inst s (s.gpr inst.rd)

/-- The quotient `divwux` stores, division by zero included. -/
def divwuQuotient (a b : BitVec 32) : BitVec 32 := if b = 0 then 0 else a / b

def divwux : Instruction := fun inst s =>
  let a := s.gpr inst.ra
  let b := s.gpr inst.rb
  let overflow : Bool := b = 0
  let s := updateOE inst (s.setGPR inst.rd (divwuQuotient a b)) overflow
  updateRc inst s (s.gpr inst.rd)

def mulhwx : Instruction := fun inst s =>
  let a := (s.gpr inst.ra).signExtend 64
  let b := (s.gpr inst.rb).signExtend 64
  let d := ((a * b).sshiftRight 32).setWidth 32
  updateRc inst (s.setGPR inst.rd d) d

def mulhwux : Instruction := fun inst s =>
  let a := (s.gpr inst.ra).setWidth 64
  let b := (s.gpr inst.rb).setWidth 64
  let d := ((a * b) >>> 32).setWidth 32
  updateRc inst (s.setGPR inst.rd d) d

def mullwx : Instruction := fun inst s =>
  let a := (s.gpr inst.ra).signExtend 64
  let b := (s.gpr inst.rb).signExtend 64
  let result := a * b
  let overflow := result.slt (-0x80000000#64) || (0x7FFFFFFF#64).slt result
  let s := updateOE inst (s.setGPR inst.rd (result.setWidth 32)) overflow
  updateRc inst s (s.gpr inst.rd)

def negx : Instruction := fun inst s =>
  let a := s.gpr inst.ra
  let s := updateOE inst (s.setGPR inst.rd (~~~a + 1)) (a == 0x80000000)
  updateRc inst s (s.gpr inst.rd)

def subfx : Instruction := fun inst s =>
  let a := ~~~s.gpr inst.ra
  let b := s.gpr inst.rb
  let result := a + b + 1
  let s := updateOE inst (s.setGPR inst.rd result) (hasAddOverflowed a b result)
  updateRc inst s result

def subfcx : Instruction := fun inst s =>
  let a := ~~~s.gpr inst.ra
  let b := s.gpr inst.rb
  carrying inst s a b (a + b + 1) (a == 0xFFFFFFFF || helperCarry b (a + 1))

def subfex : Instruction := fun inst s =>
  let a := ~~~s.gpr inst.ra
  let b := s.gpr inst.rb
  let carry := s.getCarry
  carrying inst s a b (a + b + carry) (helperCarry a b || helperCarry (a + b) carry)

/-- Subtract from minus one. -/
def subfmex : Instruction := fun inst s =>
  let a := ~~~s.gpr inst.ra
  let b := 0xFFFFFFFF#32
  let carry := s.getCarry
  carrying inst s a b (a + b + carry) (helperCarry a (carry - 1))

/-- Subtract from zero. -/
def subfzex : Instruction := fun inst s =>
  let a := ~~~s.gpr inst.ra
  let carry := s.getCarry
  carrying inst s a 0 (a + carry) (helperCarry a carry)

/-! ## Dispatch -/

/-- The integer rows of the interpreter's `s_primary_table`. -/
def primaryTable : List (BitVec 6 × Instruction) :=
  [(7, mulli), (8, subfic), (10, cmpli), (11, cmpi), (12, addic), (13, addicRc), (14, addi),
   (15, addis), (20, rlwimix), (21, rlwinmx), (23, rlwnmx), (24, ori), (25, oris), (26, xori),
   (27, xoris), (28, andiRc), (29, andisRc)]

/-- The integer rows of the interpreter's `s_table31`. -/
def table31 : List (BitVec 10 × Instruction) :=
  [(266, addx), (778, addx), (10, addcx), (522, addcx), (138, addex), (650, addex),
   (234, addmex), (746, addmex), (202, addzex), (714, addzex), (491, divwx), (1003, divwx),
   (459, divwux), (971, divwux), (75, mulhwx), (11, mulhwux), (235, mullwx), (747, mullwx),
   (104, negx), (616, negx), (40, subfx), (552, subfx), (8, subfcx), (520, subfcx),
   (136, subfex), (648, subfex), (232, subfmex), (744, subfmex), (200, subfzex), (712, subfzex),
   (28, andx), (60, andcx), (444, orx), (124, norx), (316, xorx), (412, orcx), (476, nandx),
   (284, eqvx), (0, cmp), (32, cmpl), (26, cntlzwx), (922, extshx), (954, extsbx), (536, srwx),
   (792, srawx), (824, srawix), (24, slwx)]

/-- The handler the interpreter runs for an integer instruction word. -/
def getInterpreterOp (inst : UGeckoInstruction) : Option Instruction :=
  if inst.opcd = 31 then table31.lookup inst.subop10 else primaryTable.lookup inst.opcd

/-- One interpreted integer instruction; words that are no integer instruction are not run. -/
def execute (inst : UGeckoInstruction) (s : PowerPCState) : PowerPCState :=
  match getInterpreterOp inst with
  | some fn => fn inst s
  | none => s

end Phocoena.Gekko.Interpreter
