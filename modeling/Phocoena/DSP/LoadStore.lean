import Phocoena.DSP.Arithmetic

/-! # Load, store and extended instructions of the DSP

The instructions of a family differ in what becomes of an address register after the access.
Extended instructions run beside another one, and leave what they load in the write-back log.
-/

namespace Phocoena.DSP.Interpreter

open State

section
variable {M : Type}

/-! ## Address registers after an access -/

def keepAr (reg : BitVec 2) (s : State M) : BitVec 16 := s.ar reg

/-- The index register of the same number is added. -/
def increaseAr (reg : BitVec 2) (s : State M) : BitVec 16 :=
  s.IncreaseAddressRegister reg (s.ix reg)

/-- `opc & 0x3` -/
def lowAr (opc : BitVec 16) : BitVec 2 := opc.setWidth 2

/-- `(opc >> 5) & 0x3` -/
def midAr (opc : BitVec 16) : BitVec 2 := opc.extractLsb' 5 2

/-- `opc & 0x1f` -/
def lowReg (opc : BitVec 16) : BitVec 5 := opc.setWidth 5

/-! ## Move -/

def nop (_ : BitVec 16) (s : State M) : State M := s

def nx (_ : BitVec 16) (s : State M) : State M := s

/-- `OpWriteRegister(reg, val); ConditionalExtendAccum(reg);` -/
def writeAndExtend (reg : BitVec 5) (val : BitVec 16) (s : State M) : State M :=
  (s.OpWriteRegister reg val).ConditionalExtendAccum reg

def mrr (opc : BitVec 16) (s : State M) : State M :=
  let (val, s) := s.OpReadRegister (lowReg opc)
  writeAndExtend (opc.extractLsb' 5 5) val s

variable (bus : Bus M) in
def lri (opc : BitVec 16) (s : State M) : State M :=
  let (imm, s) := s.FetchInstruction bus
  writeAndExtend (lowReg opc) imm s

/-- `$(0x18+D)` -/
def highReg (opc : BitVec 16) : BitVec 5 := 0x18 + (opc.extractLsb' 8 3).setWidth 5

def lris (opc : BitVec 16) (s : State M) : State M :=
  writeAndExtend (highReg opc) ((opc.setWidth 8).signExtend 16) s

def dar (opc : BitVec 16) (s : State M) : State M :=
  s.setAr (lowAr opc) (s.DecrementAddressRegister (lowAr opc))

def iar (opc : BitVec 16) (s : State M) : State M :=
  s.setAr (lowAr opc) (s.IncrementAddressRegister (lowAr opc))

def subarn (opc : BitVec 16) (s : State M) : State M :=
  s.setAr (lowAr opc) (s.DecreaseAddressRegister (lowAr opc) (s.ix (lowAr opc)))

def addarn (opc : BitVec 16) (s : State M) : State M :=
  s.setAr (lowAr opc) (s.IncreaseAddressRegister (lowAr opc) (s.ix (opc.extractLsb' 2 2)))

/-- The bits 6 to 13 of the status register. -/
def srBit (opc : BitVec 16) : BitVec 16 := 1 <<< ((opc.setWidth 3).toNat + 6)

def sbclr (opc : BitVec 16) (s : State M) : State M := { s with sr := s.sr &&& ~~~srBit opc }

def sbset (opc : BitVec 16) (s : State M) : State M := { s with sr := s.sr ||| srBit opc }

def srbith (opc : BitVec 16) (s : State M) : State M :=
  match (opc.extractLsb' 8 3).toNat with
  | 2 => { s with sr := s.sr &&& ~~~SR_MUL_MODIFY }
  | 3 => { s with sr := s.sr ||| SR_MUL_MODIFY }
  | 4 => { s with sr := s.sr &&& ~~~SR_MUL_UNSIGNED }
  | 5 => { s with sr := s.sr ||| SR_MUL_UNSIGNED }
  | 6 => { s with sr := s.sr &&& ~~~SR_40_MODE_BIT }
  | 7 => { s with sr := s.sr ||| SR_40_MODE_BIT }
  | _ => s

/-! ## Load and store -/

section
variable (bus : Bus M)

/-- `(state.r.cr << 8) | (opc & 0xFF)` -/
def crAddress (opc : BitVec 16) (s : State M) : BitVec 16 :=
  s.cr <<< 8 ||| (opc.setWidth 8).setWidth 16

/-- `state.WriteDMEM(addr, OpReadRegister(reg));` -/
def storeReg (addr : BitVec 16) (reg : BitVec 5) (s : State M) : State M :=
  let (val, s) := s.OpReadRegister reg
  s.WriteDMEM bus addr val

def srsh (opc : BitVec 16) (s : State M) : State M :=
  storeReg bus (crAddress opc s) (0x10 + (bit 8 opc).setWidth 5) s

def srs (opc : BitVec 16) (s : State M) : State M :=
  storeReg bus (crAddress opc s) (0x1c + (opc.extractLsb' 8 2).setWidth 5) s

def lrs (opc : BitVec 16) (s : State M) : State M :=
  let (val, s) := s.ReadDMEM bus (crAddress opc s)
  writeAndExtend (highReg opc) val s

def lr (opc : BitVec 16) (s : State M) : State M :=
  let (addr, s) := s.FetchInstruction bus
  let (val, s) := s.ReadDMEM bus addr
  writeAndExtend (lowReg opc) val s

def sr (opc : BitVec 16) (s : State M) : State M :=
  let (addr, s) := s.FetchInstruction bus
  storeReg bus addr (lowReg opc) s

def si (opc : BitVec 16) (s : State M) : State M :=
  let (imm, s) := s.FetchInstruction bus
  s.WriteDMEM bus ((opc.setWidth 8).signExtend 16) imm

section
variable (after : BitVec 2 → State M → BitVec 16)

def loadFromAr (opc : BitVec 16) (s : State M) : State M :=
  let (val, s) := s.ReadDMEM bus (s.ar (midAr opc))
  let s := writeAndExtend (lowReg opc) val s
  s.setAr (midAr opc) (after (midAr opc) s)

def storeAtAr (opc : BitVec 16) (s : State M) : State M :=
  let s := storeReg bus (s.ar (midAr opc)) (lowReg opc) s
  s.setAr (midAr opc) (after (midAr opc) s)

def loadFromInstructions (opc : BitVec 16) (s : State M) : State M :=
  let s := s.setAccMid (bit 8 opc) (bus.ReadIMEM s.memory (s.ar (lowAr opc)))
  let s := s.ConditionalExtendAccum (0x1e + (bit 8 opc).setWidth 5)
  s.setAr (lowAr opc) (after (lowAr opc) s)

end

def lrr : BitVec 16 → State M → State M := loadFromAr bus keepAr
def lrrd : BitVec 16 → State M → State M := loadFromAr bus DecrementAddressRegister
def lrri : BitVec 16 → State M → State M := loadFromAr bus IncrementAddressRegister
def lrrn : BitVec 16 → State M → State M := loadFromAr bus increaseAr

def srr : BitVec 16 → State M → State M := storeAtAr bus keepAr
def srrd : BitVec 16 → State M → State M := storeAtAr bus DecrementAddressRegister
def srri : BitVec 16 → State M → State M := storeAtAr bus IncrementAddressRegister
def srrn : BitVec 16 → State M → State M := storeAtAr bus increaseAr

def ilrr : BitVec 16 → State M → State M := loadFromInstructions bus keepAr
def ilrrd : BitVec 16 → State M → State M := loadFromInstructions bus DecrementAddressRegister
def ilrri : BitVec 16 → State M → State M := loadFromInstructions bus IncrementAddressRegister
def ilrrn : BitVec 16 → State M → State M := loadFromInstructions bus increaseAr

end

/-! ## Extended instructions -/

def IsSameMemArea (a b : BitVec 16) : Bool := a >>> 10 == b >>> 10

/-- What becomes of an address register is left in the log. -/
def logAr (after : BitVec 2 → State M → BitVec 16) (reg : BitVec 2) (s : State M) : State M :=
  s.WriteToBackLog (reg.setWidth 5) (after reg s)

def nop_ext (_ : BitVec 16) (s : State M) : State M := s

def dr (opc : BitVec 16) (s : State M) : State M := logAr DecrementAddressRegister (lowAr opc) s
def ir (opc : BitVec 16) (s : State M) : State M := logAr IncrementAddressRegister (lowAr opc) s
def nr (opc : BitVec 16) (s : State M) : State M := logAr increaseAr (lowAr opc) s

/-- `$ax0.l`, `$ax1.l`, `$ax0.h`, `$ax1.h` -/
def axReg (reg : BitVec 2) : BitVec 5 := 0x18 + reg.setWidth 5

/-- `$ac0.l`, `$ac1.l`, `$ac0.m`, `$ac1.m` -/
def acReg (reg : BitVec 2) : BitVec 5 := 0x1c + reg.setWidth 5

def mv (opc : BitVec 16) (s : State M) : State M :=
  let (val, s) := s.OpReadRegister (acReg (opc.setWidth 2))
  s.WriteToBackLog (axReg (opc.extractLsb' 2 2)) val

section
variable (bus : Bus M)

section
variable (after : BitVec 2 → State M → BitVec 16)

def storeExt (opc : BitVec 16) (s : State M) : State M :=
  logAr after (lowAr opc)
    (storeReg bus (s.ar (lowAr opc)) (acReg (opc.extractLsb' 3 2)) s)

/-- A load of the middle part fills the accumulator in the 40-bit mode. -/
def loadExt (opc : BitVec 16) (s : State M) : State M :=
  let dreg : BitVec 5 := 0x18 + (opc.extractLsb' 3 3).setWidth 5
  let (val, s) := s.ReadDMEM bus (s.ar (lowAr opc))
  if 0x1e ≤ dreg ∧ s.IsSRFlagSet SR_40_MODE_BIT then
    let s := s.WriteToBackLog (dreg - 0x1e + 0x10) (if val.msb then 0xffff else 0)
    let s := s.WriteToBackLog dreg val
    let s := s.WriteToBackLog (dreg - 0x1e + 0x1c) 0
    logAr after (lowAr opc) s
  else logAr after (lowAr opc) (s.WriteToBackLog dreg val)

end

def s (opc : BitVec 16) : State M → State M := storeExt bus IncrementAddressRegister opc
def sn (opc : BitVec 16) : State M → State M := storeExt bus increaseAr opc

def l (opc : BitVec 16) : State M → State M := loadExt bus IncrementAddressRegister opc
def ln (opc : BitVec 16) : State M → State M := loadExt bus increaseAr opc

section
variable (after3 after0 : BitVec 2 → State M → BitVec 16)

/-- A store of `$acS.m` at one address register and a load of `$axD.D` from another. -/
def storeAndLoad (store load : BitVec 2) (opc : BitVec 16) (s : State M) : State M :=
  let s := storeReg bus (s.ar store) (0x1e + (bit 0 opc).setWidth 5) s
  let (val, s) := s.ReadDMEM bus (s.ar load)
  let s := s.WriteToBackLog (axReg (opc.extractLsb' 4 2)) val
  logAr after0 0 (logAr after3 3 s)

end

def ls : BitVec 16 → State M → State M :=
  storeAndLoad bus IncrementAddressRegister IncrementAddressRegister 3 0
def lsn : BitVec 16 → State M → State M :=
  storeAndLoad bus IncrementAddressRegister increaseAr 3 0
def lsm : BitVec 16 → State M → State M :=
  storeAndLoad bus increaseAr IncrementAddressRegister 3 0
def lsnm : BitVec 16 → State M → State M :=
  storeAndLoad bus increaseAr increaseAr 3 0

def sl : BitVec 16 → State M → State M :=
  storeAndLoad bus IncrementAddressRegister IncrementAddressRegister 0 3
def sln : BitVec 16 → State M → State M :=
  storeAndLoad bus IncrementAddressRegister increaseAr 0 3
def slm : BitVec 16 → State M → State M :=
  storeAndLoad bus increaseAr IncrementAddressRegister 0 3
def slnm : BitVec 16 → State M → State M :=
  storeAndLoad bus increaseAr increaseAr 0 3

section
variable (afterS after3 : BitVec 2 → State M → BitVec 16)

/-- Loads from `$arS` and from `$ar3`, which follows `$arS` in the same part of the memory. -/
def loadTwo (dreg rreg : BitVec 5) (sreg : BitVec 2) (s : State M) : State M :=
  let (val, s) := s.ReadDMEM bus (s.ar sreg)
  let s := s.WriteToBackLog dreg val
  let (val, s) := s.ReadDMEM bus (if IsSameMemArea (s.ar sreg) (s.ar 3) then s.ar sreg else s.ar 3)
  let s := s.WriteToBackLog rreg val
  logAr after3 3 (logAr afterS sreg s)

/-- `$ax0.D` and `$ax1.R` -/
def loadBoth (opc : BitVec 16) (s : State M) : State M :=
  loadTwo bus afterS after3 (axReg ((bit 5 opc).setWidth 2 <<< 1))
    (axReg ((bit 4 opc).setWidth 2 <<< 1 + 1)) (lowAr opc) s

/-- `$axR.h` and `$axR.l` -/
def loadAx (opc : BitVec 16) (s : State M) : State M :=
  loadTwo bus afterS after3 (axReg ((bit 4 opc).setWidth 2 + 2)) (axReg ((bit 4 opc).setWidth 2))
    ((bit 5 opc).setWidth 2) s

end

def ld : BitVec 16 → State M → State M :=
  loadBoth bus IncrementAddressRegister IncrementAddressRegister
def ldn : BitVec 16 → State M → State M := loadBoth bus increaseAr IncrementAddressRegister
def ldm : BitVec 16 → State M → State M := loadBoth bus IncrementAddressRegister increaseAr
def ldnm : BitVec 16 → State M → State M := loadBoth bus increaseAr increaseAr

def ldax : BitVec 16 → State M → State M :=
  loadAx bus IncrementAddressRegister IncrementAddressRegister
def ldaxn : BitVec 16 → State M → State M := loadAx bus increaseAr IncrementAddressRegister
def ldaxm : BitVec 16 → State M → State M := loadAx bus IncrementAddressRegister increaseAr
def ldaxnm : BitVec 16 → State M → State M := loadAx bus increaseAr increaseAr

end

end

end Phocoena.DSP.Interpreter
