import Phocoena.DSP.Tables
import Phocoena.Lib.Runs

/-! # Accumulators and flags of the DSP

An accumulator is kept in 64 bits as the sign extension of 40. Every instruction and every
extension keeps it so. The tests of a result and of the operands of a sum then pass, unless they
are made on a product, or on a rounding, outside the 40 bits; and the flags of a sum are those
of the exact operation.
-/

namespace Phocoena.DSP

open State Interpreter

variable {M : Type}

/-! ## Values of 40 bits -/

theorem isProperlySignExtended_iff (val : Int) :
    IsProperlySignExtended val = true ↔ Fits (2 ^ 39) val := by
  simp only [IsProperlySignExtended, decide_eq_true_eq, Fits]
  omega

theorem fits_convert (val : Int) : Fits (2 ^ 39) (dsp_convert_long_acc val) :=
  fits_wrap (by omega) val

theorem convert_emod (val : Int) : dsp_convert_long_acc val % 2 ^ 40 = val % 2 ^ 40 := by
  rw [show (2 : Int) ^ 40 = 2 * 2 ^ 39 by decide]
  exact wrap_emod val

/-- A signed number at M level. -/
theorem fits_toInt_mid {n : Nat} (x : BitVec n) (small : n ≤ 16) :
    Fits (2 ^ 39) (x.toInt * 2 ^ 16) := by
  have lower := BitVec.le_two_mul_toInt (x := x)
  have upper := BitVec.two_mul_toInt_lt (x := x)
  have bound : (2 : Int) ^ n ≤ 2 ^ 16 := by exact_mod_cast Nat.pow_le_pow_right (by omega) small
  unfold Fits
  omega

/-- Both accumulators are sign-extended 40-bit values. -/
def State.Extended (s : State M) : Prop := ∀ reg, Fits (2 ^ 39) (s.ac reg)

section
variable {s : State M} (ext : s.Extended)
include ext

theorem State.Extended.update (reg : BitVec 1) {value : Int} (fits : Fits (2 ^ 39) value)
    (r : BitVec 1) : Fits (2 ^ 39) (Function.update s.ac reg value r) := by
  by_cases same : r = reg
  · rw [same, Function.update_self]
    exact fits
  · rw [Function.update_of_ne same]
    exact ext r

theorem State.Extended.setLongAcc (reg : BitVec 1) (value : Int) :
    (s.SetLongAcc reg value).Extended :=
  ext.update reg (fits_convert value)

theorem State.Extended.setAccLow (reg : BitVec 1) (value : BitVec 16) :
    (s.setAccLow reg value).Extended := by
  refine ext.update reg ?_
  have fits := ext reg
  have small := value.isLt
  unfold Fits at *
  omega

theorem State.Extended.setAccMid (reg : BitVec 1) (value : BitVec 16) :
    (s.setAccMid reg value).Extended := by
  refine ext.update reg ?_
  have fits := ext reg
  have small := value.isLt
  unfold Fits at *
  omega

theorem State.Extended.setAccHigh (reg : BitVec 1) {value : Int} (fits : Fits (2 ^ 7) value) :
    (s.setAccHigh reg value).Extended := by
  refine ext.update reg ?_
  unfold Fits at *
  omega

theorem State.Extended.opWriteRegister (reg : BitVec 5) (val : BitVec 16) :
    (s.OpWriteRegister reg val).Extended := by
  unfold OpWriteRegister
  split
  any_goals exact ext
  · have lower := BitVec.le_two_mul_toInt (x := val.setWidth 8)
    have upper := BitVec.two_mul_toInt_lt (x := val.setWidth 8)
    exact ext.setAccHigh _ ⟨by omega, by omega⟩
  · have lower := BitVec.le_two_mul_toInt (x := val.setWidth 8)
    have upper := BitVec.two_mul_toInt_lt (x := val.setWidth 8)
    exact ext.setAccHigh _ ⟨by omega, by omega⟩
  any_goals exact ext.setAccLow _ _
  exact ext.setAccMid _ _

theorem State.Extended.conditionalExtendAccum (reg : BitVec 5) :
    (s.ConditionalExtendAccum reg).Extended := by
  unfold ConditionalExtendAccum
  split
  · refine State.Extended.setAccLow (ext.setAccHigh _ ?_) _ _
    split <;> decide
  · exact ext

theorem State.Extended.applyWriteBackLog : s.ApplyWriteBackLog.Extended := by
  suffices ∀ (log : List (BitVec 5 × BitVec 16)) (s : State M), s.Extended →
      (log.foldl (fun s entry => s.OpWriteRegister entry.1 entry.2) s).Extended from
    this s.write_back_log s ext
  intro log
  induction log with
  | nil => exact fun _ ext => ext
  | cons entry log ih => exact fun _ ext => ih _ (ext.opWriteRegister _ _)

end

/-! ## Instructions -/

/-- What an instruction keeps, from `s` to `s'`: the assertions hold under a condition. -/
structure Keeps (ok : Prop) (s s' : State M) : Prop where
  extended : s.Extended → s'.Extended
  asserts : s.Extended → ok → s.asserts = true → s'.asserts = true
  log : s'.write_back_log = s.write_back_log

section
variable {ok : Prop} {s s' s'' : State M}

theorem Keeps.trans (first : Keeps True s s') (second : Keeps ok s' s'') : Keeps ok s s'' where
  extended ext := second.extended (first.extended ext)
  asserts ext meets held :=
    second.asserts (first.extended ext) meets (first.asserts ext trivial held)
  log := second.log.trans first.log

/-- An instruction without a test. -/
theorem Keeps.of_untested (extended : s.Extended → s'.Extended) (asserts : s'.asserts = s.asserts)
    (log : s'.write_back_log = s.write_back_log) : Keeps ok s s' :=
  ⟨extended, fun _ _ held => asserts.trans held, log⟩

/-- An instruction that leaves the accumulators alone. -/
theorem Keeps.of_same (ac : s'.ac = s.ac) (asserts : s'.asserts = s.asserts)
    (log : s'.write_back_log = s.write_back_log) : Keeps ok s s' :=
  .of_untested (fun ext reg => ac ▸ ext reg) asserts log

theorem keeps_updateSR64 {value : Int} (fits : s.Extended → ok → Fits (2 ^ 39) value)
    (carry overflow : Bool) : Keeps ok s (s.UpdateSR64 value carry overflow) where
  extended := id
  asserts ext meets held := by
    simpa [UpdateSR64, setFlags, held] using
      (isProperlySignExtended_iff value).mpr (fits ext meets)
  log := rfl

theorem keeps_setLongAcc (reg : BitVec 1) (value : Int) : Keeps ok s (s.SetLongAcc reg value) :=
  .of_untested (fun ext => ext.setLongAcc reg value) rfl rfl

theorem keeps_setAndTestValue (reg : BitVec 1) {value : Int}
    (fits : s.Extended → ok → Fits (2 ^ 39) value) : Keeps ok s (setAndTestValue reg value s) where
  extended ext := ext.setLongAcc reg value
  asserts ext meets held := by
    simpa [setAndTestValue, SetLongAcc, UpdateSR64, setFlags, held] using
      (isProperlySignExtended_iff value).mpr (fits ext meets)
  log := rfl

theorem keeps_setAndTest (reg : BitVec 1) (value : Int) : Keeps ok s (setAndTest reg value s) :=
  (keeps_setLongAcc reg value).trans (keeps_updateSR64 (fun ext _ => ext reg) _ _)

theorem keeps_setMidAndTest (reg : BitVec 1) (accm : BitVec 16) :
    Keeps ok s (setMidAndTest reg accm s) :=
  .of_untested (fun ext => ext.setAccMid reg accm) rfl rfl

theorem keeps_multiplyAndSet (reg : BitVec 1) (acc prod : Int) :
    Keeps ok s (multiplyAndSet reg acc prod s) := by
  have first : Keeps True s (s.SetLongProduct prod) := .of_same rfl rfl rfl
  exact first.trans (keeps_setAndTest reg acc)

theorem keeps_opReadRegister (reg : BitVec 5) : Keeps ok s (s.OpReadRegister reg).2 := by
  unfold OpReadRegister
  split <;> exact .of_same rfl rfl rfl

theorem keeps_opWriteRegister (reg : BitVec 5) (val : BitVec 16) :
    Keeps ok s (s.OpWriteRegister reg val) := by
  refine .of_untested (fun ext => ext.opWriteRegister reg val) ?_ ?_
  all_goals
    unfold OpWriteRegister
    split <;> rfl

theorem keeps_conditionalExtendAccum (reg : BitVec 5) :
    Keeps ok s (s.ConditionalExtendAccum reg) := by
  refine .of_untested (fun ext => ext.conditionalExtendAccum reg) ?_ ?_
  all_goals
    unfold ConditionalExtendAccum
    split <;> rfl

theorem keeps_writeAndExtend (reg : BitVec 5) (val : BitVec 16) :
    Keeps ok s (writeAndExtend reg val s) :=
  (keeps_opWriteRegister reg val).trans (keeps_conditionalExtendAccum reg)

end

section
variable {ok : Prop} (bus : Bus M) (s : State M)

theorem keeps_fetchInstruction : Keeps ok s (s.FetchInstruction bus).2 := .of_same rfl rfl rfl

theorem keeps_readDMEM (address : BitVec 16) : Keeps ok s (s.ReadDMEM bus address).2 :=
  .of_same rfl rfl rfl

theorem keeps_setAr (reg : BitVec 2) (value : BitVec 16) : Keeps ok s (s.setAr reg value) :=
  .of_same rfl rfl rfl

theorem keeps_storeReg (addr : BitVec 16) (reg : BitVec 5) : Keeps ok s (storeReg bus addr reg s) :=
  (keeps_opReadRegister reg).trans (.of_same rfl rfl rfl)

variable (after : BitVec 2 → State M → BitVec 16) (opc : BitVec 16)

theorem keeps_loadFromAr : Keeps ok s (loadFromAr bus after opc s) :=
  (keeps_readDMEM bus s (s.ar (midAr opc))).trans
    ((keeps_writeAndExtend (lowReg opc) _).trans (keeps_setAr _ _ _))

theorem keeps_storeAtAr : Keeps ok s (storeAtAr bus after opc s) :=
  (keeps_storeReg bus s _ _).trans (keeps_setAr _ _ _)

theorem keeps_loadFromInstructions : Keeps ok s (loadFromInstructions bus after opc s) := by
  have first : Keeps True s
      (s.setAccMid (bit 8 opc) (bus.ReadIMEM s.memory (s.ar (lowAr opc)))) :=
    .of_untested (fun ext => ext.setAccMid _ _) rfl rfl
  exact first.trans ((keeps_conditionalExtendAccum _).trans (keeps_setAr _ _ _))

end

/-! ## Sums -/

/-- An exact operation on 40-bit operands. -/
inductive Sum where
  | add (a b : Int)
  | sub (a b : Int)

namespace Sum

def exact : Sum → Int
  | add a b => a + b
  | sub a b => a - b

/-- The 40-bit result. -/
def result (sum : Sum) : Int := wrap (2 ^ 39) sum.exact

/-- The carry of a subtraction is the carry of the complement's addition. -/
def Carry : Sum → Prop
  | add a b => Carries (2 ^ 39) a b
  | sub a b => ¬ Borrows (2 ^ 39) a b

def Overflow (sum : Sum) : Prop := ¬ Fits (2 ^ 39) sum.exact

def Operands : Sum → Prop
  | add a b | sub a b => Fits (2 ^ 39) a ∧ Fits (2 ^ 39) b

/-- What the interpreter makes of the flags. -/
def update : Sum → State M → State M
  | add a b, s => s.UpdateSR64Add a b (dsp_convert_long_acc (a + b))
  | sub a b, s => s.UpdateSR64Sub a b (dsp_convert_long_acc (a - b))

end Sum

/-- The operation of an instruction that adds, subtracts or compares. -/
def Op.sum (bus : Bus M) : Op → BitVec 16 → State M → Option Sum
  | addr, opc, s => some (.add (s.ac (bit 8 opc)) (axOperand opc s))
  | addax, opc, s => some (.add (s.ac (bit 8 opc)) (s.GetLongACX (bit 9 opc)))
  | add, opc, s => some (.add (s.ac (bit 8 opc)) (s.ac (1 - bit 8 opc)))
  | addp, opc, s => some (.add (s.ac (bit 8 opc)) s.GetLongProduct)
  | addaxl, opc, s => some (.add (s.ac (bit 8 opc)) (s.axl (bit 9 opc)).toNat)
  | addi, opc, s => some (.add (s.ac (bit 8 opc)) ((bus.ReadIMEM s.memory s.pc).toInt * 2 ^ 16))
  | addis, opc, s => some (.add (s.ac (bit 8 opc)) (shortImmediate opc))
  | incm, opc, s => some (.add (s.ac (bit 8 opc)) 0x10000)
  | inc, opc, s => some (.add (s.ac (bit 8 opc)) 1)
  | subr, opc, s => some (.sub (s.ac (bit 8 opc)) (axOperand opc s))
  | subax, opc, s => some (.sub (s.ac (bit 8 opc)) (s.GetLongACX (bit 9 opc)))
  | sub, opc, s => some (.sub (s.ac (bit 8 opc)) (s.ac (1 - bit 8 opc)))
  | subp, opc, s => some (.sub (s.ac (bit 8 opc)) s.GetLongProduct)
  | decm, opc, s => some (.sub (s.ac (bit 8 opc)) 0x10000)
  | dec, opc, s => some (.sub (s.ac (bit 8 opc)) 1)
  | neg, opc, s => some (.sub 0 (s.ac (bit 8 opc)))
  | cmp, _, s => some (.sub (s.ac 0) (s.ac 1))
  | cmpaxh, opc, s => some (.sub (s.ac (bit 11 opc)) ((s.axh (bit 12 opc)).toInt * 2 ^ 16))
  | cmpi, opc, s => some (.sub (s.ac (bit 8 opc)) ((bus.ReadIMEM s.memory s.pc).toInt * 2 ^ 16))
  | cmpis, opc, s => some (.sub (s.ac (bit 8 opc)) (shortImmediate opc))
  | _, _, _ => none

/-- The product, or the rounding, that an instruction tests or adds is a 40-bit value. -/
def Op.InRange : Op → BitVec 16 → State M → Prop
  | clrl, opc, s => Fits (2 ^ 39) (dsp_round_long_acc (s.ac (bit 8 opc)))
  | tstprod, _, s | movp, _, s | addp, _, s | subp, _, s => Fits (2 ^ 39) s.GetLongProduct
  | movnp, _, s => Fits (2 ^ 39) (-s.GetLongProduct)
  | movpz, _, s => Fits (2 ^ 39) s.GetLongProductRounded
  | _, _, _ => True

section
variable {s : State M}

theorem fits_axOperand (opc : BitVec 16) (s : State M) : Fits (2 ^ 39) (axOperand opc s) := by
  unfold axOperand
  exact fits_toInt_mid _ (le_refl 16)

theorem fits_shortImmediate (opc : BitVec 16) : Fits (2 ^ 39) (shortImmediate opc) :=
  fits_toInt_mid _ (by omega)

theorem fits_getLongACX (reg : BitVec 1) (s : State M) : Fits (2 ^ 39) (s.GetLongACX reg) := by
  have lower := BitVec.le_two_mul_toInt (x := s.axh reg)
  have upper := BitVec.two_mul_toInt_lt (x := s.axh reg)
  have small := (s.axl reg).isLt
  unfold Fits GetLongACX
  omega

theorem Op.sum_operands {bus : Bus M} {op : Op} {opc : BitVec 16} {sum : Sum} (ext : s.Extended)
    (meets : op.InRange opc s) (summed : op.sum bus opc s = some sum) : sum.Operands := by
  cases op <;> cases summed
  case addr => exact ⟨ext _, fits_axOperand opc s⟩
  case addax => exact ⟨ext _, fits_getLongACX _ s⟩
  case add => exact ⟨ext _, ext _⟩
  case addp => exact ⟨ext _, meets⟩
  case addaxl =>
    have small := (s.axl (bit 9 opc)).isLt
    exact ⟨ext _, by omega, by omega⟩
  case addi => exact ⟨ext _, fits_toInt_mid _ (le_refl 16)⟩
  case addis => exact ⟨ext _, fits_shortImmediate opc⟩
  case incm => exact ⟨ext _, by decide⟩
  case inc => exact ⟨ext _, by decide⟩
  case subr => exact ⟨ext _, fits_axOperand opc s⟩
  case subax => exact ⟨ext _, fits_getLongACX _ s⟩
  case sub => exact ⟨ext _, ext _⟩
  case subp => exact ⟨ext _, meets⟩
  case decm => exact ⟨ext _, by decide⟩
  case dec => exact ⟨ext _, by decide⟩
  case neg => exact ⟨by decide, ext _⟩
  case cmp => exact ⟨ext _, ext _⟩
  case cmpaxh => exact ⟨ext _, fits_toInt_mid _ (le_refl 16)⟩
  case cmpi => exact ⟨ext _, fits_toInt_mid _ (le_refl 16)⟩
  case cmpis => exact ⟨ext _, fits_shortImmediate opc⟩

theorem addAndTest_sr (reg : BitVec 1) (a b : Int) :
    (addAndTest reg a b s).sr = ((Sum.add a b).update s).sr := by
  simp [addAndTest, Sum.update, UpdateSR64Add, UpdateSR64, setFlags, SetLongAcc, GetLongAcc]

theorem subAndTest_sr (reg : BitVec 1) (a b : Int) :
    (subAndTest reg a b s).sr = ((Sum.sub a b).update s).sr := by
  simp [subAndTest, Sum.update, UpdateSR64Sub, UpdateSR64, setFlags, SetLongAcc, GetLongAcc]

theorem Op.run_sr {bus : Bus M} {op : Op} {opc : BitVec 16} {sum : Sum}
    (summed : op.sum bus opc s = some sum) : (op.run bus opc s).sr = (sum.update s).sr := by
  cases op <;> cases summed
  case cmp | cmpaxh | cmpi | cmpis => rfl
  case addr | addax | add | addp | addaxl | addi | addis | incm | inc => exact addAndTest_sr _ _ _
  all_goals exact subAndTest_sr _ _ _

theorem keeps_addAndTest {ok : Prop} (reg : BitVec 1) {a b : Int}
    (fits : s.Extended → ok → (Sum.add a b).Operands) : Keeps ok s (addAndTest reg a b s) where
  extended ext := ext.setLongAcc reg (a + b)
  asserts ext meets held := by
    obtain ⟨fitsA, fitsB⟩ := fits ext meets
    simp only [addAndTest, UpdateSR64Add, UpdateSR64, setFlags, SetLongAcc, GetLongAcc,
      Function.update_self, convert_emod, beq_self_eq_true, Bool.true_and, held,
      (isProperlySignExtended_iff _).mpr fitsA, (isProperlySignExtended_iff _).mpr fitsB,
      (isProperlySignExtended_iff _).mpr (fits_convert (a + b))]
  log := rfl

theorem keeps_subAndTest {ok : Prop} (reg : BitVec 1) {a b : Int}
    (fits : s.Extended → ok → (Sum.sub a b).Operands) : Keeps ok s (subAndTest reg a b s) where
  extended ext := ext.setLongAcc reg (a - b)
  asserts ext meets held := by
    obtain ⟨fitsA, fitsB⟩ := fits ext meets
    simp only [subAndTest, UpdateSR64Sub, UpdateSR64, setFlags, SetLongAcc, GetLongAcc,
      Function.update_self, convert_emod, beq_self_eq_true, Bool.true_and, held,
      (isProperlySignExtended_iff _).mpr fitsA, (isProperlySignExtended_iff _).mpr fitsB,
      (isProperlySignExtended_iff _).mpr (fits_convert (a - b))]
  log := rfl

theorem keeps_compareLong {ok : Prop} {a b : Int}
    (fits : s.Extended → ok → (Sum.sub a b).Operands) : Keeps ok s (compareLong a b s) where
  extended := id
  asserts ext meets held := by
    obtain ⟨fitsA, fitsB⟩ := fits ext meets
    simp only [compareLong, UpdateSR64Sub, UpdateSR64, setFlags, convert_emod, beq_self_eq_true,
      Bool.true_and, held, (isProperlySignExtended_iff _).mpr fitsA,
      (isProperlySignExtended_iff _).mpr fitsB,
      (isProperlySignExtended_iff _).mpr (fits_convert (a - b))]
  log := rfl

/-- Each instruction keeps the accumulators in 40 bits. -/
theorem Op.keeps (bus : Bus M) (op : Op) (opc : BitVec 16) (s : State M) :
    Keeps (op.InRange opc s) s (op.run bus opc s) := by
  have operands {sum : Sum} (summed : op.sum bus opc s = some sum) (ext : s.Extended)
      (meets : op.InRange opc s) : sum.Operands := op.sum_operands ext meets summed
  cases op
  case addr | addax | add | addp | addaxl | addis | incm | inc =>
    exact keeps_addAndTest _ (operands rfl)
  case addi =>
    exact (keeps_fetchInstruction bus s).trans (keeps_addAndTest _ fun ext => operands rfl ext)
  case subr | subax | sub | subp | decm | dec | neg => exact keeps_subAndTest _ (operands rfl)
  case cmp | cmpaxh | cmpis => exact keeps_compareLong (operands rfl)
  case cmpi =>
    exact (keeps_fetchInstruction bus s).trans (keeps_compareLong fun ext => operands rfl ext)
  case clr => exact keeps_setAndTestValue _ fun _ _ => by decide
  case clrl | movp | movnp | movpz => exact keeps_setAndTestValue _ fun _ meets => meets
  case movr => exact keeps_setAndTestValue _ fun _ _ => fits_axOperand opc s
  case movax => exact keeps_setAndTestValue _ fun _ _ => fits_getLongACX _ s
  case mov => exact keeps_setAndTestValue _ fun ext _ => ext _
  case tst => exact keeps_updateSR64 (fun ext _ => ext _) _ _
  case tstprod => exact keeps_updateSR64 (fun _ meets => meets) _ _
  case abs | lsl16 | lsr16 | asr16 | lsl | lsr | asl | asr | lsrn | asrn | lsrnrx | asrnrx | lsrnr
      | asrnr => exact keeps_setAndTest _ _
  case addpaxz => exact (keeps_setLongAcc _ _).trans (keeps_updateSR64 (fun ext _ => ext _) _ _)
  case mulac | mulmv | mulmvz | mulxac | mulxmv | mulxmvz | mulcac | mulcmv | mulcmvz =>
    exact keeps_multiplyAndSet _ _ _
  case xorr | andr | orr | andc | orc | xorc | notc => exact keeps_setMidAndTest _ _
  case xori | andi | ori =>
    exact (keeps_fetchInstruction bus s).trans (keeps_setMidAndTest _ _)
  case mrr => exact (keeps_opReadRegister _).trans (keeps_writeAndExtend _ _)
  case lri => exact (keeps_fetchInstruction bus s).trans (keeps_writeAndExtend _ _)
  case lris => exact keeps_writeAndExtend _ _
  case lrs => exact (keeps_readDMEM bus s _).trans (keeps_writeAndExtend _ _)
  case lr =>
    exact (keeps_fetchInstruction bus s).trans
      ((keeps_readDMEM bus _ _).trans (keeps_writeAndExtend _ _))
  case srsh | srs => exact keeps_storeReg bus s _ _
  case sr => exact (keeps_fetchInstruction bus s).trans (keeps_storeReg bus _ _ _)
  case lrr | lrrd | lrri | lrrn => exact keeps_loadFromAr bus s _ opc
  case srr | srrd | srri | srrn => exact keeps_storeAtAr bus s _ opc
  case ilrr | ilrrd | ilrri | ilrrn => exact keeps_loadFromInstructions bus s _ opc
  case srbith =>
    simp only [run, Interpreter.srbith]
    split <;> exact .of_same rfl rfl rfl
  all_goals exact .of_same rfl rfl rfl

end

/-! ## Extensions -/

/-- `s'` differs from `s` in the memory, in the stacks, and in further entries of the log, none of
which is for the status register. -/
def Beside (s s' : State M) : Prop :=
  ∃ memory st ptrs log, s' = { s with
      memory := memory
      st := st
      reg_stack_ptrs := ptrs
      write_back_log := s.write_back_log ++ log } ∧
    ∀ entry ∈ log, entry.1 ≠ 0x13

section
variable {s s' s'' : State M}

theorem Beside.refl (s : State M) : Beside s s :=
  ⟨s.memory, s.st, s.reg_stack_ptrs, [], by rw [List.append_nil], by simp⟩

theorem Beside.trans (first : Beside s s') (second : Beside s' s'') : Beside s s'' := by
  obtain ⟨_, _, _, log, rfl, other⟩ := first
  obtain ⟨memory, st, ptrs, log', rfl, other'⟩ := second
  refine ⟨memory, st, ptrs, log ++ log', by simp, ?_⟩
  intro entry mem
  rcases List.mem_append.mp mem with mem | mem
  · exact other entry mem
  · exact other' entry mem

theorem beside_writeToBackLog {idx : BitVec 5} (other : idx ≠ 0x13) (value : BitVec 16) :
    Beside s (s.WriteToBackLog idx value) :=
  ⟨s.memory, s.st, s.reg_stack_ptrs, [(idx, value)], rfl, by simpa using other⟩

theorem beside_logAr (after : BitVec 2 → State M → BitVec 16) (reg : BitVec 2) :
    Beside s (logAr after reg s) := by
  refine beside_writeToBackLog ?_ _
  revert reg
  decide

theorem beside_logAx (reg : BitVec 2) (value : BitVec 16) :
    Beside s (s.WriteToBackLog (axReg reg) value) := by
  refine beside_writeToBackLog ?_ _
  revert reg
  decide

theorem beside_opReadRegister (reg : BitVec 5) : Beside s (s.OpReadRegister reg).2 := by
  unfold OpReadRegister
  split
  case h_13 | h_14 | h_15 | h_16 =>
    exact ⟨s.memory, _, _, [], by rw [List.append_nil]; rfl, by simp⟩
  all_goals exact .refl s

section
variable (bus : Bus M)

theorem beside_readDMEM (address : BitVec 16) : Beside s (s.ReadDMEM bus address).2 :=
  ⟨_, s.st, s.reg_stack_ptrs, [], by rw [List.append_nil]; rfl, by simp⟩

theorem beside_storeReg (addr : BitVec 16) (reg : BitVec 5) :
    Beside s (storeReg bus addr reg s) := by
  refine (beside_opReadRegister reg).trans ?_
  exact ⟨_, _, _, [], by rw [List.append_nil]; rfl, by simp⟩

variable (after after' : BitVec 2 → State M → BitVec 16) (opc : BitVec 16)

theorem beside_loadExt : Beside s (loadExt bus after opc s) := by
  refine (beside_readDMEM bus (s.ar (lowAr opc))).trans ?_
  have loads (k : BitVec 3) : 0x18 + k.setWidth 5 ≠ (0x13 : BitVec 5) := by
    revert k
    decide
  have fills (k : BitVec 3) : 0x1e ≤ (0x18 + k.setWidth 5 : BitVec 5) →
      0x18 + k.setWidth 5 - 0x1e + 0x10 ≠ (0x13 : BitVec 5) ∧
        0x18 + k.setWidth 5 - 0x1e + 0x1c ≠ (0x13 : BitVec 5) := by
    revert k
    decide
  dsimp only [loadExt]
  split
  · rename_i mode
    obtain ⟨high, low⟩ := fills _ mode.1
    exact ((beside_writeToBackLog high _).trans (beside_writeToBackLog (loads _) _)).trans
      ((beside_writeToBackLog low _).trans (beside_logAr after _))
  · exact (beside_writeToBackLog (loads _) _).trans (beside_logAr after _)

theorem beside_storeAndLoad (store load : BitVec 2) :
    Beside s (storeAndLoad bus after after' store load opc s) :=
  ((beside_storeReg bus _ _).trans (beside_readDMEM bus _)).trans
    ((beside_logAx _ _).trans ((beside_logAr after 3).trans (beside_logAr after' 0)))

theorem beside_loadTwo {dreg rreg : BitVec 2} (sreg : BitVec 2) :
    Beside s (loadTwo bus after after' (axReg dreg) (axReg rreg) sreg s) :=
  (((beside_readDMEM bus _).trans (beside_logAx dreg _)).trans
    ((beside_readDMEM bus _).trans (beside_logAx rreg _))).trans
    ((beside_logAr after sreg).trans (beside_logAr after' 3))

end

/-- An extension leaves what it changes of the registers in the log. -/
theorem ExtOp.beside (bus : Bus M) (op : ExtOp) (opc : BitVec 16) (s : State M) :
    Beside s (op.run bus opc s) := by
  cases op
  case nop_ext => exact .refl s
  case dr | ir | nr => exact beside_logAr _ _
  case mv => exact (beside_opReadRegister _).trans (beside_logAx _ _)
  case s | sn => exact (beside_storeReg bus _ _).trans (beside_logAr _ _)
  case l | ln => exact beside_loadExt bus _ opc
  case ls | lsn | lsm | lsnm | sl | sln | slm | slnm => exact beside_storeAndLoad bus _ _ opc _ _
  case ld | ldn | ldm | ldnm | ldax | ldaxn | ldaxm | ldaxnm => exact beside_loadTwo bus _ _ _

/-- The operation of an instruction is not changed by the extension beside it. -/
theorem Beside.sum {bus : Bus M} {op : Op} (beside : Beside s s') (extended : op.extended = true)
    (opc : BitVec 16) : op.sum bus opc s' = op.sum bus opc s := by
  obtain ⟨_, _, _, _, rfl, _⟩ := beside
  cases op <;> first | rfl | cases extended

theorem Beside.inRange (op : Op) (opc : BitVec 16) (beside : Beside s s') :
    op.InRange opc s' ↔ op.InRange opc s := by
  obtain ⟨_, _, _, _, rfl, _⟩ := beside
  cases op <;> rfl

theorem applyWriteBackLog_asserts (s : State M) : s.ApplyWriteBackLog.asserts = s.asserts := by
  suffices ∀ (log : List (BitVec 5 × BitVec 16)) (s : State M),
      (log.foldl (fun s entry => s.OpWriteRegister entry.1 entry.2) s).asserts = s.asserts from
    this s.write_back_log s
  intro log
  induction log with
  | nil => exact fun _ => rfl
  | cons entry log ih =>
      intro s
      rw [List.foldl_cons, ih]
      unfold OpWriteRegister
      split <;> rfl

/-- Writes to other registers leave the status register alone. -/
theorem applyWriteBackLog_sr (s : State M) (other : ∀ entry ∈ s.write_back_log, entry.1 ≠ 0x13) :
    s.ApplyWriteBackLog.sr = s.sr := by
  suffices ∀ (log : List (BitVec 5 × BitVec 16)), (∀ entry ∈ log, entry.1 ≠ 0x13) →
      ∀ s : State M,
        (log.foldl (fun s entry => s.OpWriteRegister entry.1 entry.2) s).sr = s.sr from
    this s.write_back_log other s
  intro log
  induction log with
  | nil => exact fun _ _ => rfl
  | cons entry log ih =>
      intro other s
      rw [List.foldl_cons, ih fun entry mem => other entry (List.mem_cons_of_mem _ mem)]
      have first := other entry List.mem_cons_self
      unfold OpWriteRegister
      split
      case h_20 number => exact absurd (BitVec.eq_of_toNat_eq number) first
      all_goals rfl

end

/-! ## Flags -/

/-- The flags of a result in the status register. -/
structure FlagsOf (sr : BitVec 16) (carry overflow : Prop) (result : Int) : Prop where
  carry : sr &&& SR_CARRY ≠ 0 ↔ carry
  overflow : sr &&& SR_OVERFLOW ≠ 0 ↔ overflow
  zero : sr &&& SR_ARITH_ZERO ≠ 0 ↔ result = 0
  sign : sr &&& SR_SIGN ≠ 0 ↔ result < 0
  over_s32 : sr &&& SR_OVER_S32 ≠ 0 ↔ ¬ Fits (2 ^ 31) result
  /-- The bits 30 and 31 are equal. -/
  top2bits : sr &&& SR_TOP2BITS ≠ 0 ↔ result / 2 ^ 30 % 2 = result / 2 ^ 31 % 2

theorem and_twoPow_ne_zero (x : BitVec 16) {i : Nat} (small : i < 16) :
    x &&& BitVec.twoPow 16 i ≠ 0 ↔ x.getLsbD i = true := by
  rw [BitVec.and_twoPow]
  split
  · rename_i set
    refine ⟨fun _ => set, fun _ zero => ?_⟩
    have bit := congrArg (fun y => y.getLsbD i) zero
    simp [small] at bit
  · rename_i unset
    simp [unset]

theorem orIf_getLsbD (c : Bool) (mask sr : BitVec 16) (i : Nat) :
    (orIf c mask sr).getLsbD i = (sr.getLsbD i || (c && mask.getLsbD i)) := by
  cases c <;> simp [orIf]

theorem isOverS32_iff (acc : Int) : isOverS32 acc = true ↔ ¬ Fits (2 ^ 31) acc := by
  rw [isOverS32, decide_eq_true_eq]
  refine not_congr ⟨fun same => ?_, fun fits => (wrap_of_fits fits).symm⟩
  rw [same]
  exact fits_wrap (by decide) acc

theorem flagsOf_updateSR64 (s : State M) (value : Int) (carry overflow : Bool) :
    FlagsOf (s.UpdateSR64 value carry overflow).sr (carry = true) (overflow = true) value := by
  have flag (i : Nat) (small : i < 6) :
      (s.UpdateSR64 value carry overflow).sr &&& BitVec.twoPow 16 i ≠ 0 ↔
        ([carry, overflow, value == 0, decide (value < 0), isOverS32 value,
          (value / 2 ^ 30 % 4 == 0 || value / 2 ^ 30 % 4 == 3)].getD i false) = true := by
    rw [and_twoPow_ne_zero _ (by omega)]
    simp only [UpdateSR64, setFlags, orIf_getLsbD]
    match i with
    | 0 | 1 | 2 | 3 | 4 | 5 =>
        simp [SR_TOP2BITS, SR_OVER_S32, SR_SIGN, SR_ARITH_ZERO, SR_OVERFLOW_STICKY, SR_OVERFLOW,
          SR_CARRY, SR_CMP_MASK]
  exact {
    carry := flag 0 (by decide)
    overflow := flag 1 (by decide)
    zero := (flag 2 (by decide)).trans (by simp)
    sign := (flag 3 (by decide)).trans (by simp)
    over_s32 := (flag 4 (by decide)).trans (isOverS32_iff value)
    top2bits := (flag 5 (by decide)).trans (by simp; omega) }

theorem flagsOf_sum {s : State M} {sum : Sum} (operands : sum.Operands) :
    FlagsOf (sum.update s).sr sum.Carry sum.Overflow sum.result := by
  cases sum with
  | add a b =>
      have carries := lt_iff_carries (M := 2 ^ 64) (by decide) (by decide) operands.1 operands.2
      have signs := signs_iff_add operands.1 operands.2
      have flags := flagsOf_updateSR64 s (dsp_convert_long_acc (a + b))
        (isCarryAdd a (dsp_convert_long_acc (a + b)))
        (isOverflow a b (dsp_convert_long_acc (a + b)))
      rw [isCarryAdd, isOverflow, decide_eq_true_eq, decide_eq_true_eq] at flags
      exact { flags with
        carry := flags.carry.trans carries
        overflow := flags.overflow.trans signs }
  | sub a b =>
      have carries := le_iff_not_borrows (M := 2 ^ 64) (by decide) (by decide) operands.1 operands.2
      have signs := signs_iff_sub operands.1 operands.2
      have flags := flagsOf_updateSR64 s (dsp_convert_long_acc (a - b))
        (isCarrySubtract a (dsp_convert_long_acc (a - b)))
        (isOverflow a (-b) (dsp_convert_long_acc (a - b)))
      rw [isCarrySubtract, isOverflow, decide_eq_true_eq, decide_eq_true_eq] at flags
      exact { flags with
        carry := flags.carry.trans carries
        overflow := flags.overflow.trans signs }

/-! ## Runs -/

/-- What `addpaxz` sets an accumulator to. -/
def addpaxzResult (opc : BitVec 16) (s : State M) : Int :=
  wrap (2 ^ 39) (s.GetLongProductRounded + s.GetLongACX (bit 9 opc) / 2 ^ 16 * 2 ^ 16)

/-- The carry of `addpaxz` compares with the product that is not rounded. -/
theorem flagsOf_addpaxz (opc : BitVec 16) (s : State M) :
    FlagsOf (addpaxz opc s).sr (addpaxzResult opc s % 2 ^ 64 < s.GetLongProduct % 2 ^ 64) False
      (addpaxzResult opc s) := by
  have flags := flagsOf_updateSR64 s (addpaxzResult opc s)
    (isCarryAdd s.GetLongProduct (addpaxzResult opc s)) false
  have same : (addpaxz opc s).sr = (s.UpdateSR64 (addpaxzResult opc s)
      (isCarryAdd s.GetLongProduct (addpaxzResult opc s)) false).sr := by
    simp only [addpaxz, SetLongAcc, GetLongAcc, Function.update_self]
    rfl
  rw [same]
  exact { flags with
    carry := flags.carry.trans (by rw [isCarryAdd, decide_eq_true_eq])
    overflow := flags.overflow.trans (by simp) }

/-- The instruction of a word does not test a value outside the 40 bits. -/
def InRange (inst : BitVec 16) (s : State M) : Prop := ∀ op ∈ GetOp inst, op.InRange inst s

/-- What holds between instructions. -/
structure Between (s : State M) : Prop where
  extended : s.Extended
  log : s.write_back_log = []

section
variable {s : State M} (bus : Bus M)

theorem Between.kept (between : Between s) (op : Op) (inst : BitVec 16) :
    Between (execute bus op inst s) ∧
      (op.InRange inst s → s.asserts = true → (execute bus op inst s).asserts = true) := by
  unfold Interpreter.execute
  split
  · obtain ⟨_, _, _, _, eq, _⟩ := (GetExtOp inst).beside bus inst s
    have keeps := op.keeps bus inst ((GetExtOp inst).run bus inst s)
    have meets := Beside.inRange op inst ((GetExtOp inst).beside bus inst s)
    have ext : ((GetExtOp inst).run bus inst s).Extended := eq ▸ between.extended
    have same : ((GetExtOp inst).run bus inst s).asserts = s.asserts := eq ▸ rfl
    refine ⟨⟨(keeps.extended ext).applyWriteBackLog, rfl⟩, fun inRange held => ?_⟩
    rw [applyWriteBackLog_asserts]
    exact keeps.asserts ext (meets.mpr inRange) (same.trans held)
  · have keeps := op.keeps bus inst s
    exact ⟨⟨keeps.extended between.extended, keeps.log.trans between.log⟩,
      keeps.asserts between.extended⟩

/-- The flags after an instruction are those its operation leaves. -/
theorem Between.execute_sr (between : Between s) (op : Op) (inst : BitVec 16) :
    ∃ s₁, Beside s s₁ ∧ (execute bus op inst s).sr = (op.run bus inst s₁).sr ∧
      (op.extended = false → s₁ = s) := by
  unfold Interpreter.execute
  split
  · rename_i extended
    obtain ⟨memory, st, ptrs, log, eq, other⟩ := (GetExtOp inst).beside bus inst s
    refine ⟨_, (GetExtOp inst).beside bus inst s, applyWriteBackLog_sr _ ?_, by simp [extended]⟩
    rw [(op.keeps bus inst _).log, eq, between.log]
    exact other
  · exact ⟨s, .refl s, rfl, fun _ => rfl⟩

variable {bus} in
theorem Between.flags_sum (between : Between s) {op : Op} {inst : BitVec 16} {sum : Sum}
    (meets : op.InRange inst s) (summed : op.sum bus inst s = some sum) :
    FlagsOf (Interpreter.execute bus op inst s).sr sum.Carry sum.Overflow sum.result := by
  obtain ⟨s₁, beside, sr, plain⟩ := between.execute_sr bus op inst
  have summed₁ : op.sum bus inst s₁ = some sum := by
    cases extended : op.extended with
    | false => rw [plain extended, summed]
    | true => rw [beside.sum extended, summed]
  rw [sr, op.run_sr summed₁]
  exact flagsOf_sum (op.sum_operands between.extended meets summed)

theorem Between.flags_addpaxz (between : Between s) (inst : BitVec 16) :
    FlagsOf (Interpreter.execute bus .addpaxz inst s).sr
      (addpaxzResult inst s % 2 ^ 64 < s.GetLongProduct % 2 ^ 64) False (addpaxzResult inst s) := by
  obtain ⟨_, ⟨_, _, _, _, rfl, _⟩, sr, _⟩ := between.execute_sr bus .addpaxz inst
  rw [sr]
  exact flagsOf_addpaxz inst s

variable {bus} in
theorem Between.step {s' : State M} {inst : BitVec 16} (between : Between s)
    (next : ExecuteInstruction bus inst s = some s') :
    Between s' ∧ (InRange inst s → s.asserts = true → s'.asserts = true) := by
  obtain ⟨op, found, rfl⟩ := Option.map_eq_some_iff.mp next
  obtain ⟨after, asserts⟩ := between.kept bus op inst
  exact ⟨after, fun meets => asserts (meets op found)⟩

end

/-- In every run the accumulators stay sign-extended 40-bit values. The assertions hold when no
instruction tests a value outside the 40 bits, and the flags of a sum within them are exact.
`addpaxz` does not set the overflow flag, and has a carry of its own. -/
theorem accumulators_and_flags (bus : Bus M) {s₀ s : State M} (ext : s₀.Extended)
    (empty : s₀.write_back_log = []) (held : s₀.asserts = true)
    (run : Reaches (ExecuteInstruction bus) (fun _ _ => True) s₀ s) :
    s.Extended ∧ (Reaches (ExecuteInstruction bus) InRange s₀ s → s.asserts = true) ∧
      ∀ inst op s', GetOp inst = some op → ExecuteInstruction bus inst s = some s' →
        (∀ sum, op.sum bus inst s = some sum → op.InRange inst s →
          FlagsOf s'.sr sum.Carry sum.Overflow sum.result) ∧
        (op = .addpaxz → FlagsOf s'.sr (addpaxzResult inst s % 2 ^ 64 < s.GetLongProduct % 2 ^ 64)
          False (addpaxzResult inst s)) := by
  have between : Between s :=
    run.invariant ⟨ext, empty⟩ fun _ _ _ between _ next => (between.step next).1
  refine ⟨between.extended, fun ranged => ?_, fun inst op s' found next => ?_⟩
  · refine (ranged.invariant (I := fun s => Between s ∧ s.asserts = true) ⟨⟨ext, empty⟩, held⟩
      fun _ _ _ inv meets next => ?_).2
    obtain ⟨after, asserts⟩ := inv.1.step next
    exact ⟨after, asserts meets inv.2⟩
  · rw [ExecuteInstruction, found] at next
    cases next
    refine ⟨fun sum summed meets => between.flags_sum meets summed, ?_⟩
    rintro rfl
    exact between.flags_addpaxz bus inst

/-- Nothing is mapped. -/
def silentBus : Bus Unit := ⟨fun m _ => (0, m), fun m _ _ => m, fun _ _ => 0⟩

/-- Zeroed registers but for the accumulators, the product and the secondary accumulators. -/
def registers (ac : Int) (prod : Prod) (axh : BitVec 16) : State Unit where
  ar _ := 0
  ix _ := 0
  wr _ := 0
  st _ := 0
  reg_stacks _ _ := 0
  reg_stack_ptrs _ := 0
  cr := 0
  sr := 0
  prod := prod
  axl _ := 0
  axh _ := axh
  ac _ := ac
  pc := 0
  memory := ()
  write_back_log := []
  asserts := true

theorem registers_extended {ac : Int} (fits : Fits (2 ^ 39) ac) (prod : Prod) (axh : BitVec 16) :
    (registers ac prod axh).Extended := fun _ => fits

/-- The greatest value is incremented, beside an increment of an address register, and the other
accumulator is added. -/
theorem accumulators_and_flags_greatest : ∃ s s',
    ExecuteInstruction silentBus 0x7608 (registers (2 ^ 39 - 1) ⟨0, 0, 0, 0⟩ 0) = some s ∧
      ExecuteInstruction silentBus 0x4c00 s = some s' ∧ s.Extended ∧ s.asserts = true ∧
      s'.sr &&& SR_SIGN ≠ 0 ∧ ¬ s'.sr &&& SR_OVERFLOW ≠ 0 := by
  refine ⟨_, _, rfl, rfl, ?_⟩
  have ranged : InRange 0x7608 (registers (2 ^ 39 - 1) ⟨0, 0, 0, 0⟩ 0) := by
    intro op found
    cases found
    trivial
  have start : (registers (2 ^ 39 - 1) ⟨0, 0, 0, 0⟩ 0).Extended :=
    registers_extended (by decide) _ _
  have all := accumulators_and_flags silentBus start rfl rfl
    (Reaches.refl.tail (a := 0x7608) trivial rfl)
  have flags := (all.2.2 0x4c00 .add _ rfl rfl).1 _ rfl trivial
  exact ⟨all.1, all.2.1 (Reaches.refl.tail (a := 0x7608) ranged rfl), flags.sign.mpr (by decide),
    fun set => flags.overflow.mp set (show Fits (2 ^ 39) (-1) by decide)⟩

/-- `addpaxz` leaves the overflow flag clear when the rounded product and the secondary
accumulator do not fit in 40 bits. -/
theorem addpaxz_overflow_clear : (registers 0 ⟨0, 0xffff, 0x7f, 0⟩ 1).Extended ∧
    GetOp 0xf800 = some .addpaxz ∧
      ∃ s', ExecuteInstruction silentBus 0xf800 (registers 0 ⟨0, 0xffff, 0x7f, 0⟩ 1) = some s' ∧
        (registers 0 ⟨0, 0xffff, 0x7f, 0⟩ 1).GetLongProductRounded = 0x7fffff0000 ∧
        (registers 0 ⟨0, 0xffff, 0x7f, 0⟩ 1).GetLongACX 0 = 0x10000 ∧
        ¬ Fits (2 ^ 39) (0x7fffff0000 + 0x10000) ∧ s'.sr &&& SR_OVERFLOW = 0 := by
  exact ⟨registers_extended (by decide) _ _, rfl, _, rfl, by decide, by decide, by decide,
    by decide⟩

end Phocoena.DSP
