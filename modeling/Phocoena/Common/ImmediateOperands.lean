import Phocoena.Common.MoveImmediateExact
import Phocoena.JitArm64.Emitter

/-! # Instructions with any constant

`ANDI2R`, `ADDI2R` and their relatives: one instruction where the constant can be encoded, else
two additions or a scratch register.
-/

namespace Phocoena.Arm64Emitter

open A64 (LogicalOp ArithOp NZCV Operand)
open JitArm64.Emit (flipped)

/-! ## The emitter -/

/-- What `ANDI2R`, `ORRI2R`, `EORI2R` and `ANDSI2R` have in common: all zeros and all ones are
each treated in its own way, and a 32-bit constant is repeated. -/
def logicalI2R (op : LogicalOp) (flags : Bool) (zeros ones : List Emitted) (pc : BitVec 64)
    (size : GPRSize) (Rd Rn : GPR) (imm : BitVec 64) (scratch : Option GPR) :
    Option (List Emitted) :=
  let imm := LogicalImm.word imm size
  if imm = 0 then some zeros
  else if ~~~imm = 0 then some ones
  else
    let result := LogicalImm.ofValue imm .B64
    if result.valid then some [.logicalImm op flags size Rd Rn result]
    else scratch.bind fun scratch => (MOVI2R pc size scratch imm).map
      (· ++ [Emitted.data (.logical size.bits op flags Rd Rn (.reg scratch))])

def movUnlessSame (size : GPRSize) (Rd Rn : GPR) : List Emitted :=
  if Rd ≠ Rn then [.data (.mov size.bits Rd Rn)] else []

def ANDI2R (pc : BitVec 64) (size : GPRSize) (Rd Rn : GPR) (imm : BitVec 64)
    (scratch : Option GPR) : Option (List Emitted) :=
  logicalI2R .and false [.MOVZ size Rd 0 0] (movUnlessSame size Rd Rn) pc size Rd Rn imm scratch

def ORRI2R (pc : BitVec 64) (size : GPRSize) (Rd Rn : GPR) (imm : BitVec 64)
    (scratch : Option GPR) : Option (List Emitted) :=
  logicalI2R .orr false (movUnlessSame size Rd Rn) [.MOVN size Rd 0 0] pc size Rd Rn imm scratch

def EORI2R (pc : BitVec 64) (size : GPRSize) (Rd Rn : GPR) (imm : BitVec 64)
    (scratch : Option GPR) : Option (List Emitted) :=
  logicalI2R .eor false (movUnlessSame size Rd Rn) [.data (.mvn size.bits Rd Rn)] pc size Rd Rn imm
    scratch

def ANDSI2R (pc : BitVec 64) (size : GPRSize) (Rd Rn : GPR) (imm : BitVec 64)
    (scratch : Option GPR) : Option (List Emitted) :=
  logicalI2R .and true [.data (.logical size.bits .and true Rd .zr (.reg .zr))]
    [.data (.logical size.bits .and true Rd Rn (.reg Rn))] pc size Rd Rn imm scratch

def AddImmediate (size : GPRSize) (Rd Rn : GPR) (imm : BitVec 64) (shift negative flags : Bool) :
    Emitted :=
  .data (.arith size.bits (if negative then .sub else .add) flags Rd Rn
    (.imm (if shift then imm <<< 12 else imm)))

def ADDI2R_internal (pc : BitVec 64) (size : GPRSize) (Rd Rn : GPR) (imm : BitVec 64)
    (negative flags : Bool) (scratch : Option GPR) : Option (List Emitted) :=
  let imm := if size.bits = 32 then imm &&& 0xFFFFFFFF else imm
  let imm_neg := if size.bits = 32 then -imm &&& 0xFFFFFFFF else -imm
  let neg_neg := !negative
  -- Special path for zeroes
  if imm = 0 ∧ flags = false ∧ Rd = Rn then some []
  else if imm = 0 ∧ flags = false ∧ Rd ≠ .zr ∧ Rn ≠ .zr then some [.data (.mov size.bits Rd Rn)]
  -- Regular fast paths, aarch64 immediate instructions
  else if imm ≤ 0xFFF then some [AddImmediate size Rd Rn imm false negative flags]
  else if imm ≤ 0xFFFFFF ∧ imm &&& 0xFFF = 0 then
    some [AddImmediate size Rd Rn (imm >>> 12) true negative flags]
  else if imm_neg ≤ 0xFFF then some [AddImmediate size Rd Rn imm_neg false neg_neg flags]
  else if imm_neg ≤ 0xFFFFFF ∧ imm_neg &&& 0xFFF = 0 then
    some [AddImmediate size Rd Rn (imm_neg >>> 12) true neg_neg flags]
  -- ADD+ADD is slower than MOVK+ADD, but inplace. It must not be done on setting flags.
  else if flags = false ∧ (0x10000 ≤ imm ∨ scratch = none) ∧ imm < 0x1000000 then
    some [AddImmediate size Rd Rn (imm &&& 0xFFF) false negative false,
      AddImmediate size Rd Rd (imm >>> 12) true negative false]
  else if flags = false ∧ (0x10000 ≤ imm_neg ∨ scratch = none) ∧ imm_neg < 0x1000000 then
    some [AddImmediate size Rd Rn (imm_neg &&& 0xFFF) false neg_neg false,
      AddImmediate size Rd Rd (imm_neg >>> 12) true neg_neg false]
  else scratch.bind fun scratch =>
    (MOVI2R2 pc size scratch imm imm_neg).map fun (code, element) =>
      code ++ [.data (.arith size.bits (if negative ^^ element then .sub else .add) flags Rd Rn
        (.reg scratch))]

def ADDI2R (pc : BitVec 64) (size : GPRSize) (Rd Rn : GPR) (imm : BitVec 64)
    (scratch : Option GPR) : Option (List Emitted) :=
  ADDI2R_internal pc size Rd Rn imm false false scratch

def ADDSI2R (pc : BitVec 64) (size : GPRSize) (Rd Rn : GPR) (imm : BitVec 64)
    (scratch : Option GPR) : Option (List Emitted) :=
  ADDI2R_internal pc size Rd Rn imm false true scratch

def SUBI2R (pc : BitVec 64) (size : GPRSize) (Rd Rn : GPR) (imm : BitVec 64)
    (scratch : Option GPR) : Option (List Emitted) :=
  ADDI2R_internal pc size Rd Rn imm true false scratch

def SUBSI2R (pc : BitVec 64) (size : GPRSize) (Rd Rn : GPR) (imm : BitVec 64)
    (scratch : Option GPR) : Option (List Emitted) :=
  ADDI2R_internal pc size Rd Rn imm true true scratch

def CMPI2R (pc : BitVec 64) (size : GPRSize) (Rn : GPR) (imm : BitVec 64) (scratch : Option GPR) :
    Option (List Emitted) :=
  ADDI2R_internal pc size .zr Rn imm true true scratch

/-! ## What the code computes -/

/-- The machine has the result and the flags of an instruction, and apart from the scratch
register nothing else has changed. Where no instruction was needed, a 32-bit register keeps its
upper half. -/
structure Agrees (m : Machine) (size : GPRSize) (scratch : Fin 31) (i : A64.Inst (Fin 31))
    (code : List Emitted) (m' : Machine) : Prop where
  result : ∀ r, i.dest = .name r →
    (m'.x r).setWidth size.bits = (i.eval m.get m.nzcv).1.setWidth size.bits
  upper : ∀ r, i.dest = .name r → code ≠ [] → m'.x r = (i.eval m.get m.nzcv).1
  flags : m'.nzcv = (i.eval m.get m.nzcv).2
  frame : ∀ r, i.dest ≠ .name r → r ≠ scratch → m'.x r = m.x r

/-- The emitter meets its assertions, and its code does what the instruction does. A constant that
the instruction has as its operand is read as a register that holds it would be. -/
def Computes (m : Machine) (size : GPRSize) (scratch : Fin 31) (i : A64.Inst (Fin 31))
    (emitted : Option (List Emitted)) : Prop :=
  ∃ code m', emitted = some code ∧ (∀ j ∈ code, j.encodable = true) ∧ m.run code = some m' ∧
    Agrees m size scratch i code m'

section
variable {m : Machine} {size : GPRSize} {scratch : Fin 31} {i : A64.Inst (Fin 31)}

theorem computes_single {j : Emitted} (encodable : j.encodable = true) (dest : j.dest = i.dest)
    (eval : j.eval m = some (i.eval m.get m.nzcv)) : Computes m size scratch i (some [j]) := by
  have value : ∀ r, i.dest = .name r →
      (m.after i.dest (i.eval m.get m.nzcv)).x r = (i.eval m.get m.nzcv).1 :=
    fun r same => if_pos same.symm
  refine ⟨[j], m.after i.dest (i.eval m.get m.nzcv), rfl, by simpa using encodable, ?_, ?_⟩
  · rw [Machine.run_singleton, Machine.step, eval, dest]
    rfl
  · exact ⟨fun r same => by rw [value r same], fun r same _ => value r same, rfl,
      fun r other _ => if_neg fun same => other same.symm⟩

/-- The constant is in the scratch register before the instruction. -/
theorem computes_scratch {pc_code : Option (List Emitted)} {v : BitVec size.bits}
    {j : A64.Inst (Fin 31)} (loads : Loads m size scratch v pc_code)
    (encodable : (Emitted.data j).encodable = true) (dest : j.dest = i.dest)
    (eval : ∀ n, j.eval (m.moved scratch (v.setWidth 64) n).get m.nzcv = i.eval m.get m.nzcv) :
    Computes m size scratch i (pc_code.map (· ++ [Emitted.data j])) := by
  obtain ⟨code, rfl, -, fits, run⟩ := loads
  have value : ∀ r, i.dest = .name r → ((m.moved scratch (v.setWidth 64) code.length).after i.dest
      (i.eval m.get m.nzcv)).x r = (i.eval m.get m.nzcv).1 := fun r same => if_pos same.symm
  refine ⟨code ++ [.data j], (m.moved scratch (v.setWidth 64) code.length).after i.dest
    (i.eval m.get m.nzcv), rfl, fun k member => ?_, ?_, ?_⟩
  · rcases List.mem_append.mp member with here | last
    · exact fits k here
    · rw [List.mem_singleton.mp last]
      exact encodable
  · rw [Machine.run_append, run, Option.bind_some, Machine.run_singleton, Machine.step,
      Emitted.eval]
    show (some (j.eval _ m.nzcv)).map _ = _
    rw [eval, Emitted.dest, dest]
    rfl
  · refine ⟨fun r same => by rw [value r same], fun r same _ => value r same, rfl,
      fun r other apart => ?_⟩
    exact (if_neg fun same => other same.symm).trans (Function.update_of_ne apart _ _)

/-- No instruction is needed where the result is in the register already. -/
theorem computes_nothing (flags : (i.eval m.get m.nzcv).2 = m.nzcv)
    (result : ∀ r, i.dest = .name r →
      (m.x r).setWidth size.bits = (i.eval m.get m.nzcv).1.setWidth size.bits) :
    Computes m size scratch i (some []) :=
  ⟨[], m, rfl, fun _ member => absurd member List.not_mem_nil, rfl, result,
    fun _ _ ne => absurd rfl ne, flags.symm, fun _ _ _ => rfl⟩

end

/-! ## Logical instructions -/

theorem word_setWidth (imm : BitVec 64) (size : GPRSize) :
    (LogicalImm.word imm size).setWidth size.bits = imm.setWidth size.bits := by
  cases size with
  | B64 => rfl
  | B32 =>
      refine BitVec.eq_of_getLsbD_eq fun i lt => ?_
      rw [BitVec.getLsbD_setWidth, BitVec.getLsbD_setWidth]
      exact congrArg _ (LogicalImm.getLsbD_repeat32 imm lt).1

theorem ofValue_word (imm : BitVec 64) (size : GPRSize) :
    LogicalImm.ofValue (LogicalImm.word imm size) .B64 = LogicalImm.ofValue imm size := rfl

/-- A logical immediate that is accepted, as an operand. -/
theorem eval_logicalImm {imm : BitVec 64} {size : GPRSize}
    (valid : (LogicalImm.ofValue imm size).valid = true) (op : LogicalOp) (flags : Bool)
    (Rd Rn : GPR) (m : Machine) (ok : flags = true ∨ Rd ≠ .zr) :
    (Emitted.logicalImm op flags size Rd Rn (LogicalImm.ofValue imm size)).encodable = true ∧
      (Emitted.logicalImm op flags size Rd Rn (LogicalImm.ofValue imm size)).eval m =
        some ((A64.Inst.logical size.bits op flags Rd Rn (.imm imm)).eval m.get m.nzcv) := by
  obtain ⟨r, s, decoded⟩ := (LogicalImm.ofValue_exact imm size).2 valid
  constructor
  · have ok' : (flags || decide (Rd ≠ .zr)) = true := by simpa using ok
    rw [Emitted.encodable, valid, decide_eq_true (And.intro r s), ok']
    have narrow := logical_narrow valid
    rcases narrow with rfl | narrow
    · rfl
    · rw [narrow]
      simp
  · rw [Emitted.eval, decoded, Option.map_some]
    simp only [A64.Inst.eval, Operand.eval, setWidth_back]

section
variable {m : Machine} {size : GPRSize} {scratch : Fin 31} {Rn : Fin 31}

theorem computes_logicalI2R {op : LogicalOp} {flags : Bool} {zeros ones : List Emitted} {Rd : GPR}
    {imm : BitVec 64} (fresh : scratch ≠ Rn) (ok : flags = true ∨ Rd ≠ .zr)
    (whenZeros : imm.setWidth size.bits = 0#_ → Computes m size scratch
      (.logical size.bits op flags Rd (.name Rn) (.imm imm)) (some zeros))
    (whenOnes : imm.setWidth size.bits = BitVec.allOnes _ → Computes m size scratch
      (.logical size.bits op flags Rd (.name Rn) (.imm imm)) (some ones)) :
    Computes m size scratch (.logical size.bits op flags Rd (.name Rn) (.imm imm))
      (logicalI2R op flags zeros ones m.pc size Rd (.name Rn) imm (some (.name scratch))) := by
  have low := word_setWidth imm size
  unfold logicalI2R
  dsimp only
  split
  · next zero =>
    rw [zero] at low
    exact whenZeros (low.symm.trans (BitVec.setWidth_zero _ _))
  · split
    · next _ all =>
      rw [← @BitVec.not_not _ (LogicalImm.word imm size), all, BitVec.ofNat_eq_ofNat,
        BitVec.not_zero] at low
      refine whenOnes (low.symm.trans (BitVec.eq_of_getLsbD_eq fun i lt => ?_))
      rw [BitVec.getLsbD_setWidth, BitVec.getLsbD_allOnes, BitVec.getLsbD_allOnes,
        decide_eq_true lt, decide_eq_true (lt.trans_le size.bits_le)]
      rfl
    · split
      · next valid =>
        rw [ofValue_word] at valid ⊢
        obtain ⟨encodable, eval⟩ := eval_logicalImm valid op flags Rd (.name Rn) m ok
        exact computes_single encodable rfl eval
      · rw [Option.bind_some]
        refine computes_scratch (MOVI2R_loads m size scratch _) ?_ rfl fun n => ?_
        · cases size <;> rfl
        · simp only [A64.Inst.eval, Operand.eval, Machine.get_moved_of_ne fresh, Machine.get_moved,
            low, setWidth_back]

/-- A register is moved unless it is there already. -/
theorem computes_movUnlessSame {j : A64.Inst (Fin 31)} {Rd : Fin 31} (dest : j.dest = .name Rd)
    (eval : j.eval m.get m.nzcv = (((m.x Rn).setWidth size.bits).setWidth 64, m.nzcv)) :
    Computes m size scratch j (some (movUnlessSame size (.name Rd) (.name Rn))) := by
  unfold movUnlessSame
  by_cases same : Rd = Rn
  · rw [same, if_neg (not_not.mpr rfl)]
    refine computes_nothing (by rw [eval]) fun r here => ?_
    obtain rfl : Rd = r := A64.Reg.name.inj (dest.symm.trans here)
    rw [eval, setWidth_back, same]
  · rw [if_pos fun h => same (A64.Reg.name.inj h)]
    refine computes_single (by cases size <;> rfl) dest.symm ?_
    rw [eval]
    simp [Emitted.eval, A64.Inst.eval, LogicalOp.apply, Operand.eval, Machine.get]

variable (imm : BitVec 64) (Rd : Fin 31) (fresh : scratch ≠ Rn)

include fresh

theorem computes_ANDI2R : Computes m size scratch
    (.logical size.bits .and false (.name Rd) (.name Rn) (.imm imm))
    (ANDI2R m.pc size (.name Rd) (.name Rn) imm (some (.name scratch))) := by
  refine computes_logicalI2R fresh (.inr nofun) (fun zeros => ?_) fun ones => ?_
  · refine computes_single (first_encodable size _ 0).1 rfl ?_
    simp [Emitted.eval, A64.Inst.eval, LogicalOp.apply, Operand.eval, zeros]
  · refine computes_movUnlessSame rfl ?_
    simp [A64.Inst.eval, LogicalOp.apply, Operand.eval, ones, Machine.get]

theorem computes_ORRI2R : Computes m size scratch
    (.logical size.bits .orr false (.name Rd) (.name Rn) (.imm imm))
    (ORRI2R m.pc size (.name Rd) (.name Rn) imm (some (.name scratch))) := by
  refine computes_logicalI2R fresh (.inr nofun) (fun zeros => ?_) fun ones => ?_
  · refine computes_movUnlessSame rfl ?_
    simp [A64.Inst.eval, LogicalOp.apply, Operand.eval, zeros, Machine.get]
  · refine computes_single (first_encodable size _ 0).2 rfl ?_
    simp [Emitted.eval, A64.Inst.eval, LogicalOp.apply, Operand.eval, ones]

theorem computes_EORI2R : Computes m size scratch
    (.logical size.bits .eor false (.name Rd) (.name Rn) (.imm imm))
    (EORI2R m.pc size (.name Rd) (.name Rn) imm (some (.name scratch))) := by
  refine computes_logicalI2R fresh (.inr nofun) (fun zeros => ?_) fun ones => ?_
  · refine computes_movUnlessSame rfl ?_
    simp [A64.Inst.eval, LogicalOp.apply, Operand.eval, zeros, Machine.get]
  · refine computes_single (by cases size <;> rfl) rfl ?_
    simp [Emitted.eval, A64.Inst.eval, LogicalOp.apply, Operand.eval, ones, Machine.get]

theorem computes_ANDSI2R : Computes m size scratch
    (.logical size.bits .and true (.name Rd) (.name Rn) (.imm imm))
    (ANDSI2R m.pc size (.name Rd) (.name Rn) imm (some (.name scratch))) := by
  refine computes_logicalI2R fresh (.inl rfl) (fun zeros => ?_) fun ones => ?_
  · refine computes_single (by cases size <;> rfl) rfl ?_
    simp [Emitted.eval, A64.Inst.eval, LogicalOp.apply, Operand.eval, zeros, Machine.get]
  · refine computes_single (by cases size <;> rfl) rfl ?_
    simp [Emitted.eval, A64.Inst.eval, LogicalOp.apply, Operand.eval, ones, Machine.get]

end

/-! ## Arithmetic -/

section
variable {w : Nat} (op : ArithOp) (x c : BitVec w)

theorem not_toInt (z : BitVec w) (pos : 0 < w) : (~~~z).toInt = -z.toInt - 1 := by
  obtain ⟨v, rfl⟩ : ∃ v, w = v + 1 := ⟨w - 1, by omega⟩
  have lt := z.isLt
  rw [BitVec.toInt_eq_toNat_cond, BitVec.toInt_eq_toNat_cond, BitVec.toNat_not]
  rw [Nat.pow_succ] at lt ⊢
  split <;> split <;> omega

theorem apply_flags (y : BitVec w) : (op.apply x y).2 =
    A64.flagsOf (op.apply x y).1 (op.apply x y).2.c (op.apply x y).2.v := by
  cases op <;> rfl

theorem add_overflow (y : BitVec w) :
    (ArithOp.add.apply x y).2.v = decide (x.toInt + y.toInt ≠ (x + y).toInt) := by
  show decide (x.toInt + y.toInt + _ ≠ (A64.addWithCarry x y false).1.toInt) = _
  rw [A64.addWithCarry_false_fst, Bool.toInt_false, Int.add_zero]

theorem sub_overflow (y : BitVec w) (pos : 0 < w) :
    (ArithOp.sub.apply x y).2.v = decide (x.toInt - y.toInt ≠ (x - y).toInt) := by
  show decide (x.toInt + (~~~y).toInt + _ ≠ (A64.addWithCarry x (~~~y) true).1.toInt) = _
  rw [A64.addWithCarry_not_true_fst, not_toInt y pos, Bool.toInt_true]
  congr 2
  rw [show x.toInt + (-y.toInt - 1) + 1 = x.toInt - y.toInt by omega]

/-- The instruction that takes the negation away does the same to all four flags, unless the
constant is its own negation. -/
theorem flipped_apply_neg_all (ne : c ≠ 0#w) (notMin : c ≠ BitVec.intMin w) (pos : 0 < w) :
    (flipped op).apply x (-c) = op.apply x c := by
  have first := JitArm64.Emit.flipped_apply_neg op x c
  have carry := JitArm64.Emit.flipped_apply_neg_carry op x c ne
  have negated := BitVec.toInt_neg_of_ne_intMin notMin
  have overflow : ((flipped op).apply x (-c)).2.v = (op.apply x c).2.v := by
    cases op with
    | add =>
        show (ArithOp.sub.apply x (-c)).2.v = _
        rw [sub_overflow x _ pos, add_overflow, negated, Int.sub_neg, BitVec.sub_neg]
    | sub =>
        show (ArithOp.add.apply x (-c)).2.v = _
        rw [sub_overflow x _ pos, add_overflow, negated, ← Int.sub_eq_add_neg,
          ← BitVec.sub_eq_add_neg]
  refine Prod.ext first ?_
  rw [apply_flags, first, carry, overflow, ← apply_flags]

end

theorem GPRSize.widthOk (size : GPRSize) : A64.widthOk size.bits = true := by cases size <;> rfl

theorem GPRSize.bits_ge (size : GPRSize) : 32 ≤ size.bits := by cases size <;> decide

/-- A constant that is its own negation is the one chosen. -/
theorem MOVI2R2_loads (m : Machine) (size : GPRSize) (Rd : Fin 31) (imm1 imm2 : BitVec 64) :
    ∃ code element, MOVI2R2 m.pc size (.name Rd) imm1 imm2 = some (code, element) ∧
      Loads m size Rd ((if element then imm2 else imm1).setWidth size.bits) (some code) ∧
      (element = true → imm1.setWidth size.bits ≠ imm2.setWidth size.bits) := by
  obtain ⟨code1, emitted1, loads1⟩ := MOVI2R_loads m size Rd imm1
  obtain ⟨code2, emitted2, loads2⟩ := MOVI2R_loads m size Rd imm2
  have second : MOVI2R2 m.pc size (.name Rd) imm1 imm2 =
      (MOVI2R m.pc size (.name Rd)
        (if decide (code1.length > code2.length) then imm2 else imm1)).bind fun code =>
          some (code, decide (code1.length > code2.length)) := by
    rw [MOVI2R2, emitted1, emitted2]
    rfl
  by_cases longer : code1.length > code2.length
  · refine ⟨code2, true, ?_, ⟨code2, rfl, loads2⟩, fun _ same => ?_⟩
    · rw [second, decide_eq_true longer, if_pos rfl, emitted2]
      rfl
    · have equal : MOVI2R m.pc size (.name Rd) imm1 = MOVI2R m.pc size (.name Rd) imm2 := by
        rw [MOVI2R, MOVI2R, same]
      rw [emitted1, emitted2] at equal
      rw [Option.some.inj equal] at longer
      exact absurd longer (Nat.lt_irrefl _)
  · refine ⟨code1, false, ?_, ⟨code1, rfl, loads1⟩, nofun⟩
    rw [second, decide_eq_false longer, if_neg Bool.false_ne_true, emitted1]
    rfl

section
variable {m : Machine} {size : GPRSize} {scratch : Fin 31} {Rn : Fin 31} {Rd : GPR} {flags : Bool}
  {op op' : ArithOp} {imm k : BitVec 64}

theorem name_ne_zr (r : Fin 31) : (.name r : GPR) ≠ .zr := by
  intro same
  cases same

theorem encodable_add (fits : A64.arithImm k = true) (ok : flags = true ∨ Rd ≠ .zr) (rn : Fin 31) :
    (Emitted.data (.arith size.bits op flags Rd (.name rn) (.imm k))).encodable = true := by
  have ok' : (flags || decide (Rd ≠ .zr)) = true := by simpa using ok
  show ((A64.widthOk size.bits && A64.arithImm k) &&
    (decide (A64.Reg.name rn ≠ .zr) && (flags || decide (Rd ≠ .zr)))) = true
  rw [fits, ok', size.widthOk]
  rfl

/-- One instruction with an immediate that does what the constant does. -/
theorem computes_add (fits : A64.arithImm k = true) (ok : flags = true ∨ Rd ≠ .zr)
    (same : ∀ x, op.apply x (k.setWidth size.bits) = op'.apply x (imm.setWidth size.bits)) :
    Computes m size scratch (.arith size.bits op' flags Rd (.name Rn) (.imm imm))
      (some [.data (.arith size.bits op flags Rd (.name Rn) (.imm k))]) := by
  refine computes_single (encodable_add fits ok Rn) rfl ?_
  simp only [Emitted.eval, A64.Inst.eval, Operand.eval, same]

/-- Two instructions that leave the flags alone. -/
theorem computes_add_add {Rd : Fin 31} {a b : BitVec 64} (fitsA : A64.arithImm a = true)
    (fitsB : A64.arithImm b = true)
    (same : ∀ x, (op.apply x (a.setWidth size.bits + b.setWidth size.bits)).1 =
      (op'.apply x (imm.setWidth size.bits)).1) :
    Computes m size scratch (.arith size.bits op' false (.name Rd) (.name Rn) (.imm imm))
      (some [.data (.arith size.bits op false (.name Rd) (.name Rn) (.imm a)),
        .data (.arith size.bits op false (.name Rd) (.name Rd) (.imm b))]) := by
  have first := @run_first m Rd (.data (.arith size.bits op false (.name Rd) (.name Rn) (.imm a)))
    ((op.apply ((m.x Rn).setWidth size.bits) (a.setWidth size.bits)).1.setWidth 64) rfl rfl
  have second := @Machine.step_moved m Rd
    ((op.apply ((m.x Rn).setWidth size.bits) (a.setWidth size.bits)).1.setWidth 64)
    ((op'.apply ((m.x Rn).setWidth size.bits) (imm.setWidth size.bits)).1.setWidth 64) 1
    (.data (.arith size.bits op false (.name Rd) (.name Rd) (.imm b))) rfl (by
      simp only [Emitted.eval, A64.Inst.eval, Operand.eval, Machine.get_moved, setWidth_back,
        JitArm64.Emit.apply_apply, same]
      rfl)
  refine ⟨_, m.moved Rd ((op'.apply ((m.x Rn).setWidth size.bits)
    (imm.setWidth size.bits)).1.setWidth 64) 2, rfl, ?_, ?_, ?_⟩
  · intro j member
    rcases List.mem_cons.mp member with rfl | member
    · exact @encodable_add size (.name Rd) false op a fitsA (.inr (name_ne_zr Rd)) Rn
    · rw [List.mem_singleton.mp member]
      exact @encodable_add size (.name Rd) false op b fitsB (.inr (name_ne_zr Rd)) Rd
  · have both := Machine.run_append m
      [.data (.arith size.bits op false (.name Rd) (.name Rn) (.imm a))]
      [.data (.arith size.bits op false (.name Rd) (.name Rd) (.imm b))]
    rw [first, Option.bind_some, Machine.run_singleton, second] at both
    exact both
  · have value : ∀ r, A64.Reg.name Rd = .name r → ∀ v, (m.moved Rd v 2).x r = v := by
      rintro r here v
      rw [← A64.Reg.name.inj here]
      exact Function.update_self Rd v m.x
    refine ⟨fun r here => ?_, fun r here _ => value r here _, rfl, fun r other _ => ?_⟩
    · rw [value r here]
      rfl
    · exact Function.update_of_ne (fun same => other (congrArg A64.Reg.name same.symm)) _ _

/-- A constant whose negation is small is neither zero nor its own negation. -/
theorem flipped_apply_small {kn : BitVec 64} {c : BitVec size.bits} (ne : c ≠ 0#_)
    (neg : kn.setWidth size.bits = -c) (small : kn.toNat < 2 ^ 24) (x : BitVec size.bits) :
    (flipped op').apply x (kn.setWidth size.bits) = op'.apply x c := by
  have ge := size.bits_ge
  have pow : (2 : Nat) ^ 31 ≤ 2 ^ (size.bits - 1) := Nat.pow_le_pow_right (by decide) (by omega)
  rw [neg]
  refine flipped_apply_neg_all op' x c ne (fun least => ?_) (by omega)
  rw [least, BitVec.neg_intMin] at neg
  have value := congrArg BitVec.toNat neg
  rw [BitVec.toNat_setWidth, BitVec.toNat_intMin,
    Nat.mod_eq_of_lt (Nat.pow_lt_pow_right (by decide) (by omega))] at value
  have := Nat.mod_le kn.toNat (2 ^ size.bits)
  omega

/-- The constant cut to the operand size, and its negation. -/
structure Cut (size : GPRSize) (imm k kn : BitVec 64) : Prop where
  same : k.setWidth size.bits = imm.setWidth size.bits
  neg : kn.setWidth size.bits = -imm.setWidth size.bits
  zero : k.setWidth size.bits = 0#_ → k = 0

theorem Cut.nonzero {kn : BitVec 64} (cut : Cut size imm k kn) (ne : k ≠ 0) :
    imm.setWidth size.bits ≠ 0#_ :=
  fun h => ne (cut.zero (cut.same.trans h))

/-- Zero changes nothing. -/
theorem Cut.unchanged {kn : BitVec 64} (cut : Cut size imm k kn) (zero : k = 0)
    (x : BitVec size.bits) : (op.apply x (imm.setWidth size.bits)).1 = x := by
  rw [← cut.same, zero, BitVec.ofNat_eq_ofNat, BitVec.setWidth_zero, JitArm64.Emit.apply_zero]

theorem arithImm_of_shifted (le : k ≤ 0xFFFFFF) (low : k &&& 0xFFF = 0) :
    A64.arithImm k = true := by
  have below : k.toNat ≤ 0xFFFFFF := le
  have fits := JitArm64.Emit.arithImm_shifted k (by omega)
  rwa [JitArm64.Emit.shift_back k low] at fits

section
variable {kn : BitVec 64} (cut : Cut size imm k kn)

include cut

theorem computes_direct (ok : flags = true ∨ Rd ≠ .zr) (fits : A64.arithImm k = true) :
    Computes m size scratch (.arith size.bits op' flags Rd (.name Rn) (.imm imm))
      (some [.data (.arith size.bits op' flags Rd (.name Rn) (.imm k))]) :=
  computes_add fits ok fun x => by rw [cut.same]

theorem computes_negated (ok : flags = true ∨ Rd ≠ .zr) (fits : A64.arithImm kn = true)
    (ne : k ≠ 0) :
    Computes m size scratch (.arith size.bits op' flags Rd (.name Rn) (.imm imm))
      (some [.data (.arith size.bits (flipped op') flags Rd (.name Rn) (.imm kn))]) := by
  refine computes_add fits ok fun x => ?_
  have small : kn.toNat < 2 ^ 24 := by
    simp only [A64.arithImm, decide_eq_true_eq] at fits
    omega
  exact flipped_apply_small (cut.nonzero ne) cut.neg small x

omit cut

/-- A constant of 24 bits in two additions, which must leave the flags alone. -/
theorem computes_two {i : BitVec 64} (ok : flags = true ∨ Rd ≠ .zr) (off : flags = false)
    (below : i < 0x1000000)
    (same : ∀ x, (op.apply x (i.setWidth size.bits)).1 =
      (op'.apply x (imm.setWidth size.bits)).1) :
    Computes m size scratch (.arith size.bits op' flags Rd (.name Rn) (.imm imm))
      (some [.data (.arith size.bits op false Rd (.name Rn) (.imm (i &&& 0xFFF))),
        .data (.arith size.bits op false Rd Rd (.imm (i >>> 12 <<< 12)))]) := by
  subst off
  have low : i &&& 0xFFF ≤ 0xFFF := by
    rw [BitVec.le_def, JitArm64.Emit.toNat_and_0xFFF]
    exact Nat.le_of_lt_succ (Nat.mod_lt _ (by decide))
  cases Rd with
  | zr => exact absurd rfl (ok.resolve_left nofun)
  | name d =>
      refine computes_add_add (JitArm64.Emit.arithImm_of_le _ low)
        (JitArm64.Emit.arithImm_shifted i below) fun x => ?_
      rw [← BitVec.setWidth_add _ _ size.bits_le, JitArm64.Emit.low_add_high, same]

/-- The constant or its negation in the scratch register. -/
theorem computes_register (cut : Cut size imm k kn) (fresh : scratch ≠ Rn) (ne : k ≠ 0) :
    Computes m size scratch (.arith size.bits op' flags Rd (.name Rn) (.imm imm))
      ((MOVI2R2 m.pc size (.name scratch) k kn).map fun (code, element) =>
        code ++ [.data (.arith size.bits (if element then flipped op' else op') flags Rd (.name Rn)
          (.reg (.name scratch)))]) := by
  obtain ⟨code, element, emitted, loads, differ⟩ := MOVI2R2_loads m size scratch k kn
  rw [emitted]
  refine computes_scratch loads (by cases size <;> rfl) rfl fun n => ?_
  simp only [A64.Inst.eval, Operand.eval, Machine.get_moved_of_ne fresh, Machine.get_moved,
    setWidth_back]
  cases element with
  | false =>
      simp only [Bool.false_eq_true, if_false, cut.same]
  | true =>
      have differ := differ rfl
      rw [cut.same, cut.neg] at differ
      simp only [if_true, cut.neg]
      rw [flipped_apply_neg_all op' _ _ (cut.nonzero ne) ?_ (by have := size.bits_ge; omega)]
      intro least
      rw [least, BitVec.neg_intMin] at differ
      exact differ rfl

end

theorem computes_ADDI2R_internal (fresh : scratch ≠ Rn) (ok : flags = true ∨ Rd ≠ .zr)
    (negative : Bool) :
    Computes m size scratch
      (.arith size.bits (if negative then .sub else .add) flags Rd (.name Rn) (.imm imm))
      (ADDI2R_internal m.pc size Rd (.name Rn) imm negative flags (some (.name scratch))) := by
  obtain ⟨k, kn, hk, hkn, same, neg, zero⟩ := JitArm64.Emit.cut_constant size.widthOk imm
  have cut : Cut size imm k kn := ⟨same, neg, zero⟩
  have other : (if (!negative) then ArithOp.sub else .add) =
      flipped (if negative then .sub else .add) := by cases negative <;> rfl
  have chosen : ∀ element : Bool, (if negative ^^ element then ArithOp.sub else .add) =
      if element then flipped (if negative then .sub else .add)
      else if negative then .sub else .add := by
    intro element
    cases negative <;> cases element <;> rfl
  unfold ADDI2R_internal AddImmediate
  dsimp only
  rw [hk, hkn, other]
  simp only [chosen]
  generalize (if negative then ArithOp.sub else .add) = op
  by_cases nothing : k = 0 ∧ flags = false ∧ Rd = .name Rn
  · rw [if_pos nothing]
    obtain ⟨rfl, rfl, rfl⟩ := nothing
    refine computes_nothing rfl fun r here => ?_
    rw [← A64.Reg.name.inj here]
    simp only [A64.Inst.eval, Operand.eval, cut.unchanged rfl, setWidth_back]
    rfl
  rw [if_neg nothing]
  by_cases move : k = 0 ∧ flags = false ∧ Rd ≠ .zr ∧ A64.Reg.name Rn ≠ .zr
  · rw [if_pos move]
    obtain ⟨none_, rfl, -⟩ := move
    refine computes_single (by cases size <;> rfl) rfl ?_
    simp only [Emitted.eval, A64.Inst.eval, LogicalOp.apply, Operand.eval, cut.unchanged none_,
      Machine.get, Bool.false_eq_true, if_false]
    simp
  rw [if_neg move]
  by_cases small : k ≤ 0xFFF
  · rw [if_pos small]
    exact computes_direct cut ok (JitArm64.Emit.arithImm_of_le k small)
  rw [if_neg small]
  have ne : k ≠ 0 := by
    rintro rfl
    exact small (by decide)
  by_cases shifted : k ≤ 0xFFFFFF ∧ k &&& 0xFFF = 0
  · rw [if_pos shifted, if_pos trivial, JitArm64.Emit.shift_back k shifted.2]
    exact computes_direct cut ok (arithImm_of_shifted shifted.1 shifted.2)
  rw [if_neg shifted]
  by_cases smallNeg : kn ≤ 0xFFF
  · rw [if_pos smallNeg]
    exact computes_negated cut ok (JitArm64.Emit.arithImm_of_le kn smallNeg) ne
  rw [if_neg smallNeg]
  by_cases shiftedNeg : kn ≤ 0xFFFFFF ∧ kn &&& 0xFFF = 0
  · rw [if_pos shiftedNeg, if_pos trivial, JitArm64.Emit.shift_back kn shiftedNeg.2]
    exact computes_negated cut ok (arithImm_of_shifted shiftedNeg.1 shiftedNeg.2) ne
  rw [if_neg shiftedNeg]
  by_cases inTwo : flags = false ∧
      (0x10000 ≤ k ∨ (some (A64.Reg.name scratch) : Option GPR) = none) ∧ k < 0x1000000
  · rw [if_pos inTwo]
    exact computes_two ok inTwo.1 inTwo.2.2 fun x => by rw [cut.same]
  rw [if_neg inTwo]
  by_cases inTwoNeg : flags = false ∧
      (0x10000 ≤ kn ∨ (some (A64.Reg.name scratch) : Option GPR) = none) ∧ kn < 0x1000000
  · rw [if_pos inTwoNeg]
    exact computes_two ok inTwoNeg.1 inTwoNeg.2.2 fun x => by
      rw [cut.neg, JitArm64.Emit.flipped_apply_neg]
  rw [if_neg inTwoNeg]
  exact computes_register cut fresh ne

end

/-- Every constant is loaded exactly at every address, and the instructions with a constant do
what the instruction with the constant in a register does, for the flags as well. -/
theorem immediates_exact (m : Machine) (size : GPRSize) (imm : BitVec 64) :
    (∀ Rd : Fin 31, Loads m size Rd (imm.setWidth size.bits) (MOVI2R m.pc size (.name Rd) imm)) ∧
    ∀ Rd Rn scratch : Fin 31, scratch ≠ Rn →
      let w := size.bits
      let s := some (.name scratch)
      Computes m size scratch (.arith w .add false (.name Rd) (.name Rn) (.imm imm))
        (ADDI2R m.pc size (.name Rd) (.name Rn) imm s) ∧
      Computes m size scratch (.arith w .sub false (.name Rd) (.name Rn) (.imm imm))
        (SUBI2R m.pc size (.name Rd) (.name Rn) imm s) ∧
      Computes m size scratch (.arith w .add true (.name Rd) (.name Rn) (.imm imm))
        (ADDSI2R m.pc size (.name Rd) (.name Rn) imm s) ∧
      Computes m size scratch (.arith w .sub true (.name Rd) (.name Rn) (.imm imm))
        (SUBSI2R m.pc size (.name Rd) (.name Rn) imm s) ∧
      Computes m size scratch (.arith w .sub true .zr (.name Rn) (.imm imm))
        (CMPI2R m.pc size (.name Rn) imm s) ∧
      Computes m size scratch (.logical w .and false (.name Rd) (.name Rn) (.imm imm))
        (ANDI2R m.pc size (.name Rd) (.name Rn) imm s) ∧
      Computes m size scratch (.logical w .orr false (.name Rd) (.name Rn) (.imm imm))
        (ORRI2R m.pc size (.name Rd) (.name Rn) imm s) ∧
      Computes m size scratch (.logical w .eor false (.name Rd) (.name Rn) (.imm imm))
        (EORI2R m.pc size (.name Rd) (.name Rn) imm s) ∧
      Computes m size scratch (.logical w .and true (.name Rd) (.name Rn) (.imm imm))
        (ANDSI2R m.pc size (.name Rd) (.name Rn) imm s) := by
  refine ⟨fun Rd => MOVI2R_loads m size Rd imm, fun Rd Rn scratch fresh => ?_⟩
  have named := name_ne_zr Rd
  exact ⟨computes_ADDI2R_internal fresh (.inr named) false,
    computes_ADDI2R_internal fresh (.inr named) true,
    computes_ADDI2R_internal fresh (.inl rfl) false,
    computes_ADDI2R_internal fresh (.inl rfl) true,
    computes_ADDI2R_internal fresh (.inl rfl) true,
    computes_ANDI2R imm Rd fresh, computes_ORRI2R imm Rd fresh, computes_EORI2R imm Rd fresh,
    computes_ANDSI2R imm Rd fresh⟩

/-- The least 32-bit number, which is its own negation. -/
theorem immediates_exact_least :
    Computes ⟨fun _ => 1, ⟨false, false, false, false⟩, 0x4000⟩ .B32 2
      (.arith 32 .sub true .zr (.name 1) (.imm 0x80000000))
      (CMPI2R 0x4000 .B32 (.name 1) 0x80000000 (some (.name 2))) :=
  ((immediates_exact ⟨fun _ => 1, ⟨false, false, false, false⟩, 0x4000⟩ .B32 0x80000000).2 0 1 2
    (by decide)).2.2.2.2.1

end Phocoena.Arm64Emitter
