import Mathlib.Logic.Function.Basic
import Mathlib.Tactic.Ring

/-! # AArch64 data processing

The integer data-processing instructions of AArch64 over an arbitrary set of register
names `ρ`. An instruction has a destination, a list of sources and a value computed from
them and the condition flags; executing it writes the destination. A width `w` of 32 or 64
selects the W or X form. The W form reads the low words of its operands and zero-extends its
result, since `Inst.eval` always returns all 64 bits.
-/

namespace Phocoena.A64

/-- A register operand: a name, or the zero register. -/
inductive Reg (ρ : Type) where
  | name (r : ρ)
  | zr
  deriving DecidableEq, Repr

structure NZCV where
  n : Bool
  z : Bool
  c : Bool
  v : Bool
  deriving DecidableEq, Repr

inductive Cond where
  | eq | ne | cs | cc | mi | pl | vs | vc
  deriving DecidableEq, Repr

def Cond.holds : Cond → NZCV → Bool
  | .eq, f => f.z
  | .ne, f => !f.z
  | .cs, f => f.c
  | .cc, f => !f.c
  | .mi, f => f.n
  | .pl, f => !f.n
  | .vs, f => f.v
  | .vc, f => !f.v

def Cond.invert : Cond → Cond
  | .eq => .ne
  | .ne => .eq
  | .cs => .cc
  | .cc => .cs
  | .mi => .pl
  | .pl => .mi
  | .vs => .vc
  | .vc => .vs

inductive ShiftType where
  | lsl | lsr | asr | ror
  deriving DecidableEq, Repr

def ShiftType.apply {w : Nat} : ShiftType → BitVec w → Nat → BitVec w
  | .lsl, x, n => x <<< n
  | .lsr, x, n => x >>> n
  | .asr, x, n => x.sshiftRight n
  | .ror, x, n => x.rotateRight n

/-- The second source of an arithmetic or logical instruction. -/
inductive Operand (ρ : Type) where
  | reg (r : Reg ρ)
  | shifted (r : Reg ρ) (t : ShiftType) (amount : Nat)
  | sxtw (r : Reg ρ)
  | imm (value : BitVec 64)
  deriving DecidableEq, Repr

inductive LogicalOp where
  | and | orr | eor | bic | orn | eon
  deriving DecidableEq, Repr

def LogicalOp.apply {w : Nat} : LogicalOp → BitVec w → BitVec w → BitVec w
  | .and, x, y => x &&& y
  | .orr, x, y => x ||| y
  | .eor, x, y => x ^^^ y
  | .bic, x, y => x &&& ~~~y
  | .orn, x, y => x ||| ~~~y
  | .eon, x, y => x ^^^ ~~~y

inductive ArithOp where
  | add | sub
  deriving DecidableEq, Repr

/-- What a conditional select does to its second source. -/
inductive SelectOp where
  | csel | csinc | csinv
  deriving DecidableEq, Repr

def SelectOp.apply {w : Nat} : SelectOp → BitVec w → BitVec w
  | .csel, x => x
  | .csinc, x => x + 1
  | .csinv, x => ~~~x

inductive Inst (ρ : Type) where
  /-- A constant, however many `MOVZ`, `MOVN` and `MOVK` it takes. -/
  | movi (w : Nat) (rd : Reg ρ) (value : BitVec 64)
  | logical (w : Nat) (op : LogicalOp) (setFlags : Bool) (rd rn : Reg ρ) (o : Operand ρ)
  | arith (w : Nat) (op : ArithOp) (setFlags : Bool) (rd rn : Reg ρ) (o : Operand ρ)
  /-- `ADC(S)` and `SBC(S)`. -/
  | carry (w : Nat) (op : ArithOp) (setFlags : Bool) (rd rn rm : Reg ρ)
  | ubfm (w : Nat) (rd rn : Reg ρ) (immr imms : Nat)
  | sbfm (w : Nat) (rd rn : Reg ρ) (immr imms : Nat)
  | bfm (w : Nat) (rd rn : Reg ρ) (immr imms : Nat)
  /-- `EXTR` with both sources equal. -/
  | ror (w : Nat) (rd rn : Reg ρ) (amount : Nat)
  | shiftv (w : Nat) (t : ShiftType) (rd rn rm : Reg ρ)
  | clz (w : Nat) (rd rn : Reg ρ)
  | select (w : Nat) (op : SelectOp) (rd rn rm : Reg ρ) (cond : Cond)
  | ccmn (w : Nat) (rn : Reg ρ) (imm : BitVec 5) (otherwise : NZCV) (cond : Cond)
  /-- `MADD` and `MSUB`. -/
  | mulAdd (w : Nat) (op : ArithOp) (rd rn rm ra : Reg ρ)
  | umaddl (rd rn rm ra : Reg ρ)
  | smaddl (rd rn rm ra : Reg ρ)
  | udiv (w : Nat) (rd rn rm : Reg ρ)
  | sdiv (w : Nat) (rd rn rm : Reg ρ)
  deriving DecidableEq, Repr

/-! ## Encodable instructions

Amounts, bit positions and immediates that fit the fields of the instruction. Which values
a logical instruction takes as an immediate is the assembler's to say. -/

section
variable {ρ : Type}

def widthOk (w : Nat) : Bool := w = 32 ∨ w = 64

@[simp] theorem widthOk_32 : widthOk 32 = true := rfl

@[simp] theorem widthOk_64 : widthOk 64 = true := rfl

/-- A 12-bit immediate, or one shifted left by 12. -/
def arithImm (value : BitVec 64) : Bool :=
  value.toNat < 2 ^ 12 ∨ value.toNat % 2 ^ 12 = 0 ∧ value.toNat < 2 ^ 24

@[simp] def Operand.encodable (w : Nat) (imm : BitVec 64 → Bool) : Operand ρ → Bool
  | .reg _ | .sxtw _ => true
  | .shifted _ _ amount => amount < w
  | .imm value => imm value

@[simp] def Inst.encodable (logicalImm : Nat → BitVec 64 → Bool) : Inst ρ → Bool
  | movi w .. | carry w .. | shiftv w .. | clz w .. | select w .. | ccmn w .. | mulAdd w ..
  | udiv w .. | sdiv w .. => widthOk w
  | logical w _ _ _ _ o => widthOk w && o.encodable w (logicalImm w)
  | arith w _ _ _ _ o => widthOk w && o.encodable w arithImm
  | ubfm w _ _ immr imms | sbfm w _ _ immr imms | bfm w _ _ immr imms =>
      widthOk w && decide (immr < w ∧ imms < w)
  | ror w _ _ amount => widthOk w && decide (amount < w)
  | umaddl .. | smaddl .. => true

end

/-! ## Arithmetic with flags -/

section
variable {w : Nat}

def flagsOf (r : BitVec w) (c v : Bool) : NZCV := ⟨r.msb, r == 0, c, v⟩

/-- `AddWithCarry` of the architecture manual. -/
def addWithCarry (x y : BitVec w) (c : Bool) : BitVec w × NZCV :=
  let r := x + y + if c then 1#w else 0#w
  (r, flagsOf r (decide (2 ^ w ≤ x.toNat + y.toNat + c.toNat))
    (decide (x.toInt + y.toInt + c.toInt ≠ r.toInt)))

/-- The second operand and the carry in that turn an addition into `op`. -/
def ArithOp.apply : ArithOp → BitVec w → BitVec w → BitVec w × NZCV
  | .add, x, y => addWithCarry x y false
  | .sub, x, y => addWithCarry x (~~~y) true

def ArithOp.applyCarry : ArithOp → BitVec w → BitVec w → Bool → BitVec w × NZCV
  | .add, x, y, c => addWithCarry x y c
  | .sub, x, y, c => addWithCarry x (~~~y) c

@[simp] theorem addWithCarry_false_fst (x y : BitVec w) :
    (addWithCarry x y false).1 = x + y := by simp [addWithCarry]

@[simp] theorem addWithCarry_not_true_fst (x y : BitVec w) :
    (addWithCarry x (~~~y) true).1 = x - y := by
  simp only [addWithCarry, if_true, BitVec.sub_eq_add_neg, BitVec.neg_eq_not_add, BitVec.add_assoc]

@[simp] theorem addWithCarry_false_carry (x y : BitVec w) :
    (addWithCarry x y false).2.c = decide (2 ^ w ≤ x.toNat + y.toNat) := rfl

@[simp] theorem addWithCarry_not_true_carry (x y : BitVec w) :
    (addWithCarry x (~~~y) true).2.c = decide (y ≤ x) := by
  have := y.isLt
  simp only [addWithCarry, flagsOf, BitVec.toNat_not, Bool.toNat_true, BitVec.le_def,
    decide_eq_decide]
  omega

end

/-! ## Evaluation -/

section
variable {ρ : Type}

abbrev Operand.source : Operand ρ → List (Reg ρ)
  | .reg r => [r]
  | .shifted r _ _ => [r]
  | .sxtw r => [r]
  | .imm _ => []

def Operand.eval (w : Nat) (get : Reg ρ → BitVec 64) : Operand ρ → BitVec w
  | .reg r => (get r).setWidth w
  | .shifted r t amount => t.apply ((get r).setWidth w) amount
  | .sxtw r => ((get r).setWidth 32).signExtend w
  | .imm value => value.setWidth w

/-- The `n` low bits of a word. -/
def lowMask (w n : Nat) : BitVec w := BitVec.ofNat w (2 ^ n - 1)

/-- The bits of the destination a bitfield move writes. -/
def fieldMask (w immr imms : Nat) : BitVec w :=
  if immr ≤ imms then lowMask w (imms - immr + 1) else lowMask w (imms + 1) <<< (w - immr)

/-- The source field of a bitfield move, where it lands in the destination. -/
def bitfield {w : Nat} (x : BitVec w) (immr imms : Nat) : BitVec w :=
  if immr ≤ imms then x >>> immr &&& lowMask w (imms - immr + 1)
  else (x &&& lowMask w (imms + 1)) <<< (w - immr)

/-- The source field of a bitfield move with its sign replicated above it. -/
def signedBitfield {w : Nat} (x : BitVec w) (immr imms : Nat) : BitVec w :=
  if immr ≤ imms then (x <<< (w - 1 - imms)).sshiftRight (w - 1 - imms + immr)
  else (x <<< (w - 1 - imms)).sshiftRight (w - 1 - imms) <<< (w - immr)

namespace Inst

@[simp] def dest : Inst ρ → Reg ρ
  | movi _ rd _ | logical _ _ _ rd _ _ | arith _ _ _ rd _ _ | carry _ _ _ rd _ _
  | ubfm _ rd _ _ _ | sbfm _ rd _ _ _ | bfm _ rd _ _ _ | ror _ rd _ _ | shiftv _ _ rd _ _
  | clz _ rd _ | select _ _ rd _ _ _ | mulAdd _ _ rd _ _ _ | umaddl rd _ _ _ | smaddl rd _ _ _
  | udiv _ rd _ _ | sdiv _ rd _ _ => rd
  | ccmn .. => .zr

@[simp] def sources : Inst ρ → List (Reg ρ)
  | movi .. => []
  | logical _ _ _ _ rn o | arith _ _ _ _ rn o => rn :: o.source
  | carry _ _ _ _ rn rm | shiftv _ _ _ rn rm | select _ _ _ rn rm _ | udiv _ _ rn rm
  | sdiv _ _ rn rm => [rn, rm]
  | ubfm _ _ rn _ _ | sbfm _ _ rn _ _ | ror _ _ rn _ | clz _ _ rn | ccmn _ rn _ _ _ => [rn]
  | bfm _ rd rn _ _ => [rd, rn]
  | mulAdd _ _ _ rn rm ra | umaddl _ rn rm ra | smaddl _ rn rm ra => [rn, rm, ra]

/-- The result and the flags after an instruction, from the values of its sources. -/
def eval (get : Reg ρ → BitVec 64) (f : NZCV) : Inst ρ → BitVec 64 × NZCV
  | movi w _ value => ((value.setWidth w).setWidth 64, f)
  | logical w op setFlags _ rn o =>
      let r := op.apply ((get rn).setWidth w) (o.eval w get)
      (r.setWidth 64, if setFlags then flagsOf r false false else f)
  | arith w op setFlags _ rn o =>
      let r := op.apply ((get rn).setWidth w) (o.eval w get)
      (r.1.setWidth 64, if setFlags then r.2 else f)
  | carry w op setFlags _ rn rm =>
      let r := op.applyCarry ((get rn).setWidth w) ((get rm).setWidth w) f.c
      (r.1.setWidth 64, if setFlags then r.2 else f)
  | ubfm w _ rn immr imms => ((bitfield ((get rn).setWidth w) immr imms).setWidth 64, f)
  | sbfm w _ rn immr imms => ((signedBitfield ((get rn).setWidth w) immr imms).setWidth 64, f)
  | bfm w rd rn immr imms =>
      let mask := fieldMask w immr imms
      (((get rd).setWidth w &&& ~~~mask |||
        bitfield ((get rn).setWidth w) immr imms).setWidth 64, f)
  | ror w _ rn amount => ((((get rn).setWidth w).rotateRight amount).setWidth 64, f)
  | shiftv w t _ rn rm =>
      ((t.apply ((get rn).setWidth w) (((get rm).setWidth w).toNat % w)).setWidth 64, f)
  | clz w _ rn => ((((get rn).setWidth w).clz).setWidth 64, f)
  | select w op _ rn rm cond =>
      ((if cond.holds f then (get rn).setWidth w else op.apply ((get rm).setWidth w)).setWidth 64, f)
  | ccmn w rn imm otherwise cond =>
      (0, if cond.holds f then (addWithCarry ((get rn).setWidth w) (imm.setWidth w) false).2
        else otherwise)
  | mulAdd w op _ rn rm ra =>
      ((op.apply ((get ra).setWidth w) ((get rn).setWidth w * (get rm).setWidth w)).1.setWidth 64, f)
  | umaddl _ rn rm ra =>
      (get ra + ((get rn).setWidth 32).setWidth 64 * ((get rm).setWidth 32).setWidth 64, f)
  | smaddl _ rn rm ra =>
      (get ra + ((get rn).setWidth 32).signExtend 64 * ((get rm).setWidth 32).signExtend 64, f)
  | udiv w _ rn rm => (((get rn).setWidth w / (get rm).setWidth w).setWidth 64, f)
  | sdiv w _ rn rm => ((((get rn).setWidth w).sdiv ((get rm).setWidth w)).setWidth 64, f)

/-- An instruction depends on its sources only. -/
theorem eval_congr (i : Inst ρ) (f : NZCV) {get get' : Reg ρ → BitVec 64}
    (agree : ∀ r ∈ i.sources, get r = get' r) : i.eval get f = i.eval get' f := by
  have operand : ∀ (w : Nat) (o : Operand ρ), (∀ r ∈ o.source, get r = get' r) →
      o.eval w get = o.eval w get' := by
    intro w o h
    cases o <;> simp_all [Operand.eval]
  cases i with
  | logical w op s rd rn o | arith w op s rd rn o =>
      have hn := agree rn (by simp)
      have ho := operand w o fun r hr => agree r (by simp [hr])
      simp only [eval, hn, ho]
  | _ =>
      simp only [sources, List.mem_cons, List.not_mem_nil, or_false, forall_eq_or_imp,
        forall_eq] at agree
      simp only [eval, agree]

/-! ## Aliases -/

abbrev mov (w : Nat) (rd rm : Reg ρ) : Inst ρ := logical w .orr false rd .zr (.reg rm)

abbrev mvn (w : Nat) (rd rm : Reg ρ) : Inst ρ := logical w .orn false rd .zr (.reg rm)

abbrev neg (w : Nat) (rd : Reg ρ) (o : Operand ρ) : Inst ρ := arith w .sub false rd .zr o

abbrev negs (w : Nat) (rd rm : Reg ρ) : Inst ρ := arith w .sub true rd .zr (.reg rm)

abbrev cmp (w : Nat) (rn : Reg ρ) (o : Operand ρ) : Inst ρ := arith w .sub true .zr rn o

abbrev cmn (w : Nat) (rn : Reg ρ) (o : Operand ρ) : Inst ρ := arith w .add true .zr rn o

abbrev tst (w : Nat) (rn : Reg ρ) (o : Operand ρ) : Inst ρ := logical w .and true .zr rn o

abbrev lsl (w : Nat) (rd rn : Reg ρ) (shift : Nat) : Inst ρ :=
  ubfm w rd rn ((w - shift) % w) (w - 1 - shift)

abbrev lsr (w : Nat) (rd rn : Reg ρ) (shift : Nat) : Inst ρ := ubfm w rd rn shift (w - 1)

abbrev asr (w : Nat) (rd rn : Reg ρ) (shift : Nat) : Inst ρ := sbfm w rd rn shift (w - 1)

abbrev ubfx (w : Nat) (rd rn : Reg ρ) (lsb width : Nat) : Inst ρ :=
  ubfm w rd rn lsb (lsb + width - 1)

abbrev ubfiz (w : Nat) (rd rn : Reg ρ) (lsb width : Nat) : Inst ρ :=
  ubfm w rd rn ((w - lsb) % w) (width - 1)

abbrev bfi (w : Nat) (rd rn : Reg ρ) (lsb width : Nat) : Inst ρ :=
  bfm w rd rn ((w - lsb) % w) (width - 1)

abbrev bfxil (w : Nat) (rd rn : Reg ρ) (lsb width : Nat) : Inst ρ :=
  bfm w rd rn lsb (lsb + width - 1)

abbrev sxtw (rd rn : Reg ρ) : Inst ρ := sbfm 64 rd rn 0 31

abbrev cset (w : Nat) (rd : Reg ρ) (cond : Cond) : Inst ρ :=
  select w .csinc rd .zr .zr cond.invert

abbrev csetm (w : Nat) (rd : Reg ρ) (cond : Cond) : Inst ρ :=
  select w .csinv rd .zr .zr cond.invert

abbrev mul (w : Nat) (rd rn rm : Reg ρ) : Inst ρ := mulAdd w .add rd rn rm .zr

abbrev mneg (w : Nat) (rd rn rm : Reg ρ) : Inst ρ := mulAdd w .sub rd rn rm .zr

abbrev smull (rd rn rm : Reg ρ) : Inst ρ := smaddl rd rn rm .zr

abbrev umull (rd rn rm : Reg ρ) : Inst ρ := umaddl rd rn rm .zr

end Inst

end

/-! ## Shifts as bitfield moves -/

section
variable {w : Nat}

@[simp] theorem getLsbD_lowMask (n i : Nat) :
    (lowMask w n).getLsbD i = decide (i < w ∧ i < n) := by
  simp [lowMask, BitVec.getLsbD_ofNat, Nat.testBit_two_pow_sub_one]

theorem bitfield_lsr (x : BitVec w) {n : Nat} (hn : n < w) :
    bitfield x n (w - 1) = x >>> n := by
  apply BitVec.eq_of_getLsbD_eq
  intro i hi
  rw [bitfield, if_pos (by omega)]
  by_cases inside : n + i < w
  · have : i < w - 1 - n + 1 := by omega
    simp [this, hi]
  · have : x.getLsbD (n + i) = false := BitVec.getLsbD_of_ge _ _ (by omega)
    simp [this]

theorem signedBitfield_asr (x : BitVec w) {n : Nat} (hn : n < w) :
    signedBitfield x n (w - 1) = x.sshiftRight n := by
  rw [signedBitfield, if_pos (by omega)]
  simp

@[simp] theorem signedBitfield_sxtw (x : BitVec 64) :
    signedBitfield x 0 31 = (x.setWidth 32).signExtend 64 := by
  apply BitVec.eq_of_getLsbD_eq
  intro i hi
  rw [signedBitfield, if_pos (by omega), BitVec.getLsbD_sshiftRight, BitVec.getLsbD_signExtend]
  by_cases low : i < 32
  · have : 32 + i < 64 ∧ 31 < 63 := by omega
    simp [hi, low, this]
  · have : ¬ 32 + i < 64 ∧ ¬ 64 ≤ i := by omega
    simp [hi, low, this, BitVec.msb_eq_getLsbD_last]

/-! The same at the two operand sizes, with the field positions as simp leaves them. -/

@[simp] theorem bitfield_lsr_32 (x : BitVec 32) {n : Nat} (hn : n < 32) :
    bitfield x n 31 = x >>> n := bitfield_lsr x hn

@[simp] theorem bitfield_lsr_64 (x : BitVec 64) {n : Nat} (hn : n < 64) :
    bitfield x n 63 = x >>> n := bitfield_lsr x hn

@[simp] theorem signedBitfield_asr_32 (x : BitVec 32) {n : Nat} (hn : n < 32) :
    signedBitfield x n 31 = x.sshiftRight n := signedBitfield_asr x hn

@[simp] theorem signedBitfield_asr_64 (x : BitVec 64) {n : Nat} (hn : n < 64) :
    signedBitfield x n 63 = x.sshiftRight n := signedBitfield_asr x hn

end

end Phocoena.A64
