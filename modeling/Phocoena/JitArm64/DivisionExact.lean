import Phocoena.JitArm64.Outcome
import Phocoena.JitArm64.Quotients

/-! # Division by a known divisor

What the code emitted by `divwux` and `divwx` leaves in the destination, and for which divisors
that is the interpreter's quotient.
-/

namespace Phocoena.JitArm64

open A64 Gekko JitCommon Emit FixedWidth Interpreter

section
variable {v : View} {Q : Unit → View → Prop} {a d : BitVec 5} {x : BitVec 32}

/-- The code after the registers are bound: the dividend is in `a`, and `d` may be written. -/
theorem wp_divwxByMultiplication (divisor : BitVec 32) (allocateReg : Bool) {m : SignedMagic}
    (magic : signedDivisionConstants 64 divisor = some m) (shift : m.shift.toNat < 32)
    (running : v.pending = none) (writable : v.writable (.gpr d))
    (clean : ∀ g, v.tainted g → g ≠ .gpr d) (xa : v.x (.guest (.gpr a)) = x.setWidth 64)
    (post : ∀ v', Wrote d (multiplied divisor m x) false v v' → CarryKept True v v' → Q () v') :
    (divwxByMultiplication a d divisor allocateReg).wp View.spec Q v := by
  unfold multiplied at post
  have shift' : 32 + m.shift.toNat < 64 := by omega
  simp only [divwxByMultiplication, magic]
  cases allocateReg <;> simp [running, writable] <;> split_ifs at post ⊢ <;>
    first | refine ⟨shift, post _ ?_ ⟨rfl, rfl, fun _ => rfl⟩⟩
          | refine ⟨shift', post _ ?_ ⟨rfl, rfl, fun _ => rfl⟩⟩
  all_goals
    constructor <;>
      simp +contextual [Inst.eval, Operand.eval, xa, ArithOp.apply, ShiftType.apply, shift', clean]

/-- The divisors whose code sets the host flags: `NEGS` for minus one and `TST` for the powers of
two from four on and their negations. -/
def ClobbersFlags (divisor : BitVec 32) : Prop :=
  divisor = -1 ∨ ¬ (divisor = 0 ∨ divisor = 1 ∨ divisor = 2 ∨ divisor = -2) ∧
    (isPow2Signed divisor = true ∨ isPow2Signed (-divisor.signExtend 64) = true)

/-- `NEGS` overflows for the least number only. -/
theorem negs_overflow (x : BitVec 32) :
    (ArithOp.sub.apply 0#32 x).2.v = decide (x = 0x80000000) := by
  have result : (ArithOp.sub.apply 0#32 x).1 = 0#32 - x := addWithCarry_not_true_fst _ _
  have unfolded : (ArithOp.sub.apply 0#32 x).2.v =
      decide ((0#32).toInt + (~~~x).toInt + 1 ≠ (ArithOp.sub.apply 0#32 x).1.toInt) := rfl
  rw [unfolded, result, toInt_not, BitVec.toInt_zero, decide_eq_decide]
  by_cases least : x = 0x80000000
  · subst least
    decide
  · rw [toInt_sub_zero least]
    simp only [least, iff_false]
    omega

section
variable (running : v.pending = none) (writable : v.writable (.gpr d))
  (clean : ∀ g, v.tainted g → g ≠ .gpr d) (xa : v.x (.guest (.gpr a)) = x.setWidth 64)

include running writable clean xa

theorem wp_divideByMinusOne
    (post : ∀ v', Wrote d (if x = 0x80000000 then 0xFFFFFFFF else 0#32 - x) false v v' →
      CarryKept False v v' → Q () v') :
    (do data (.negs 32 (← r d) (← r a))
        data (.select 32 .csinv (← r d) (← r d) .zr .vc) : Emit Unit).wp View.spec Q v := by
  simp [running, writable]
  refine post _ ?_ ⟨rfl, rfl, fun h => h.elim⟩
  constructor
  · simp [Inst.eval, Operand.eval, xa, SelectOp.apply, Cond.holds, negs_overflow]
    split <;> simp [ArithOp.apply, *]
  all_goals simp +contextual [clean]

theorem wp_divideByTwo (divisor : BitVec 32)
    (post : ∀ v', Wrote d (if divisor.slt 0 then 0#32 - (x + x >>> 31).sshiftRight 1
      else (x + x >>> 31).sshiftRight 1) false v v' → CarryKept True v v' → Q () v') :
    (do let ra ← r a
        let rd ← r d
        data (.arith 32 .add false rd ra (.shifted ra .lsr 31))
        if divisor.slt 0 then data (.neg 32 rd (.shifted rd .asr 1))
        else data (.asr 32 rd rd 1) : Emit Unit).wp View.spec Q v := by
  simp only [BitVec.ofNat_eq_ofNat] at post
  simp [running, writable]
  split_ifs at post ⊢
  all_goals
    refine post _ ?_ ⟨rfl, rfl, fun _ => rfl⟩
    constructor <;>
      simp +contextual [Inst.eval, Operand.eval, xa, ShiftType.apply, ArithOp.apply, clean]

/-- Division by `±2 ^ k` with the rounded dividend in `t`. -/
theorem wp_divideRounded (divisor absVal : BitVec 32) {t : HostReg} {k : Nat} (hk : k < 32)
    (residentA : v.resident (.gpr a))
    (readable : v.readable (.name t)) (assignable : v.assignable (.name t))
    (apart : t ≠ .guest (.gpr a)) (own : ∀ g, t = .guest g → g = .gpr d)
    (post : ∀ y v', y = (if x.msb = false then x else x + (absVal - 1)) →
      Wrote d (if divisor.slt 0 then 0#32 - y.sshiftRight k else y.sshiftRight k) false v v' →
      CarryKept False v v' → Q () v') :
    (do data (.tst 32 (.name (.guest (.gpr a))) (.reg (.name (.guest (.gpr a)))))
        addI2R 32 (.name t) (.name (.guest (.gpr a))) ((absVal - 1).setWidth 64) (.name t)
        data (.select 32 .csel (.name t) (.name (.guest (.gpr a))) (.name t) .pl)
        if divisor.slt 0 then
          data (.neg 32 (.name (.guest (.gpr d))) (.shifted (.name t) .asr k))
        else data (.asr 32 (.name (.guest (.gpr d))) (.name t) k) : Emit Unit).wp
      View.spec Q v := by
  simp only [BitVec.ofNat_eq_ofNat] at post
  rw [Program.wp_bind, wp_data _ running]
  refine ⟨rfl, by simpa using residentA, trivial, ?_⟩
  rw [Program.wp_bind]
  refine wp_addI2RInternal (by exact running) rfl (by exact residentA) (by exact assignable)
    (by exact readable) (by exact assignable) (by exact readable) (by simpa using apart.symm)
    (by simp [apart]) _ _ _ ?_
  intro X f added
  have value := added.value
  have frame := fun r ne => added.frame r ne ne
  have sign : f.n = x.msb := by
    rw [added.kept rfl]
    simp [Inst.eval, Operand.eval, LogicalOp.apply, flagsOf, xa]
  have dividend : X (.guest (.gpr a)) = x.setWidth 64 := by
    rw [frame _ apart.symm]
    simpa using xa
  have foreign : ∀ g, g ≠ .gpr d → .guest g ≠ t := fun g ne eq => ne (own g eq.symm)
  simp [ArithOp.apply, xa] at value frame
  rw [Program.wp_bind, wp_data _ (by exact running)]
  refine ⟨rfl, by simpa using ⟨residentA, readable⟩, assignable, ?_⟩
  simp only [BitVec.ofNat_eq_ofNat, Program.wp_ite]
  split_ifs at post ⊢
  all_goals
    rw [wp_data _ (by exact running)]
    refine ⟨by simp [hk], by simpa using readable, writable, ?_⟩
    refine post _ _ rfl ?_ ⟨rfl, rfl, fun h => h.elim⟩
    constructor <;>
      simp +contextual [Inst.eval, Operand.eval, SelectOp.apply, ShiftType.apply, ArithOp.apply,
        Cond.holds, *]

theorem wp_divideByPow (divisor absVal : BitVec 32) (allocateReg : Bool)
    (alloc : allocateReg = true ↔ a = d) {k : Nat} (log : intLog2 (absVal.setWidth 64) = k)
    (hk : k < 32)
    (post : ∀ y v', y = (if x.msb = false then x else x + (absVal - 1)) →
      Wrote d (if divisor.slt 0 then 0#32 - y.sshiftRight k else y.sshiftRight k) false v v' →
      CarryKept False v v' → Q () v') :
    (do let ra ← r a
        let rd ← r d
        let wa ← if allocateReg then getScopedReg else pure rd
        data (.tst 32 ra (.reg ra))
        addI2R 32 wa ra ((absVal - 1).setWidth 64) wa
        data (.select 32 .csel wa ra wa .pl)
        if divisor.slt 0 then
          data (.neg 32 rd (.shifted wa .asr (intLog2 (absVal.setWidth 64))))
        else data (.asr 32 rd wa (intLog2 (absVal.setWidth 64))) : Emit Unit).wp View.spec Q v := by
  rw [log]
  simp only [Program.wp_bind, wp_r, running, View.loaded_toHostState]
  cases allocateReg with
  | true =>
      refine wp_divideRounded (v := ((v.loaded (.gpr a)).loaded (.gpr d)).taken)
        (t := .temp v.scopedRegs) running writable clean xa divisor absVal hk (by simp) trivial trivial
        (by simp) (by simp) ?_
      exact fun y v' hy wrote carry => post y v' hy ⟨wrote.gpr, wrote.cr0, wrote.others,
        wrote.pending, wrote.op, wrote.tainted⟩ ⟨carry.xer, carry.carryFlag, carry.flags⟩
  | false =>
      have ne : a ≠ d := fun eq => by cases alloc.mpr eq
      refine wp_divideRounded (v := (v.loaded (.gpr a)).loaded (.gpr d)) (t := .guest (.gpr d))
        running writable clean xa divisor absVal hk (by simp) (by simp) writable
        (by simpa using ne.symm) (fun g eq => (HostReg.guest.inj eq).symm) ?_
      exact fun y v' hy wrote carry => post y v' hy ⟨wrote.gpr, wrote.cr0, wrote.others,
        wrote.pending, wrote.op, wrote.tainted⟩ ⟨carry.xer, carry.carryFlag, carry.flags⟩

end

/-- The value whose logarithm is the shift of a power of two. -/
theorem absVal_toNat {divisor : BitVec 32} {k : Nat}
    (abs : divisor.toInt = 2 ^ k ∨ divisor.toInt = -2 ^ k) :
    ((divisor.signExtend 64).abs.setWidth 32).toNat = 2 ^ k ∧ k ≤ 31 := by
  have := divisor.le_toInt
  have := divisor.toInt_lt
  have magnitude : divisor.toInt.natAbs = 2 ^ k := by
    have cast : (2 : Int) ^ k = ((2 ^ k : Nat) : Int) := by push_cast; rfl
    rw [cast] at abs
    generalize 2 ^ k = n at *
    omega
  have wide : (divisor.signExtend 64).abs.toNat = divisor.toInt.natAbs := by
    rw [abs_toNat, BitVec.toInt_signExtend_of_le (by decide)]
  have hk : k ≤ 31 := (Nat.pow_le_pow_iff_right (by decide : 1 < 2)).mp (by omega)
  refine ⟨?_, hk⟩
  rw [BitVec.toNat_setWidth, wide, magnitude, Nat.mod_eq_of_lt (by omega)]

theorem wp_divwxByConstant (divisor : BitVec 32) (running : v.pending = none)
    (xa : v.x (.guest (.gpr a)) = x.setWidth 64)
    (post : ∀ v', Wrote d (constantQuotient x divisor) false v v' →
      CarryKept (¬ ClobbersFlags divisor) v v' → Q () v') :
    (divwxByConstant a d divisor).wp View.spec Q v := by
  rw [divwxByConstant, Program.wp_bind, wp_bindToRegister _ _ running]
  intro value kept
  have xa' : (v.bound (.gpr d) value).x (.guest (.gpr a)) = x.setWidth 64 := by
    by_cases eq : a = d
    · subst eq
      rw [View.bound_x, Function.update_self, kept (by simp), xa]
    · simp [eq, xa]
  have writable : (v.bound (.gpr d) value).writable (.gpr d) := .inl rfl
  have clean : ∀ g, (v.bound (.gpr d) value).tainted g → g ≠ .gpr d := fun g h => h.1
  have running' : (v.bound (.gpr d) value).pending = none := running
  replace post : ∀ v', Wrote d (constantQuotient x divisor) false (v.bound (.gpr d) value) v' →
      CarryKept (¬ ClobbersFlags divisor) (v.bound (.gpr d) value) v' → Q () v' :=
    fun v' wrote carry => post v' wrote.of_bound carry.of_bound
  generalize v.bound (.gpr d) value = v at *
  have clobbered : ∀ {v'}, ClobbersFlags divisor → CarryKept False v v' →
      CarryKept (¬ ClobbersFlags divisor) v v' :=
    fun clobbers carry => ⟨carry.xer, carry.carryFlag, fun h => absurd clobbers h⟩
  have untouched : ∀ {v'}, CarryKept True v v' → CarryKept (¬ ClobbersFlags divisor) v v' :=
    fun carry => ⟨carry.xer, carry.carryFlag, fun _ => carry.flags trivial⟩
  refine Program.wp_cases (fun zero => ?_) fun notZero => ?_
  · subst zero
    rw [constantQuotient_zero] at post
    simp [running', writable]
    refine post _ ?_ ⟨rfl, rfl, fun _ => rfl⟩
    constructor <;> simp +contextual [clean, Inst.eval, xa']
  refine Program.wp_cases (fun one => ?_) fun notOne => ?_
  · subst one
    rw [constantQuotient_one] at post
    by_cases eq : d = a
    · subst eq
      simp
      exact post v ⟨xa', by simp, fun _ _ _ => rfl, rfl, rfl, fun g h => ⟨clean g h, h⟩⟩ ⟨rfl, rfl, fun _ => rfl⟩
    · simp [running', writable, eq]
      refine post _ ?_ ⟨rfl, rfl, fun _ => rfl⟩
      constructor <;> simp +contextual [clean, Inst.eval, xa', Operand.eval, LogicalOp.apply]
  refine Program.wp_cases (fun minusOne => ?_) fun notMinusOne => ?_
  · rw [minusOne, constantQuotient_neg_one] at post
    exact wp_divideByMinusOne running' writable clean xa' fun v' wrote carry =>
      post v' wrote (minusOne ▸ clobbered (.inl minusOne) carry)
  refine Program.wp_cases (fun two => ?_) fun notTwo => ?_
  · refine wp_divideByTwo running' writable clean xa' divisor fun v' wrote carry => ?_
    have abs : divisor.toInt = 2 ^ 1 ∨ divisor.toInt = -2 ^ 1 := by
      rcases two with rfl | rfl
      · exact .inl rfl
      · exact .inr rfl
    rw [constantQuotient_pow le_rfl abs (toInt_add_sign_bit x)] at wrote
    exact post v' wrote (untouched carry)
  rw [Program.wp_ite]
  split
  · rename_i power
    obtain ⟨k, abs⟩ := (isPow2Signed_or_iff divisor).mp power
    obtain ⟨absVal, hk⟩ := absVal_toNat abs
    have log : intLog2 (((divisor.signExtend 64).abs.setWidth 32).setWidth 64) = k := by
      apply intLog2_two_pow
      rw [BitVec.toNat_setWidth_of_le (by decide), absVal]
    have positive : 1 ≤ k := by
      rcases Nat.eq_zero_or_pos k with rfl | pos
      · have : divisor = 1 ∨ divisor = -1 :=
          abs.imp (BitVec.eq_of_toInt_eq ·) (BitVec.eq_of_toInt_eq ·)
        tauto
      · exact pos
    refine wp_divideByPow running' writable clean xa' divisor _ (decide (a = d)) (by simp) log (by omega)
      fun y v' hy wrote carry => ?_
    rw [constantQuotient_pow positive abs (by rw [hy]; exact toInt_add_mask absVal hk)] at wrote
    exact post v' wrote (clobbered (.inr ⟨by tauto, power⟩) carry)
  · rename_i notPower
    have byMul : ByMultiplication divisor := by
      rintro (h | h | h | h | h)
      · exact notZero h
      · exact notOne h
      · exact notMinusOne h
      · exact notTwo h
      · exact notPower h
    obtain ⟨h3, hlt, -⟩ := byMul.facts
    obtain ⟨p, isExp, constants⟩ := signedDivisionConstants_eq h3 hlt 64 (by decide)
    have shift := signedMagic_shift isExp
    have := isExp.le
    refine wp_divwxByMultiplication divisor _ constants ?_ running' writable clean xa'
      fun v' wrote carry => post v' ?_ (untouched carry)
    · change (signedMagic divisor p).shift.toNat < 32
      omega
    · rw [constantQuotient, if_pos byMul, constants]
      exact wrote

/-! ## Unsigned division -/

theorem wp_divwux {inst : UGeckoInstruction} (known : v.constProp.hasGPR inst.rb = true)
    (running : v.pending = none) (xa : v.x (.guest (.gpr inst.ra)) = x.setWidth 64)
    (post : ∀ v', Wrote inst.rd (divwuQuotient x (v.constProp.getGPR inst.rb)) inst.rc v v' →
      CarryKept True v v' → Q () v') : (divwux inst).wp View.spec Q v := by
  simp only [divwux, Program.wp_bind, wp_constProp, known, if_true]
  generalize v.constProp.getGPR inst.rb = divisor at *
  refine Program.wp_cases (fun zero => ?_) fun ne => ?_
  · rw [zero, divwuQuotient, if_pos rfl] at post
    exact wp_setImmediate_rc inst.rd 0 inst.rc running post
  rw [Program.wp_bind, wp_bindToRegister _ _ running]
  intro value kept
  have xa' : (v.bound (.gpr inst.rd) value).x (.guest (.gpr inst.ra)) = x.setWidth 64 := by
    by_cases eq : inst.ra = inst.rd
    · rw [eq, View.bound_x, Function.update_self, kept (by simp [eq]), ← eq, xa]
    · simp [eq, xa]
  have writable : (v.bound (.gpr inst.rd) value).writable (.gpr inst.rd) := .inl rfl
  have clean : ∀ g, (v.bound (.gpr inst.rd) value).tainted g → g ≠ .gpr inst.rd := fun g h => h.1
  have running' : (v.bound (.gpr inst.rd) value).pending = none := running
  have core : ∀ v', Wrote inst.rd (divwuQuotient x divisor) false (v.bound (.gpr inst.rd) value) v' →
      CarryKept True (v.bound (.gpr inst.rd) value) v' →
      (if inst.rc then (do computeRC0 (← r inst.rd)) else pure () : Emit Unit).wp View.spec Q v' :=
    fun v' wrote carry => wp_rc inst.rc (wrote.pending.trans running') wrote.of_bound carry.of_bound
      post
  generalize v.bound (.gpr inst.rd) value = v at *
  generalize (if inst.rc then (do computeRC0 (← r inst.rd)) else pure () : Emit Unit) = tail at *
  simp only [Program.wp_bind, wp_r, running', View.loaded_toHostState]
  split
  · rename_i pow
    obtain ⟨k, pow⟩ := (isPow2_iff divisor).mp pow
    have log : intLog2 (divisor.setWidth 64) = k := by
      apply intLog2_two_pow
      rw [BitVec.toNat_setWidth_of_le (by decide), pow]
    have hk : k < 32 := (Nat.pow_lt_pow_iff_right (by decide : 1 < 2)).mp (pow ▸ divisor.isLt)
    rw [← divwuQuotient_pow pow] at core
    rw [log]
    split
    · simp [running', writable, hk]
      refine core _ ?_ ⟨rfl, rfl, fun _ => rfl⟩
      constructor <;> simp +contextual [clean, Inst.eval, xa', hk]
    · rename_i whole
      obtain rfl : k = 0 := not_not.mp whole
      split
      · simp [running', writable]
        refine core _ ?_ ⟨rfl, rfl, fun _ => rfl⟩
        constructor <;> simp +contextual [clean, Inst.eval, xa', Operand.eval, LogicalOp.apply]
      · rename_i same
        have eq : inst.rd = inst.ra := not_not.mp same
        exact core _ ⟨by simpa [eq] using xa', by simp, fun _ _ _ => rfl, rfl, rfl,
          fun g h => ⟨clean g h, h⟩⟩ ⟨rfl, rfl, fun _ => rfl⟩
  · rename_i notPow
    have odd : ∀ k, divisor.toNat ≠ 2 ^ k := fun k eq => notPow ((isPow2_iff divisor).mpr ⟨k, eq⟩)
    have shift := (unsigned_quotient ne odd x).2
    have value := divwuQuotient_multiplied (x := x) ne odd
    generalize unsignedDivisionConstants divisor = m at *
    have amount : 32 + m.shift.toNat < 64 := by omega
    cases same : decide (inst.rd = inst.ra) with
    | false =>
        have ne : inst.ra ≠ inst.rd := fun eq => absurd eq.symm (by simpa using same)
        cases fast : m.fast <;> simp [fast] at value <;> simp [running', writable, amount]
        all_goals
          refine core _ ?_ ⟨rfl, rfl, fun _ => rfl⟩
          constructor <;> simp +contextual [clean, Inst.eval, xa', ne, amount, value]
    | true =>
        cases fast : m.fast <;> simp [fast] at value <;> simp [running', writable, amount]
        all_goals
          refine core _ ?_ ⟨rfl, rfl, fun _ => rfl⟩
          constructor <;> simp +contextual [clean, Inst.eval, xa', amount, value]

/-! ## A known dividend -/

theorem wp_rc_gpr {rc : Bool} {q : BitVec 32} (running : v.pending = none)
    (value : v.x (.guest (.gpr d)) = q.setWidth 64) (clean : ¬ v.tainted (.gpr d))
    (resident : v.resident (.gpr d))
    (post : ∀ v', v'.x (.guest (.gpr d)) = q.setWidth 64 → ¬ v'.tainted (.gpr d) → Q () v') :
    (if rc then computeRC0 (.name (.guest (.gpr d))) else pure () : Emit Unit).wp View.spec Q v := by
  cases rc with
  | false => exact post v value clean
  | true =>
      refine wp_computeRC0 running resident (by simp) rfl fun v' guest _ _ tainted _ => ?_
      exact post v' (by simp [guest, value]) fun h => clean (tainted _ h)

theorem wp_divwx_dividend {inst : UGeckoInstruction} {y : BitVec 32}
    (known : v.constProp.hasGPR inst.ra = true) (value : v.constProp.getGPR inst.ra = x)
    (ne : x ≠ 0) (running : v.pending = none)
    (xa : v.x (.guest (.gpr inst.ra)) = x.setWidth 64)
    (xb : v.x (.guest (.gpr inst.rb)) = y.setWidth 64)
    (post : ∀ v', v'.x (.guest (.gpr inst.rd)) = (divwQuotient x y).setWidth 64 →
      ¬ v'.tainted (.gpr inst.rd) → Q () v') : (divwx inst).wp View.spec Q v := by
  simp only [divwx, Program.wp_bind, wp_constProp, known, value, ne, and_false, if_true, if_false,
    wp_bindToRegister _ _ running]
  intro old kept
  have xa' : (v.bound (.gpr inst.rd) old).x (.guest (.gpr inst.ra)) = x.setWidth 64 := by
    by_cases eq : inst.ra = inst.rd
    · rw [eq, View.bound_x, Function.update_self, kept (by simp [eq]), ← eq, xa]
    · simp [eq, xa]
  have xb' : (v.bound (.gpr inst.rd) old).x (.guest (.gpr inst.rb)) = y.setWidth 64 := by
    by_cases eq : inst.rb = inst.rd
    · rw [eq, View.bound_x, Function.update_self, kept (by simp [eq]), ← eq, xb]
    · simp [eq, xb]
  have writable : (v.bound (.gpr inst.rd) old).writable (.gpr inst.rd) := .inl rfl
  have clean : ¬ (v.bound (.gpr inst.rd) old).tainted (.gpr inst.rd) := fun h => h.1 rfl
  have residentD : (v.bound (.gpr inst.rd) old).resident (.gpr inst.rd) := .inl rfl
  have running' : (v.bound (.gpr inst.rd) old).pending = none := running
  generalize v.bound (.gpr inst.rd) old = v at *
  have quotient : y = 0 ∨ x = 0x80000000 ∧ y = 0xFFFFFFFF →
      divwQuotient x y = if x.msb then 0xFFFFFFFF else 0 := fun h => if_pos h
  -- behind the overflow labels
  have finish : ∀ (w : View) (k : Nat), w.pending = none → w.resident (.gpr inst.rd) →
      ¬ w.tainted (.gpr inst.rd) → (y = 0 ∨ x = 0x80000000 ∧ y = 0xFFFFFFFF) →
      (if inst.rc = true then computeRC0 (.name (.guest (.gpr inst.rd)))
        else pure () : Emit Unit).wp View.spec Q
          ((w.after (.movi 32 (.name (.guest (.gpr inst.rd)))
            (if x.msb = true then 0xFFFFFFFF#64 else 0#64))).landed k) := by
    intro w k running resident clean overflow
    rw [View.landed_of_running _ _ (by exact running)]
    refine wp_rc_gpr running ?_ clean resident post
    rw [quotient overflow]
    cases x.msb <;> simp [Inst.eval]
  by_cases zero : y = 0#32
  · -- both kinds of code jump to the first label
    have jumped : ∀ w : View, w.pending = some v.fixupBranches →
        (∀ g, w.writable g ↔ v.writable g) → w.resident (.gpr inst.ra) →
        (∀ g, (((v.loaded (.gpr inst.rb)).loaded (.gpr inst.rd))).resident g →
          w.resident g ∧ (w.tainted g → v.tainted g)) →
        w.writable (.gpr inst.rd) ∧ w.resident (.gpr inst.rb) ∧ w.resident (.gpr inst.rd) ∧
          ¬ w.tainted (.gpr inst.rd) := by
      intro w pending writes residentA frame
      exact ⟨(writes _).mpr writable, (frame _ (.inr (.inl rfl))).1, (frame _ (.inl rfl)).1,
        fun h => clean ((frame _ (.inl rfl)).2 h)⟩
    by_cases least : x = 0x80000000#32
    · simp [-Program.wp_ite, running', xb', zero, least]
      refine ⟨rfl, wp_r_skipped (show _ = some v.fixupBranches by simp) _
        fun w pending fixup writes residentA frame => ?_⟩
      obtain ⟨writable', residentB, residentD', clean'⟩ := jumped w pending writes residentA frame
      simp [-Program.wp_ite, wp_data_skipped pending, wp_branch_b_skipped pending, fixup, writes,
        writable, residentA, residentB]
      rw [← least]
      exact finish _ _ (by simp) residentD' clean' (.inl zero)
    · simp [-Program.wp_ite, running', xb', zero, least]
      refine wp_r_skipped (show _ = some v.fixupBranches by simp) _
        fun w pending fixup writes residentA frame => ?_
      obtain ⟨writable', residentB, residentD', clean'⟩ := jumped w pending writes residentA frame
      simp [-Program.wp_ite, wp_data_skipped pending, wp_branch_b_skipped pending, fixup, writes,
        writable, residentA, residentB]
      exact finish _ _ (by simp) residentD' clean' (.inl zero)
  · have compare : ∀ (get : Reg HostReg → BitVec 64) (f : NZCV),
        (get (.name (.guest (.gpr inst.rb)))).setWidth 32 = y →
        Cond.eq.holds (Inst.eval get f (.cmn 32 (.name (.guest (.gpr inst.rb))) (.imm 1#64))).2 =
          decide (y = 0xFFFFFFFF#32) := by
      intro get f value
      simp only [Inst.eval, value, Operand.eval, ArithOp.apply, addWithCarry, flagsOf, Cond.holds,
        if_true]
      rw [Bool.eq_iff_iff, beq_iff_eq, decide_eq_true_iff]
      simp
      bv_omega
    have regular : ¬ (x = 0x80000000#32 ∧ y = 0xFFFFFFFF#32) → x.sdiv y = divwQuotient x y := by
      intro fits
      rw [divwQuotient, if_neg]
      rintro (h | h)
      · exact zero h
      · exact fits h
    by_cases least : x = 0x80000000#32
    · by_cases minusOne : y = 0xFFFFFFFF#32
      · simp [-Program.wp_ite, running', xb', least, compare, minusOne]
        refine ⟨rfl, wp_r_skipped (show _ = some (v.fixupBranches + 1) by simp) _
          fun w pending fixup writes residentA frame => ?_⟩
        obtain ⟨residentB, -⟩ := frame (.gpr inst.rb) (.inr (.inl rfl))
        obtain ⟨residentD', tainted⟩ := frame (.gpr inst.rd) (.inl rfl)
        simp [-Program.wp_ite, wp_data_skipped pending, wp_branch_b_skipped pending, fixup, writes,
          writable, residentA, residentB]
        rw [View.placed_landed_of_ne _ _ _ (by omega)]
        simp [-Program.wp_ite, writes, writable]
        rw [← least]
        exact finish _ _ (by simp) residentD' (fun h => clean (tainted h)) (.inr ⟨least, minusOne⟩)
      · simp [-Program.wp_ite, running', xb', zero, least, compare, minusOne]
        refine ⟨rfl, ?_⟩
        rw [View.placed_landed_of_ne _ _ _ (by omega), View.placed_landed_of_ne _ _ _ (by omega)]
        simp [-Program.wp_ite, writable]
        refine wp_rc_gpr (by simp) ?_ (by simpa using clean) (by simp [residentD]) post
        simp [Inst.eval, xa', xb', regular fun h => minusOne h.2]
    · simp [-Program.wp_ite, running', xb', zero, least]
      rw [View.placed_landed_of_ne _ _ _ (by omega)]
      simp [-Program.wp_ite, writable]
      refine wp_rc_gpr (by simp) ?_ (by simpa using clean) (by simp [residentD]) post
      simp [Inst.eval, xa', xb', regular fun h => least h.1]

/-- Division by a known divisor: the quotient depends on whether the dividend is known too. -/
theorem wp_divwx_known {inst : UGeckoInstruction} {y : BitVec 32}
    (known : v.constProp.hasGPR inst.rb = true) (value : v.constProp.getGPR inst.rb = y)
    (dividend : v.constProp.hasGPR inst.ra = true → v.constProp.getGPR inst.ra = x)
    (running : v.pending = none) (xa : v.x (.guest (.gpr inst.ra)) = x.setWidth 64)
    (xb : v.x (.guest (.gpr inst.rb)) = y.setWidth 64)
    (post : ∀ v', v'.x (.guest (.gpr inst.rd)) =
        (if v.constProp.hasGPR inst.ra then divwQuotient x y else constantQuotient x y).setWidth 64 →
      ¬ v'.tainted (.gpr inst.rd) → Q () v') : (divwx inst).wp View.spec Q v := by
  cases knownA : v.constProp.hasGPR inst.ra with
  | true =>
      have value := dividend knownA
      rw [knownA, if_pos rfl] at post
      by_cases zero : x = 0
      · simp only [divwx, Program.wp_bind, wp_constProp, knownA, value, zero, and_true, if_true]
        refine wp_setImmediate_rc inst.rd 0 inst.rc running fun v' wrote _ => post v' ?_ ?_
        · rw [wrote.gpr, zero, divwQuotient]
          split
          · rfl
          · simp
        · exact fun h => (wrote.tainted _ h).1 rfl
      · exact wp_divwx_dividend knownA value zero running xa xb post
  | false =>
      simp only [knownA, Bool.false_eq_true, if_false] at post
      simp only [divwx, Program.wp_bind, wp_constProp, knownA, known, value, Bool.false_eq_true,
        false_and, if_true, if_false]
      refine wp_divwxByConstant y running xa fun v' wrote carry => ?_
      refine wp_rc inst.rc (wrote.pending.trans running) wrote carry fun v'' wrote _ => ?_
      exact post v'' wrote.gpr fun h => (wrote.tainted _ h).1 rfl

end

/-! ## The emitted divisions and the interpreter -/

section
variable {inst : UGeckoInstruction} {js : JitState}

/-- The code of `p`, from a machine that holds the operands, leaves what `i` computes in `RD`. -/
def Divides (p : UGeckoInstruction → Emit Unit) (i : Interpreter.Instruction)
    (inst : UGeckoInstruction) (js : JitState) : Prop :=
  ∀ (m : Machine) (s : PowerPCState), m.pending = none →
    Represents js m (.gpr inst.ra) ((s.gpr inst.ra).setWidth 64) →
    Represents js m (.gpr inst.rb) ((s.gpr inst.rb).setWidth 64) →
    Represents ((p inst).run js m).1 ((p inst).run js m).2 (.gpr inst.rd)
      (((i inst s).gpr inst.rd).setWidth 64)

@[simp] theorem updateRc_gpr (inst : UGeckoInstruction) (s : PowerPCState) (value : BitVec 32) :
    (updateRc inst s value).gpr = s.gpr := by
  unfold updateRc
  split <;> rfl

theorem divwx_gpr (inst : UGeckoInstruction) (s : PowerPCState) :
    (Interpreter.divwx inst s).gpr inst.rd = divwQuotient (s.gpr inst.ra) (s.gpr inst.rb) := by
  simp [Interpreter.divwx]

theorem divwux_gpr (inst : UGeckoInstruction) (s : PowerPCState) :
    (Interpreter.divwux inst s).gpr inst.rd = divwuQuotient (s.gpr inst.ra) (s.gpr inst.rb) := by
  simp [Interpreter.divwux]

theorem imm_gpr_eq_some {i : BitVec 5} {imm : BitVec 32} :
    js.imm (.gpr i) = some imm ↔ js.constProp.hasGPR i = true ∧ js.constProp.getGPR i = imm := by
  have unfolded : js.imm (.gpr i) =
      bif js.constProp.hasGPR i then some (js.constProp.getGPR i) else none := rfl
  rw [unfolded]
  cases js.constProp.hasGPR i <;> simp

theorem setWidth_injective {x y : BitVec 32} (h : x.setWidth 64 = y.setWidth 64) : x = y := by
  have := congrArg (BitVec.setWidth 32) h
  simpa using this

/-- What `divwx` leaves behind, from a machine that holds the operands. -/
theorem divwx_run {divisor : BitVec 32} (known : js.imm (.gpr inst.rb) = some divisor)
    {m : Machine} (running : m.pending = none) {x y : BitVec 32}
    (ra : Represents js m (.gpr inst.ra) (x.setWidth 64))
    (rb : Represents js m (.gpr inst.rb) (y.setWidth 64)) :
    Represents ((divwx inst).run js m).1 ((divwx inst).run js m).2 (.gpr inst.rd)
      ((if (js.imm (.gpr inst.ra)).isSome then divwQuotient x y
        else constantQuotient x y).setWidth 64) := by
  have eq : y = divisor := setWidth_injective (rb.of_known known)
  subst eq
  obtain ⟨hasB, getB⟩ := imm_gpr_eq_some.mp known
  have knownA : (js.imm (.gpr inst.ra)).isSome = js.constProp.hasGPR inst.ra := by
    have unfolded : js.imm (.gpr inst.ra) = bif js.constProp.hasGPR inst.ra then
        some (js.constProp.getGPR inst.ra) else none := rfl
    rw [unfolded]
    cases js.constProp.hasGPR inst.ra <;> rfl
  have dividend : js.constProp.hasGPR inst.ra = true → js.constProp.getGPR inst.ra = x := by
    intro hasA
    exact (setWidth_injective (ra.of_known (imm_gpr_eq_some.mpr ⟨hasA, rfl⟩))).symm
  have compiled : (divwx inst).wp View.spec (fun _ v => v.x (.guest (.gpr inst.rd)) = _ ∧
      ¬ v.tainted (.gpr inst.rd)) (js.view m) :=
    wp_divwx_known (v := js.view m) hasB getB dividend running ra.valueOf rb.valueOf
      fun v value clean => ⟨value, clean⟩
  obtain ⟨-, v, shows, value, clean⟩ := run_sound compiled
  have represents := shows.represents clean
  rw [value] at represents
  rw [knownA]
  exact represents

theorem divwux_run {divisor : BitVec 32} (known : js.imm (.gpr inst.rb) = some divisor) :
    Divides divwux Interpreter.divwux inst js := by
  intro m s running ra rb
  have eq := setWidth_injective (rb.of_known known)
  obtain ⟨hasB, getB⟩ := imm_gpr_eq_some.mp known
  have compiled : (divwux inst).wp View.spec (fun _ v => Wrote inst.rd _ inst.rc (js.view m) v)
      (js.view m) :=
    wp_divwux (v := js.view m) hasB running ra.valueOf fun v wrote _ => wrote
  obtain ⟨-, v, shows, wrote⟩ := run_sound compiled
  rw [divwux_gpr, eq, ← getB]
  have represents := shows.represents fun h => (wrote.tainted _ h).1 rfl
  rwa [wrote.gpr] at represents

/-- A machine with `x` in one guest register and `y` in all others, wherever they are. -/
def machineWith (i : BitVec 5) (x y : BitVec 32) : Machine where
  x r := if r = .guest (.gpr i) then x.setWidth 64 else y.setWidth 64
  flags := ⟨false, false, false, false⟩
  xer _ := 0
  pending := none
  gpr j := if j = i then x else y
  cr _ := 0

theorem machineWith_represents (js : JitState) (i j : BitVec 5) (x y : BitVec 32)
    (present : js.Present (.gpr j)) (known : ∀ imm, js.imm (.gpr j) = some imm →
      (if j = i then x else y) = imm) :
    Represents js (machineWith i x y) (.gpr j) ((if j = i then x else y).setWidth 64) := by
  have host : (machineWith i x y).x (.guest (.gpr j)) = (if j = i then x else y).setWidth 64 := by
    simp only [machineWith, HostReg.guest.injEq, GuestReg.gpr.injEq]
    split <;> rfl
  have memory : (machineWith i x y).load (.gpr j) = (if j = i then x else y).setWidth 64 := rfl
  constructor
  · constructor
    · intro _ _
      rw [host, memory]
    · intro imm eq _
      rw [host, known imm eq]
    · intro imm eq _
      rw [memory, known imm eq]
    · exact present
  · unfold JitState.valueOf
    split
    · exact host
    · cases imm : js.imm (.gpr j) with
      | some imm' => rw [known imm' imm]
      | none => exact memory

/-- Division by a known divisor is exact but for the defective divisors, whose quotient is right
only when the dividend is known too. -/
theorem divide_by_constant_exact_iff (inst : UGeckoInstruction) (js : JitState)
    (divisor : BitVec 32) (known : js.imm (.gpr inst.rb) = some divisor) :
    (js.Present (.gpr inst.ra) → (Divides divwx Interpreter.divwx inst js ↔
      (js.imm (.gpr inst.ra)).isSome = true ∨ ¬ Defective divisor)) ∧
    Divides divwux Interpreter.divwux inst js ∧
    ∀ fuel, ByMultiplication divisor → 31 ≤ fuel →
      (signedDivisionConstants fuel divisor).isSome = true := by
  refine ⟨fun present => ⟨fun divides => ?_, ?_⟩, divwux_run known, fun fuel byMul enough => ?_⟩
  · by_contra fails
    obtain ⟨unknown, defective⟩ := not_or.mp fails
    have none : js.imm (.gpr inst.ra) = none := by simpa using unknown
    have apart : inst.rb ≠ inst.ra := by
      intro eq
      rw [eq, none] at known
      cases known
    refine (constantQuotient_exact_iff divisor).not.mpr defective fun x => ?_
    have ra := machineWith_represents js inst.ra inst.ra x divisor present (by simp [none])
    have rb := machineWith_represents js inst.ra inst.rb x divisor
      (fun _ unknown => by simp [known] at unknown) (by simp [known, apart])
    rw [if_pos rfl] at ra
    rw [if_neg apart] at rb
    let s : PowerPCState := ⟨(machineWith inst.ra x divisor).gpr, fun _ => 0, false, false, false⟩
    have hsa : s.gpr inst.ra = x := if_pos rfl
    have hsb : s.gpr inst.rb = divisor := if_neg apart
    have right := divides (machineWith inst.ra x divisor) s rfl (by rwa [hsa]) (by rwa [hsb])
    have got := divwx_run known (by rfl) ra rb
    rw [divwx_gpr, hsa, hsb] at right
    rw [none] at got
    exact setWidth_injective (got.valueOf.symm.trans right.valueOf)
  · intro sound m s running ra rb
    have eq := setWidth_injective (rb.of_known known)
    have got := divwx_run known running ra rb
    rw [divwx_gpr]
    rcases sound with isKnown | regular
    · rwa [isKnown, if_pos rfl] at got
    · have exact := (constantQuotient_exact_iff divisor).mpr regular (s.gpr inst.ra)
      rw [← eq] at exact
      rwa [exact, ite_self] at got
  · obtain ⟨h3, hlt, -⟩ := byMul.facts
    obtain ⟨p, -, constants⟩ := signedDivisionConstants_eq h3 hlt fuel enough
    rw [constants]
    rfl

/-- `divwx r5, r3, r4`. -/
def divwxWord : UGeckoInstruction := ⟨0x7CA323D6⟩

/-- The recompiler at the start of a block that loaded `divisor` into `r4`. -/
def blockWith (divisor : BitVec 32) : JitState where
  constProp := ⟨fun _ => divisor, fun i => i == 4⟩
  inHostRegister _ := false
  inPPCState _ := true
  carryFlag := .inPPCState
  op := ⟨false, false, false, false, fun _ _ => false⟩
  scopedRegs := 0
  fixupBranches := 0

theorem divide_by_three_exact : Divides divwx Interpreter.divwx divwxWord (blockWith 3) :=
  ((divide_by_constant_exact_iff divwxWord (blockWith 3) 3 rfl).1 fun _ _ => rfl).mpr
    (.inr fun h => absurd h.1 (by decide))

/-- Seven divided by minus seven. -/
theorem divwx_not_exact : ¬ Divides divwx Interpreter.divwx divwxWord (blockWith (-7)) := by
  intro divides
  have ra := machineWith_represents (blockWith (-7)) 3 3 7 (-7) (fun _ _ => rfl)
    fun _ unknown => nomatch (show none = some _ from unknown)
  have rb := machineWith_represents (blockWith (-7)) 3 4 7 (-7) (fun _ _ => rfl)
    fun _ known => Option.some.inj known
  let s : PowerPCState := ⟨(machineWith 3 7 (-7)).gpr, fun _ => 0, false, false, false⟩
  have quotient := (divides (machineWith 3 7 (-7)) s rfl ra rb).valueOf
  revert quotient
  decide +kernel

end

end Phocoena.JitArm64
