import Phocoena.JitArm64.EmitSpec

/-! # Adding a constant

`ADDI2R` and its relatives pick the shortest way to add or subtract an arbitrary constant.
-/

namespace Phocoena.JitArm64.Emit

open A64

/-- `AddImmediate`. -/
def addImmediate (w : Nat) (rd rn : Reg HostReg) (imm : BitVec 64) (shift negative flags : Bool) :
    Emit Unit :=
  data (.arith w (if negative then .sub else .add) flags rd rn
    (.imm (if shift then imm <<< 12 else imm)))

/-- `ADDI2R_internal`. Every integer instruction passes a scratch register. -/
def addI2RInternal (w : Nat) (rd rn : Reg HostReg) (imm : BitVec 64) (negative flags : Bool)
    (scratch : Reg HostReg) : Emit Unit := do
  let imm := if w = 32 then imm &&& 0xFFFFFFFF else imm
  let immNeg := if w = 32 then -imm &&& 0xFFFFFFFF else -imm
  if imm = 0 ∧ flags = false then
    if rd = rn then pure () else data (.mov w rd rn)
  -- Regular fast paths, aarch64 immediate instructions
  else if imm ≤ 0xFFF then addImmediate w rd rn imm false negative flags
  else if imm ≤ 0xFFFFFF ∧ imm &&& 0xFFF = 0 then
    addImmediate w rd rn (imm >>> 12) true negative flags
  else if immNeg ≤ 0xFFF then addImmediate w rd rn immNeg false (!negative) flags
  else if immNeg ≤ 0xFFFFFF ∧ immNeg &&& 0xFFF = 0 then
    addImmediate w rd rn (immNeg >>> 12) true (!negative) flags
  -- ADD+ADD is slower than MOVK+ADD, but inplace. It must not be done on setting flags.
  else if flags = false ∧ 0x10000 ≤ imm ∧ imm < 0x1000000 then do
    addImmediate w rd rn (imm &&& 0xFFF) false negative false
    addImmediate w rd rd (imm >>> 12) true negative false
  else if flags = false ∧ 0x10000 ≤ immNeg ∧ immNeg < 0x1000000 then do
    addImmediate w rd rn (immNeg &&& 0xFFF) false (!negative) false
    addImmediate w rd rd (immNeg >>> 12) true (!negative) false
  else do
    let second ← Program.perform (Op.movi2r2 imm immNeg)
    data (.movi w scratch (if second then immNeg else imm))
    data (.arith w (if (negative ^^ second) then .sub else .add) flags rd rn (.reg scratch))

def addI2R (w : Nat) (rd rn : Reg HostReg) (imm : BitVec 64) (scratch : Reg HostReg) : Emit Unit :=
  addI2RInternal w rd rn imm false false scratch

def addsI2R (w : Nat) (rd rn : Reg HostReg) (imm : BitVec 64) (scratch : Reg HostReg) : Emit Unit :=
  addI2RInternal w rd rn imm false true scratch

def subI2R (w : Nat) (rd rn : Reg HostReg) (imm : BitVec 64) (scratch : Reg HostReg) : Emit Unit :=
  addI2RInternal w rd rn imm true false scratch

/-! ## What the sequences compute -/

section
variable (k : BitVec 64)

theorem toNat_and_0xFFF : (k &&& 0xFFF).toNat = k.toNat % 2 ^ 12 := by
  rw [BitVec.toNat_and]
  exact Nat.and_two_pow_sub_one_eq_mod k.toNat 12

theorem toNat_shift_back : (k >>> 12 <<< 12).toNat = k.toNat - k.toNat % 2 ^ 12 := by
  have := k.isLt
  rw [BitVec.toNat_shiftLeft, BitVec.toNat_ushiftRight, Nat.shiftRight_eq_div_pow, Nat.shiftLeft_eq]
  omega

theorem shift_back (low : k &&& 0xFFF = 0) : k >>> 12 <<< 12 = k := by
  have zero := congrArg BitVec.toNat low
  rw [toNat_and_0xFFF] at zero
  apply BitVec.eq_of_toNat_eq
  rw [toNat_shift_back, zero]
  rfl

theorem low_add_high : (k &&& (0xFFF : BitVec 64)) + (k >>> 12 <<< 12) = k := by
  have := k.isLt
  apply BitVec.eq_of_toNat_eq
  rw [BitVec.toNat_add, toNat_and_0xFFF, toNat_shift_back]
  omega

theorem arithImm_of_le (h : k ≤ 0xFFF) : arithImm k = true := by
  have : k.toNat ≤ 0xFFF := h
  simp only [arithImm, decide_eq_true_eq]
  omega

theorem arithImm_shifted (h : k.toNat < 2 ^ 24) : arithImm (k >>> 12 <<< 12) = true := by
  simp only [arithImm, decide_eq_true_eq, toNat_shift_back]
  omega

end

/-- The instruction that takes the constant away adds its negation, and conversely. -/
def flipped : ArithOp → ArithOp
  | .add => .sub
  | .sub => .add

section
variable {w : Nat} (op : ArithOp) (x c : BitVec w)

theorem flipped_apply_neg : ((flipped op).apply x (-c)).1 = (op.apply x c).1 := by
  cases op <;> simp [flipped, ArithOp.apply, BitVec.sub_eq_add_neg]

theorem flipped_apply_neg_carry (ne : c ≠ 0#w) :
    ((flipped op).apply x (-c)).2.c = (op.apply x c).2.c := by
  have := c.isLt
  have := x.isLt
  have pos : 0 < c.toNat := Nat.pos_of_ne_zero fun h => ne (BitVec.eq_of_toNat_eq h)
  have neg : (-c).toNat = 2 ^ w - c.toNat := by
    rw [BitVec.toNat_neg, Nat.mod_eq_of_lt (by omega)]
  cases op with
  | add =>
      simp only [flipped, ArithOp.apply, addWithCarry_not_true_carry, addWithCarry_false_carry,
        BitVec.le_def, neg, decide_eq_decide]
      omega
  | sub =>
      simp only [flipped, ArithOp.apply, addWithCarry_not_true_carry, addWithCarry_false_carry,
        BitVec.le_def, neg, decide_eq_decide]
      omega

end

section
variable {v : View} {Q : Unit → View → Prop} {w : Nat} {d t : HostReg} {rn : Reg HostReg}

/-- A register holds the sum or difference, the scratch register holds anything, and the flags are
left alone or carry what the addition carries. -/
structure Added (v : View) (w : Nat) (d t : HostReg)
    (result : BitVec w × NZCV) (flags : Bool) (x : HostReg → BitVec 64) (f : NZCV) : Prop where
  value : x d = result.1.setWidth 64
  frame : ∀ r, r ≠ d → r ≠ t → x r = v.x r
  kept : flags = false → f = v.flags
  carry : flags = true → f.c = result.2.c

theorem wp_addImmediate (running : v.pending = none) (width : widthOk w = true)
    (reads : v.readable rn) (writes : v.assignable (.name d)) (imm : BitVec 64)
    (shift negative flags : Bool)
    (fits : arithImm (if shift then imm <<< 12 else imm) = true)
    (post : Q () (v.after (.arith w (if negative then .sub else .add) flags (.name d) rn
      (.imm (if shift then imm <<< 12 else imm))))) :
    (addImmediate w (.name d) rn imm shift negative flags).wp View.spec Q v := by
  rw [addImmediate, wp_data _ running]
  refine ⟨?_, ?_, writes, post⟩
  · simp [Inst.encodable, Operand.encodable, width, fits]
  · simpa [Inst.sources] using reads

theorem added_after {op : ArithOp} {o : Operand HostReg} {result : BitVec w × NZCV} {flags : Bool}
    (value : (op.apply ((v.get rn).setWidth w) (o.eval w v.get)).1 = result.1)
    (carry : flags = true → (op.apply ((v.get rn).setWidth w) (o.eval w v.get)).2.c = result.2.c) :
    Added v w d t result flags (v.after (.arith w op flags (.name d) rn o)).x
      (v.after (.arith w op flags (.name d) rn o)).flags where
  value := by simp [Inst.dest, Inst.eval, value]
  frame r ne _ := by simp [Inst.dest, ne]
  kept h := by simp [Inst.eval, h]
  carry h := by simp [Inst.eval, h, carry]

theorem apply_zero (op : ArithOp) (x : BitVec w) : (op.apply x 0#w).1 = x := by
  cases op with
  | add => simp only [ArithOp.apply, addWithCarry_false_fst, BitVec.add_zero]
  | sub => simp only [ArithOp.apply, addWithCarry_not_true_fst, BitVec.sub_zero]

theorem apply_apply (op : ArithOp) (x a b : BitVec w) :
    (op.apply (op.apply x a).1 b).1 = (op.apply x (a + b)).1 := by
  cases op with
  | add => simp [ArithOp.apply, BitVec.add_assoc]
  | sub =>
      simp only [ArithOp.apply, addWithCarry_not_true_fst]
      rw [BitVec.sub_eq_add_neg (x := x - a), BitVec.sub_eq_add_neg (x := x), BitVec.add_assoc,
        BitVec.sub_eq_add_neg (x := x), BitVec.neg_add, BitVec.sub_eq_add_neg]

/-- The constant cut to the operand size, and its negation. -/
theorem cut_constant (width : widthOk w = true) (imm : BitVec 64) :
    ∃ k kn, (if w = 32 then imm &&& 0xFFFFFFFF else imm) = k ∧
      (if w = 32 then -k &&& 0xFFFFFFFF else -k) = kn ∧
      k.setWidth w = imm.setWidth w ∧ kn.setWidth w = -(imm.setWidth w) ∧
      (k.setWidth w = 0#w → k = 0) := by
  have low : ∀ y : BitVec 64, (y &&& 0xFFFFFFFF).setWidth 32 = y.setWidth 32 := by
    intro y
    rw [BitVec.setWidth_and]
    exact BitVec.and_allOnes
  refine ⟨_, _, rfl, rfl, ?_⟩
  simp only [widthOk, decide_eq_true_eq] at width
  rcases width with rfl | rfl
  · simp only [if_true, low]
    refine ⟨trivial, ?_, ?_⟩
    · rw [BitVec.setWidth_neg_of_le (by decide), low]
    · intro zero
      have cut : (imm &&& 0xFFFFFFFF).toNat = imm.toNat % 2 ^ 32 := by
        rw [BitVec.toNat_and]
        exact Nat.and_two_pow_sub_one_eq_mod imm.toNat 32
      have := congrArg BitVec.toNat zero
      rw [BitVec.toNat_setWidth, ← cut] at this
      exact BitVec.eq_of_toNat_eq this
  · simp

theorem wp_addI2RInternal (running : v.pending = none) (width : widthOk w = true)
    (reads : v.readable rn) (writes : v.assignable (.name d)) (resident : v.readable (.name d))
    (scratchWrites : v.assignable (.name t)) (scratchReads : v.readable (.name t))
    (fresh : rn ≠ .name t) (narrow : .name d = rn → v.x d = ((v.x d).setWidth w).setWidth 64)
    (imm : BitVec 64) (negative flags : Bool)
    (post : ∀ x f, Added v w d t ((if negative then ArithOp.sub else .add).apply
      ((v.get rn).setWidth w) (imm.setWidth w)) flags x f → Q () (v.withRegs x f)) :
    (addI2RInternal w (.name d) rn imm negative flags (.name t)).wp View.spec Q v := by
  obtain ⟨k, kn, hk, hkn, cut, cutNeg, zero⟩ := cut_constant width imm
  rw [addI2RInternal, hk, hkn]
  have other : (if (!negative) then ArithOp.sub else .add) =
      flipped (if negative then .sub else .add) := by cases negative <;> rfl
  generalize hop : (if negative then ArithOp.sub else .add) = op at post other ⊢
  generalize imm.setWidth w = c at post cut cutNeg
  have width_le : w ≤ 64 := by
    simp only [widthOk, decide_eq_true_eq] at width
    omega
  -- one instruction, adding the constant or taking its negation away
  have direct : ∀ (i : BitVec 64) (shift : Bool), (if shift then i <<< 12 else i) = k →
      arithImm k = true →
      (addImmediate w (.name d) rn i shift negative flags).wp View.spec Q v := by
    intro i shift eq fits
    apply wp_addImmediate running width reads writes _ _ _ _ (by rw [eq]; exact fits)
    rw [hop, eq]
    exact post _ _ (added_after (by rw [Operand.eval, cut]) (by rw [Operand.eval, cut]; simp))
  have negated : ∀ (i : BitVec 64) (shift : Bool), (if shift then i <<< 12 else i) = kn →
      arithImm kn = true → k ≠ 0 →
      (addImmediate w (.name d) rn i shift (!negative) flags).wp View.spec Q v := by
    intro i shift eq fits ne
    apply wp_addImmediate running width reads writes _ _ _ _ (by rw [eq]; exact fits)
    rw [other, eq]
    have ne' : c ≠ 0#w := fun h => ne (zero (cut.trans h))
    refine post _ _ (added_after ?_ fun _ => ?_)
    · rw [Operand.eval, cutNeg, flipped_apply_neg]
    · rw [Operand.eval, cutNeg, flipped_apply_neg_carry _ _ _ ne']
  -- two instructions, which must leave the flags alone
  have split : ∀ (op' : ArithOp) (i : BitVec 64) (negative' : Bool),
      (if negative' then ArithOp.sub else .add) = op' → i < 0x1000000 →
      (op'.apply ((v.get rn).setWidth w) (i.setWidth w)).1 =
        (op.apply ((v.get rn).setWidth w) c).1 → flags = false →
      (do addImmediate w (.name d) rn (i &&& 0xFFF) false negative' false
          addImmediate w (.name d) (.name d) (i >>> 12) true negative' false).wp View.spec Q v := by
    intro op' i negative' h small same hf
    rw [Program.wp_bind]
    have lowFits : i &&& 0xFFF ≤ 0xFFF := by
      rw [BitVec.le_def, toNat_and_0xFFF]
      exact Nat.le_of_lt_succ (Nat.mod_lt _ (by decide))
    refine wp_addImmediate running width reads writes _ _ _ _ (arithImm_of_le _ lowFits) ?_
    refine wp_addImmediate (v := v.after _) running width resident writes _ _ _ _
      (arithImm_shifted i small) ?_
    refine post _ _ ⟨?_, fun r ne _ => ?_, fun _ => ?_, fun on => absurd on (by simp [hf])⟩
    · simp only [View.after_x, Inst.dest, Inst.eval, HostState.set_name, HostState.get_name, h,
        Function.update_self, Operand.eval, if_true, Bool.false_eq_true, if_false]
      rw [← same, BitVec.setWidth_setWidth_of_le _ width_le, BitVec.setWidth_eq, apply_apply,
        ← BitVec.setWidth_add _ _ width_le, low_add_high]
    · simp [Inst.dest, ne]
    · simp [Inst.eval]
  -- the constant or its negation from the scratch register
  have materialised : ∀ second : Bool, k ≠ 0 →
      (do data (.movi w (.name t) (if second then kn else k))
          data (.arith w (if (negative ^^ second) then .sub else .add) flags (.name d) rn
            (.reg (.name t)))).wp View.spec Q v := by
    intro second ne
    rw [Program.wp_bind, wp_data _ running]
    refine ⟨width, by simp [Inst.sources], scratchWrites, ?_⟩
    rw [wp_data _ (by simpa using running)]
    refine ⟨by simpa [Inst.encodable, Operand.encodable] using width, ?_, writes, ?_⟩
    · simp only [Inst.sources, List.mem_cons, List.not_mem_nil, or_false]
      rintro r (rfl | rfl)
      · exact reads
      · exact scratchReads
    have ne' : c ≠ 0#w := fun h => ne (zero (cut.trans h))
    have rn_same : (v.after (.movi w (.name t) (if second then kn else k))).get rn = v.get rn := by
      cases rn with
      | zr => rfl
      | name r =>
          have : r ≠ t := fun eq => fresh (by rw [eq])
          simp [Inst.dest, this]
    have t_value : ((v.after (.movi w (.name t) (if second then kn else k))).get (.name t)).setWidth w =
        if second then -c else c := by
      simp only [HostState.get_name, View.after_x, Inst.dest, Inst.eval, HostState.set_name,
        Function.update_self, BitVec.setWidth_setWidth_of_le _ width_le, BitVec.setWidth_eq]
      cases second <;> simp [cut, cutNeg]
    have op_eq : (if (negative ^^ second) then ArithOp.sub else .add) =
        if second then flipped op else op := by
      rw [← other, ← hop]
      cases second <;> simp
    have sum : ∀ x : BitVec w,
        ((if second then flipped op else op).apply x (if second then -c else c)).1 =
            (op.apply x c).1 ∧
          ((if second then flipped op else op).apply x (if second then -c else c)).2.c =
            (op.apply x c).2.c := by
      intro x
      cases second with
      | false => exact ⟨rfl, rfl⟩
      | true => exact ⟨flipped_apply_neg op x c, flipped_apply_neg_carry op x c ne'⟩
    rw [op_eq]
    refine post _ _ ⟨?_, fun r ne notScratch => ?_, fun hf => ?_, fun hf => ?_⟩
    · simp only [View.after_x, Inst.dest, HostState.set_name, Function.update_self]
      simp only [Inst.eval, rn_same, Operand.eval, t_value, sum]
    · simp [Inst.dest, ne, notScratch]
    · simp [Inst.eval, hf]
    · simp only [View.after_flags, Inst.eval, rn_same, Operand.eval, t_value, hf, if_true, sum]
  refine Program.wp_cases (fun isZero => ?_) fun nonzero => ?_
  · obtain ⟨rfl, hf⟩ := isZero
    have same : (op.apply ((v.get rn).setWidth w) c).1 = (v.get rn).setWidth w := by
      rw [← cut, BitVec.ofNat_eq_ofNat, BitVec.setWidth_zero, apply_zero]
    refine Program.wp_cases (fun eq => ?_) fun _ => ?_
    · refine post v.x v.flags ⟨?_, fun _ _ _ => rfl, fun _ => rfl, fun on => absurd on (by simp [hf])⟩
      rw [same, ← eq]
      exact narrow eq
    · rw [wp_data _ running]
      refine ⟨by simpa [Inst.mov, Inst.encodable, Operand.encodable] using width,
        by simpa [Inst.mov, Inst.sources] using reads, writes, post _ _ ⟨?_, fun r ne _ => ?_,
          fun _ => rfl, fun on => absurd on (by simp [hf])⟩⟩
      · rw [same]
        simp [Inst.eval, Operand.eval, LogicalOp.apply]
      · simp [Inst.mov, Inst.dest, ne]
  refine Program.wp_cases (fun h => direct k false rfl (arithImm_of_le k h)) fun large => ?_
  have ne : k ≠ 0 := by
    rintro rfl
    exact large (by decide)
  refine Program.wp_cases (fun h => ?_) fun _ => ?_
  · have back := shift_back k h.2
    refine direct (k >>> 12) true back ?_
    rw [← back]
    exact arithImm_shifted k (Nat.lt_succ_of_le h.1)
  refine Program.wp_cases (fun h => negated kn false rfl (arithImm_of_le kn h) ne) fun _ => ?_
  refine Program.wp_cases (fun h => ?_) fun _ => ?_
  · have back := shift_back kn h.2
    refine negated (kn >>> 12) true back ?_ ne
    rw [← back]
    exact arithImm_shifted kn (Nat.lt_succ_of_le h.1)
  refine Program.wp_cases (fun h => split op k negative hop h.2.2 (by rw [cut]) h.1) fun _ => ?_
  refine Program.wp_cases (fun h => split _ kn (!negative) other h.2.2
    (by rw [cutNeg, flipped_apply_neg]) h.1) fun _ => ?_
  rw [Program.wp_bind]
  exact fun second => materialised second ne

end

end Phocoena.JitArm64.Emit
