import Phocoena.Gekko.CarryOverflow
import Phocoena.JitCommon.ConstantPropagation

/-! # Compile-time evaluation agrees with the interpreter

What a fully executed result reports about the registers and flags is compared with one
interpreted instruction, for every state that agrees with the known registers. The one
disagreement is the overflow bit of `divwuox` when the quotient has its top bit set.
-/

namespace Phocoena.JitCommon

open Gekko Interpreter FixedWidth PowerPCState

namespace ConstantPropagationResult

/-- The report, read as statements about the state before and after the instruction. -/
structure HoldsOf (r : ConstantPropagationResult) (before after : PowerPCState) : Prop where
  gpr_written : ∀ d, r.gpr = some d → after.gpr d = r.gprValue
  gpr_kept : ∀ i, r.gpr ≠ some i → after.gpr i = before.gpr i
  carry_set : ∀ c, r.carry = some c → after.xerCA = c
  carry_kept : r.carry = none → after.xerCA = before.xerCA
  overflow_set : ∀ v, r.overflow = some v → after.xerOV = v ∧ after.xerSO = (before.xerSO || v)
  overflow_kept : r.overflow = none → after.xerOV = before.xerOV ∧ after.xerSO = before.xerSO
  cr0_set : r.computeRc = true → after.cr 0 = cr0Value after.xerSO r.gprValue
  cr0_kept : r.computeRc = false → after.cr 0 = before.cr 0
  cr_kept : ∀ i, i ≠ 0 → after.cr i = before.cr i

/-- The guest-visible steps `DoJit` takes for a fully executed result, in its order. -/
def commit (r : ConstantPropagationResult) (s : PowerPCState) : PowerPCState :=
  let s := match r.gpr with
    | some gpr => s.setGPR gpr r.gprValue
    | none => s
  let s := match r.carry with
    | some carry => s.setCarry carry
    | none => s
  let s := match r.overflow with
    | some overflow => s.setXEROV overflow
    | none => s
  if r.computeRc then helperUpdateCR0 s r.gprValue else s

theorem commit_holds (r : ConstantPropagationResult) (s : PowerPCState) :
    r.HoldsOf s (r.commit s) := by
  obtain ⟨value, gpr, executed, rc, carry, overflow⟩ := r
  constructor
  case gpr_written =>
    rintro d ⟨⟩
    cases carry <;> cases overflow <;> cases rc <;> simp [commit]
  case gpr_kept =>
    intro i other
    cases gpr with
    | none => cases carry <;> cases overflow <;> cases rc <;> simp [commit]
    | some d =>
        have ne : i ≠ d := fun same => other (congrArg some same.symm)
        cases carry <;> cases overflow <;> cases rc <;> simp [commit, ne]
  all_goals
    cases gpr <;> cases carry <;> cases overflow <;> cases rc <;> simp +contextual [commit]

/-- A fully executed result is reported correctly when the instruction does what `commit` does. -/
def Faithful (r : ConstantPropagationResult) (inst : UGeckoInstruction) (s : PowerPCState) :
    Prop :=
  r.instructionFullyExecuted = true → execute inst s = r.commit s

theorem unevaluated_faithful (inst : UGeckoInstruction) (s : PowerPCState) :
    unevaluated.Faithful inst s := by
  intro executed
  exact absurd executed (by decide)

/-- A value that may only be computed from known registers. -/
theorem unless_known_faithful {known : Bool} {r : ConstantPropagationResult}
    {inst : UGeckoInstruction} {s : PowerPCState} (h : known = true → r.Faithful inst s) :
    (if !known then unevaluated else r).Faithful inst s := by
  cases known with
  | false => exact unevaluated_faithful inst s
  | true => exact h rfl

/-- The dual guard: a shortcut taken under a condition, nothing otherwise. -/
theorem only_when_faithful {P : Prop} [Decidable P] {r : ConstantPropagationResult}
    {inst : UGeckoInstruction} {s : PowerPCState} (h : P → r.Faithful inst s) :
    (if P then r else unevaluated).Faithful inst s := by
  by_cases hp : P
  · rw [if_pos hp]
    exact h hp
  · rw [if_neg hp]
    exact unevaluated_faithful inst s

end ConstantPropagationResult

open ConstantPropagationResult

/-! ## Handlers as effects

Every handler of table 31 that can be evaluated writes one register, perhaps CA, perhaps
OV, and perhaps CR0: its run is the `commit` of a result. -/

section Effects

variable (inst : UGeckoInstruction) (s : PowerPCState)

def arithEffect (d : BitVec 32) (carry : Option Bool) (overflow : Bool) :
    ConstantPropagationResult :=
  { ofValue inst.rd d inst.rc with
    carry := carry
    overflow := if inst.oe then some overflow else none }

def logicEffect (a : BitVec 32) (carry : Option Bool) : ConstantPropagationResult :=
  { ofValue inst.ra a inst.rc with carry := carry }

theorem updateOE_commit (d : BitVec 32) (overflow : Bool) :
    updateRc inst (updateOE inst (s.setGPR inst.rd d) overflow) d =
      (arithEffect inst d none overflow).commit s := by
  cases hoe : inst.oe <;> simp [arithEffect, commit, ofValue, updateRc, updateOE, hoe]

theorem carrying_commit (x y result : BitVec 32) (carry : Bool) :
    carrying inst s x y result carry =
      (arithEffect inst result (some carry) (hasAddOverflowed x y result)).commit s := by
  cases hoe : inst.oe <;>
    simp [carrying, arithEffect, commit, ofValue, updateRc, updateOE, hoe]

theorem updateRc_commit (d : BitVec 32) (overflow : Bool) (hoe : inst.oe = false) :
    updateRc inst (s.setGPR inst.rd d) d = (arithEffect inst d none overflow).commit s := by
  simp [arithEffect, commit, ofValue, updateRc, hoe]

theorem logic_commit (a : BitVec 32) :
    updateRc inst (s.setGPR inst.ra a) a = (logicEffect inst a none).commit s := rfl

theorem logic_carry_commit (a : BitVec 32) (carry : Bool) :
    updateRc inst ((s.setGPR inst.ra a).setCarry carry) a =
      (logicEffect inst a (some carry)).commit s := rfl

end Effects

/-! ## Immediate forms and rotates -/

/-- The state holds the known values. -/
def ConstantPropagation.Matches (k : ConstantPropagation) (s : PowerPCState) : Prop :=
  ∀ i, k.hasGPR i = true → s.gpr i = k.getGPR i

section Primary

variable {k : ConstantPropagation} {inst : UGeckoInstruction} {s : PowerPCState}

theorem execute_primary {n : BitVec 6} {fn : Instruction} (h : inst.opcd = n)
    (row : Interpreter.primaryTable.lookup n = some fn) (h31 : n ≠ 31#6) :
    execute inst s = fn inst s := by
  simp [execute, getInterpreterOp, h, h31, row]

theorem evaluateMulImm_faithful (m : k.Matches s) (h : inst.opcd = 7) :
    (k.evaluateMulImm inst).Faithful inst s := by
  have run : execute inst s = mulli inst s := execute_primary h rfl (by decide)
  unfold ConstantPropagation.evaluateMulImm
  by_cases zero : inst.simm16 = 0
  · rw [if_pos zero]
    intro _
    simp [run, mulli, commit, ofValue, UGeckoInstruction.simm, zero]
  · rw [if_neg zero]
    refine unless_known_faithful fun known _ => ?_
    rw [run, mulli, m _ known]
    rfl

theorem evaluateSubImmCarry_faithful (m : k.Matches s) (h : inst.opcd = 8) :
    (k.evaluateSubImmCarry inst).Faithful inst s := by
  refine unless_known_faithful fun known _ => ?_
  rw [execute_primary h rfl (by decide), subfic, carry_of_sub_imm, m _ known]
  rfl

theorem evaluateAddImm_faithful (m : k.Matches s) (h : inst.opcd = 14 ∨ inst.opcd = 15) :
    (k.evaluateAddImm inst).Faithful inst s := by
  have run : execute inst s =
      if inst.opcd.getLsbD 0 then addis inst s else addi inst s := by
    rcases h with h | h
    · rw [execute_primary h rfl (by decide), h, if_neg (by decide)]
    · rw [execute_primary h rfl (by decide), h, if_pos (by decide)]
  unfold ConstantPropagation.evaluateAddImm
  by_cases zero : inst.ra = 0
  · rw [if_pos zero]
    intro _
    rw [run, addi, addis, if_neg (not_not_intro zero), if_neg (not_not_intro zero)]
    cases inst.opcd.getLsbD 0 <;> simp [commit, ofValue]
  · rw [if_neg zero]
    refine unless_known_faithful fun known _ => ?_
    rw [run, addi, addis, if_pos zero, if_pos zero, m _ known]
    cases inst.opcd.getLsbD 0 <;> simp [commit, ofValue]

theorem evaluateAddImmCarry_faithful (m : k.Matches s)
    (h : inst.opcd = 12 ∨ inst.opcd = 13) :
    (k.evaluateAddImmCarry inst).Faithful inst s := by
  refine unless_known_faithful fun known _ => ?_
  rcases h with h | h
  · rw [execute_primary h rfl (by decide), addic, m _ known, h]
    rfl
  · rw [execute_primary h rfl (by decide), addicRc, addic, m _ known, h]
    simp [commit, ofValue]

theorem evaluateRlwimix_faithful (m : k.Matches s) (h : inst.opcd = 20) :
    (k.evaluateRlwimix inst).Faithful inst s := by
  have run : execute inst s = rlwimix inst s := execute_primary h rfl (by decide)
  refine unless_known_faithful fun known => ?_
  by_cases full : makeRotationMask inst.mb inst.me = 0xFFFFFFFF
  · rw [if_pos full]
    intro _
    -- Every bit is inserted, so the old value of rA is not needed.
    have ones : (0xFFFFFFFF : BitVec 32) = BitVec.allOnes 32 := rfl
    simp only [run, rlwimix, full, ones, BitVec.not_allOnes, BitVec.and_zero, BitVec.zero_or,
      BitVec.and_allOnes, setGPR_gpr_self, m _ known]
    rfl
  · rw [if_neg full]
    refine unless_known_faithful fun known' _ => ?_
    simp only [run, rlwimix, setGPR_gpr_self, m _ known, m _ known']
    rfl

theorem evaluateRlwinmx_faithful (m : k.Matches s) (h : inst.opcd = 21) :
    (k.evaluateRlwinmxRlwnmx inst (inst.sh.setWidth 32)).Faithful inst s := by
  refine unless_known_faithful fun known _ => ?_
  have amount : (inst.sh.setWidth 32).toNat = inst.sh.toNat := by
    have := inst.sh.isLt
    rw [BitVec.toNat_setWidth]
    omega
  simp only [execute_primary h rfl (by decide), rlwinmx, setGPR_gpr_self, m _ known, amount]
  rfl

theorem evaluateRlwnmx_faithful (m : k.Matches s) (h : inst.opcd = 23)
    (known : k.hasGPR inst.rb = true) :
    (k.evaluateRlwinmxRlwnmx inst (k.getGPR inst.rb &&& 0x1F)).Faithful inst s := by
  refine unless_known_faithful fun known' _ => ?_
  simp only [execute_primary h rfl (by decide), rlwnmx, setGPR_gpr_self, m _ known, m _ known']
  rfl

/-- The interpreter's six immediate logical operations, from the operator and the opcode's
low bit. -/
theorem evaluateBitwiseImm_faithful (m : k.Matches s) {doOp : BitOp} {imm : BitVec 32}
    (himm : imm = if inst.opcd.getLsbD 0 then inst.uimm32 <<< 16 else inst.uimm32)
    (run : execute inst s =
      let s := s.setGPR inst.ra (doOp.apply (s.gpr inst.rs) imm)
      if doOp = .and then helperUpdateCR0 s (s.gpr inst.ra) else s) :
    (k.evaluateBitwiseImm inst doOp).Faithful inst s := by
  unfold ConstantPropagation.evaluateBitwiseImm
  rw [← himm]
  by_cases idle : (inst.uimm = 0 && !(doOp = .and : Bool) && inst.ra = inst.rs) = true
  · rw [if_pos idle]
    intro _
    obtain ⟨⟨zero, other⟩, same⟩ : (inst.uimm = 0 ∧ doOp ≠ .and) ∧ inst.ra = inst.rs := by
      simpa using idle
    have noImm : imm = 0 := by
      simp [himm, UGeckoInstruction.uimm32, zero]
    have kept : doOp.apply (s.gpr inst.rs) imm = s.gpr inst.rs := by
      rw [noImm]
      cases doOp with
      | or => simp [BitOp.apply]
      | and => exact absurd rfl other
      | xor => simp [BitOp.apply]
    rw [run, kept, if_neg other, same]
    exact setGPR_gpr s inst.rs
  · rw [if_neg idle]
    refine unless_known_faithful fun known _ => ?_
    rw [run, m _ known]
    cases doOp <;> simp [commit, ofValue]

end Primary

/-! ## Table 31 -/

section Table31

variable {k : ConstantPropagation} {inst : UGeckoInstruction} {flags : InstructionFlags}
  {s : PowerPCState}

theorem execute_table31 {n : Nat} {fn : Instruction} (h31 : inst.opcd = 31)
    (sub : inst.subop10.toNat = n)
    (row : Interpreter.table31.lookup (BitVec.ofNat 10 n) = some fn) :
    execute inst s = fn inst s := by
  rw [← sub, BitVec.ofNat_toNat, BitVec.setWidth_eq] at row
  simp [execute, getInterpreterOp, h31, row]

theorem flags_table31 {n : Nat} {fl : InstructionFlags} (h31 : inst.opcd = 31)
    (hflags : integerFlags inst = some flags) (sub : inst.subop10.toNat = n)
    (row : Gekko.table31.lookup (BitVec.ofNat 10 n) = some fl) : flags = fl := by
  rw [← sub, BitVec.ofNat_toNat, BitVec.setWidth_eq] at row
  rw [integerFlags, if_pos h31, row] at hflags
  exact (Option.some.inj hflags).symm

theorem oe_of_subop10 {n : Nat} (sub : inst.subop10.toNat = n) :
    inst.oe = (BitVec.ofNat 10 n).getLsbD 9 := by
  rw [← sub, BitVec.ofNat_toNat, BitVec.setWidth_eq, inst.oe_eq_subop10]

/-- In the rows that write `rD`, the OE flag of the table is the OE bit of the word. -/
theorem setOE_eq_oe (h31 : inst.opcd = 31) (hflags : integerFlags inst = some flags)
    (outD : flags.has flOutD = true) : flags.has flSetOE = inst.oe := by
  have rows : (Gekko.table31.all fun row =>
      !row.2.has flOutD || row.2.has flSetOE == row.1.getLsbD 9) = true := rfl
  rw [integerFlags, if_pos h31] at hflags
  obtain ⟨before, after, split, -⟩ := List.lookup_eq_some_iff.mp hflags
  have row := List.all_eq_true.mp rows (inst.subop10, flags) (by simp [split])
  rw [outD, Bool.not_true, Bool.false_or, beq_iff_eq] at row
  rw [inst.oe_eq_subop10]
  exact row

/-- The result `EvaluateTable31AB` builds from `d` and `d_overflow`, against the effect of the
handler: the value, the carry flag and the overflow flag are three independent checks. -/
theorem abResult_faithful {d dOverflow : BitVec 64} {v : BitVec 32} {carry : Option Bool}
    {o : Bool} (run : execute inst s = (arithEffect inst v carry o).commit s)
    (value : d.setWidth 32 = v)
    (hcarry : (if flags.has flSetCA then some (d >>> 32 != 0) else none) = carry)
    (hoe : flags.has flSetOE = inst.oe)
    (hov : inst.oe = true → (dOverflow != (dOverflow.setWidth 32).signExtend 64) = o) :
    ConstantPropagationResult.Faithful
      { ofValue inst.rd (d.setWidth 32) inst.rc with
        carry := if flags.has flSetCA then some (d >>> 32 != 0) else none
        overflow := if flags.has flSetOE then
            some (dOverflow != (dOverflow.setWidth 32).signExtend 64)
          else none } inst s := by
  intro _
  rw [run, hcarry, hoe, value, arithEffect]
  cases oe : inst.oe with
  | false => rfl
  | true => simp [hov oe]

theorem mullwx_commit (inst : UGeckoInstruction) (s : PowerPCState) :
    mullwx inst s =
      let result := (s.gpr inst.ra).signExtend 64 * (s.gpr inst.rb).signExtend 64
      (arithEffect inst (result.setWidth 32) none
        (result.slt (-0x80000000#64) || (0x7FFFFFFF#64).slt result)).commit s := by
  simp only [mullwx, updateOE_gpr, setGPR_gpr_self, updateOE_commit]

theorem divwux_commit (inst : UGeckoInstruction) (s : PowerPCState) :
    divwux inst s = (arithEffect inst (divwuQuotient (s.gpr inst.ra) (s.gpr inst.rb)) none
      (s.gpr inst.rb = 0)).commit s := by
  simp only [divwux, updateOE_gpr, setGPR_gpr_self, updateOE_commit]

theorem divwx_commit (inst : UGeckoInstruction) (s : PowerPCState) :
    divwx inst s = (arithEffect inst (divwQuotient (s.gpr inst.ra) (s.gpr inst.rb)) none
      (s.gpr inst.rb = 0 ∨ (s.gpr inst.ra = 0x80000000 ∧ s.gpr inst.rb = 0xFFFFFFFF))).commit
        s := by
  simp only [divwx, updateOE_gpr, setGPR_gpr_self, updateOE_commit]

theorem negx_commit (inst : UGeckoInstruction) (s : PowerPCState) :
    negx inst s =
      (arithEffect inst (~~~s.gpr inst.ra + 1) none (s.gpr inst.ra == 0x80000000)).commit s := by
  simp only [negx, updateOE_gpr, setGPR_gpr_self, updateOE_commit]

theorem mulhwx_low (x : BitVec 64) :
    (x >>> 32).setWidth 32 = (x.sshiftRight 32).setWidth 32 := by
  apply BitVec.eq_of_getLsbD_eq
  intro i hi
  have inside : 32 + i < 64 := by omega
  simp [BitVec.getLsbD_sshiftRight, hi, inside]
  omega

/-- A word that is at least `2 ^ 31` is the one `divwuox` quotient that `d_overflow`, read as
signed, mistakes for an overflow. -/
theorem overflow_of_divwu (q : BitVec 32) :
    (q.setWidth 64 != ((q.setWidth 64).setWidth 32).signExtend 64) = q.msb := by
  have := q.isLt
  have small : (q.setWidth 64).toInt = q.toNat := by
    rw [BitVec.toInt_setWidth, Int.bmod_eq_of_le (by omega) (by omega)]
  rw [ne_signExtend_low, small, BitVec.msb_eq_decide, decide_eq_decide]
  omega

theorem overflow_of_divw (q : BitVec 32) :
    (q.signExtend 64 != ((q.signExtend 64).setWidth 32).signExtend 64) = false := by
  have := q.toInt_lt
  have := q.le_toInt
  rw [ne_signExtend_low, BitVec.toInt_signExtend_of_le (by decide), decide_eq_false_iff_not]
  omega

theorem divwu_low (a b : BitVec 32) :
    (if b = 0 then 0x100000000#64 else (a / b).setWidth 64).setWidth 32 = divwuQuotient a b := by
  unfold divwuQuotient
  split
  · rfl
  · exact BitVec.setWidth_setWidth_of_le _ (by decide)

theorem divw_low (a b : BitVec 32) :
    (if b = 0 ∨ (a = 0x80000000 ∧ b = 0xFFFFFFFF) then
        if a.msb then 0xFFFFFFFF#64 else 0x100000000#64
      else (a.sdiv b).signExtend 64).setWidth 32 = divwQuotient a b := by
  unfold divwQuotient
  split
  · split <;> rfl
  · exact setWidth_signExtend _

/-- `divwuox` of a value with its top bit set by one. -/
def ConstantPropagation.LargeQuotient (k : ConstantPropagation) (inst : UGeckoInstruction) :
    Prop :=
  inst.opcd = 31 ∧ inst.subop10 = 971 ∧ k.hasGPR inst.ra = true ∧ k.hasGPR inst.rb = true ∧
    0x80000000 ≤ k.getGPR inst.ra ∧ k.getGPR inst.rb = 1

instance (k : ConstantPropagation) (inst : UGeckoInstruction) : Decidable (k.LargeQuotient inst) := by
  unfold ConstantPropagation.LargeQuotient
  infer_instance

theorem divwu_msb {a b : BitVec 32} (hb : b ≠ 0) (h : (a / b).msb = true) :
    0x80000000 ≤ a ∧ b = 1 := by
  have pos : 0 < b.toNat := by
    rw [Nat.pos_iff_ne_zero]
    exact fun zero => hb (BitVec.eq_of_toNat_eq zero)
  rw [BitVec.msb_eq_decide, decide_eq_true_iff, BitVec.toNat_udiv] at h
  have big : 2 ^ 31 * b.toNat ≤ a.toNat := (Nat.le_div_iff_mul_le pos).mp h
  have := a.isLt
  constructor
  · have bound : (0x80000000 : BitVec 32).toNat = 2 ^ 31 := rfl
    rw [BitVec.le_def]
    omega
  · have one : (1 : BitVec 32).toNat = 1 := rfl
    apply BitVec.eq_of_toNat_eq
    omega

theorem table31AB_known_faithful (h31 : inst.opcd = 31) (hflags : integerFlags inst = some flags)
    (hoe : flags.has flSetOE = inst.oe) {d dOverflow : BitVec 64}
    (large : ¬ (inst.subop10 = 971 ∧ 0x80000000 ≤ s.gpr inst.ra ∧ s.gpr inst.rb = 1))
    (hv : ConstantPropagation.table31ABValue inst (s.gpr inst.ra) (s.gpr inst.rb) =
      some (d, dOverflow)) :
    ConstantPropagationResult.Faithful
      { ofValue inst.rd (d.setWidth 32) inst.rc with
        carry := if flags.has flSetCA then some (d >>> 32 != 0) else none
        overflow := if flags.has flSetOE then
            some (dOverflow != (dOverflow.setWidth 32).signExtend 64)
          else none } inst s := by
  unfold ConstantPropagation.table31ABValue at hv
  split at hv
  case h_1 sub | h_3 sub =>                                       -- subfcx, subfcox
    cases hv
    exact abResult_faithful
      ((execute_table31 h31 sub rfl).trans (carrying_commit inst s _ _ _ _)) (low_of_sub _ _)
      (by rw [flags_table31 h31 hflags sub rfl, ← carry_of_sub]; rfl) hoe
      (fun _ => overflow_of_sub _ _)
  case h_2 sub | h_4 sub =>                                       -- subfx, subfox
    cases hv
    exact abResult_faithful
      ((execute_table31 h31 sub rfl).trans (updateOE_commit inst s _ _)) (low_of_sub _ _)
      (by rw [flags_table31 h31 hflags sub rfl]; rfl) hoe (fun _ => overflow_of_sub _ _)
  case h_5 sub | h_6 sub =>                                       -- addcx, addcox
    cases hv
    exact abResult_faithful
      ((execute_table31 h31 sub rfl).trans (carrying_commit inst s _ _ _ _)) (low_of_add _ _)
      (by rw [flags_table31 h31 hflags sub rfl, ← carry_of_add]; rfl) hoe
      (fun _ => overflow_of_add _ _)
  case h_7 sub | h_8 sub =>                                       -- addx, addox
    cases hv
    exact abResult_faithful
      ((execute_table31 h31 sub rfl).trans (updateOE_commit inst s _ _)) (low_of_add _ _)
      (by rw [flags_table31 h31 hflags sub rfl]; rfl) hoe (fun _ => overflow_of_add _ _)
  case h_9 sub =>                                                 -- mulhwux
    cases hv
    have noOE : inst.oe = false := (oe_of_subop10 sub).trans rfl
    exact abResult_faithful (o := false)
      ((execute_table31 h31 sub rfl).trans (updateRc_commit inst s _ _ noOE)) rfl
      (by rw [flags_table31 h31 hflags sub rfl]; rfl) hoe (fun oe => absurd oe (by simp [noOE]))
  case h_10 sub =>                                                -- mulhwx
    cases hv
    have noOE : inst.oe = false := (oe_of_subop10 sub).trans rfl
    exact abResult_faithful (o := false)
      ((execute_table31 h31 sub rfl).trans (updateRc_commit inst s _ _ noOE)) (mulhwx_low _)
      (by rw [flags_table31 h31 hflags sub rfl]; rfl) hoe (fun oe => absurd oe (by simp [noOE]))
  case h_11 sub | h_12 sub =>                                     -- mullwx, mullwox
    cases hv
    exact abResult_faithful ((execute_table31 h31 sub rfl).trans (mullwx_commit inst s)) rfl
      (by rw [flags_table31 h31 hflags sub rfl]; rfl) hoe (fun _ => overflow_of_mul _)
  case h_13 sub =>                                                -- divwux
    cases hv
    have noOE : inst.oe = false := (oe_of_subop10 sub).trans rfl
    exact abResult_faithful ((execute_table31 h31 sub rfl).trans (divwux_commit inst s))
      (divwu_low _ _) (by rw [flags_table31 h31 hflags sub rfl]; rfl) hoe
      (fun oe => absurd oe (by simp [noOE]))
  case h_14 sub =>                                                -- divwuox
    cases hv
    refine abResult_faithful ((execute_table31 h31 sub rfl).trans (divwux_commit inst s))
      (divwu_low _ _) (by rw [flags_table31 h31 hflags sub rfl]; rfl) hoe (fun _ => ?_)
    by_cases zero : s.gpr inst.rb = 0
    · simp [zero]
    · have noTop : (s.gpr inst.ra / s.gpr inst.rb).msb = false := by
        rw [Bool.eq_false_iff]
        exact fun top => large ⟨BitVec.eq_of_toNat_eq sub, divwu_msb zero top⟩
      rw [if_neg zero, overflow_of_divwu, noTop, decide_eq_false zero]
  case h_15 sub | h_16 sub =>                                     -- divwx, divwox
    cases hv
    refine abResult_faithful ((execute_table31 h31 sub rfl).trans (divwx_commit inst s))
      (divw_low _ _) (by rw [flags_table31 h31 hflags sub rfl]; rfl) hoe (fun _ => ?_)
    split
    · rename_i undefined
      rw [decide_eq_true undefined]
      split <;> rfl
    · rename_i defined
      rw [overflow_of_divw, decide_eq_false defined]
  case h_17 => cases hv

/-! ### One operand known -/

/-- A shortcut of the `AB` forms: a fixed value, carry and overflow. -/
theorem shortcut_faithful {v : BitVec 32} {carry : Option Bool} {overflow : Bool}
    (run : execute inst s = (arithEffect inst v carry overflow).commit s)
    (hoe : flags.has flSetOE = inst.oe) :
    ConstantPropagationResult.Faithful
      { ofValue inst.rd v inst.rc with
        carry := carry
        overflow := if flags.has flSetOE then some overflow else none } inst s := by
  intro _
  rw [run, hoe, arithEffect]

theorem mul_zero_run (h31 : inst.opcd = 31) (zero : s.gpr inst.ra = 0 ∨ s.gpr inst.rb = 0) {n : Nat}
    (sub : inst.subop10.toNat = n) (hn : n = 11 ∨ n = 75 ∨ n = 235 ∨ n = 747) :
    execute inst s = (arithEffect inst 0 none false).commit s := by
  have unsigned : (s.gpr inst.ra).setWidth 64 * (s.gpr inst.rb).setWidth 64 = 0 := by
    rcases zero with zero | zero <;> simp [zero]
  have signed : (s.gpr inst.ra).signExtend 64 * (s.gpr inst.rb).signExtend 64 = 0 := by
    rcases zero with zero | zero <;> simp [zero]
  rcases hn with rfl | rfl | rfl | rfl
  · have noOE : inst.oe = false := (oe_of_subop10 sub).trans rfl
    rw [execute_table31 h31 sub rfl, mulhwux, unsigned]
    exact updateRc_commit inst s _ _ noOE
  · have noOE : inst.oe = false := (oe_of_subop10 sub).trans rfl
    rw [execute_table31 h31 sub rfl, mulhwx, signed]
    exact updateRc_commit inst s _ _ noOE
  · rw [execute_table31 h31 sub rfl, mullwx_commit, signed]
    rfl
  · rw [execute_table31 h31 sub rfl, mullwx_commit, signed]
    rfl

/-- A zero dividend gives a zero quotient; the overflow flag, which would depend on the
divisor, is only left out when the instruction does not set it. -/
theorem zero_dividend_faithful (zero : s.gpr inst.ra = 0) (hoe : flags.has flSetOE = inst.oe)
    (noOE : flags.has flSetOE = false)
    (run : execute inst s = divwux inst s ∨ execute inst s = divwx inst s) :
    (ofValue inst.rd 0 inst.rc).Faithful inst s := by
  intro _
  rw [hoe] at noOE
  have unsigned : divwuQuotient 0 (s.gpr inst.rb) = 0 := by
    unfold divwuQuotient
    split <;> simp
  have signed : divwQuotient 0 (s.gpr inst.rb) = 0 := by
    unfold divwQuotient
    split
    · rfl
    · exact BitVec.zero_sdiv
  rcases run with run | run
  · rw [run, divwux_commit, zero, unsigned, arithEffect, noOE]
    rfl
  · rw [run, divwx_commit, zero, signed, arithEffect, noOE]
    rfl

theorem evaluateTable31ABOneRegisterKnown_faithful (h31 : inst.opcd = 31)
    (hoe : flags.has flSetOE = inst.oe) {value : BitVec 32} {knownRegIsB : Bool}
    (operand : (if knownRegIsB then s.gpr inst.rb else s.gpr inst.ra) = value) :
    (ConstantPropagation.evaluateTable31ABOneRegisterKnown inst flags value
      knownRegIsB).Faithful inst s := by
  have mul {n : Nat} (sub : inst.subop10.toNat = n)
      (hn : n = 11 ∨ n = 75 ∨ n = 235 ∨ n = 747) :
      ConstantPropagationResult.Faithful
        (if value = 0 then
          { ofValue inst.rd 0 inst.rc with
            overflow := if flags.has flSetOE then some false else none }
        else unevaluated) inst s := by
    refine only_when_faithful fun zero => shortcut_faithful (mul_zero_run h31 ?_ sub hn) hoe
    cases knownRegIsB <;> simp_all
  have dividend (run : execute inst s = divwux inst s ∨ execute inst s = divwx inst s) :
      (ConstantPropagation.evaluateZeroDividend inst flags value knownRegIsB).Faithful inst s := by
    refine only_when_faithful fun cond => ?_
    simp only [Bool.and_eq_true, Bool.not_eq_true', decide_eq_true_eq] at cond
    obtain ⟨⟨isA, zero⟩, noOE⟩ := cond
    refine zero_dividend_faithful ?_ hoe noOE run
    simpa [isA, zero] using operand
  have unsigned (run : execute inst s = divwux inst s) :
      ConstantPropagationResult.Faithful
        (if knownRegIsB && value = 0 then
          { ofValue inst.rd 0 inst.rc with
            overflow := if flags.has flSetOE then some true else none }
        else ConstantPropagation.evaluateZeroDividend inst flags value knownRegIsB) inst s := by
    split
    · rename_i cond
      simp only [Bool.and_eq_true, decide_eq_true_eq] at cond
      have zero : s.gpr inst.rb = 0 := by simpa [cond] using operand
      refine shortcut_faithful ?_ hoe
      rw [run, divwux_commit, zero, divwuQuotient, if_pos rfl]
      rfl
    · exact dividend (Or.inl run)
  unfold ConstantPropagation.evaluateTable31ABOneRegisterKnown
  split
  case h_1 sub | h_2 sub | h_3 sub | h_4 sub => exact mul sub (by decide)
  case h_5 sub | h_6 sub => exact unsigned (execute_table31 h31 sub rfl)
  case h_7 sub | h_8 sub => exact dividend (Or.inr (execute_table31 h31 sub rfl))
  case h_9 => exact unevaluated_faithful inst s

/-! ### Both operands the same register -/

theorem evaluateTable31ABIdenticalRegisters_faithful (h31 : inst.opcd = 31)
    (hflags : integerFlags inst = some flags) (hoe : flags.has flSetOE = inst.oe)
    (same : inst.ra = inst.rb) :
    (ConstantPropagation.evaluateTable31ABIdenticalRegisters inst flags).Faithful inst s := by
  have difference (a : BitVec 32) : ~~~a + a + 1 = 0 := by
    apply BitVec.eq_of_toNat_eq
    have := a.isLt
    simp only [BitVec.toNat_add, BitVec.toNat_not, BitVec.ofNat_eq_ofNat, BitVec.toNat_ofNat]
    omega
  have carries (a : BitVec 32) : (~~~a == 0xFFFFFFFF || helperCarry a (~~~a + 1)) = true := by
    have := a.isLt
    rw [helperCarry_eq, Bool.or_eq_true, beq_iff_eq, ← BitVec.toNat_inj, decide_eq_true_iff]
    simp only [BitVec.toNat_add, BitVec.toNat_not, BitVec.ofNat_eq_ofNat, BitVec.toNat_ofNat]
    omega
  have fits (a : BitVec 32) : hasAddOverflowed (~~~a) a 0 = false := by
    rw [hasAddOverflowed_eq, BitVec.msb_not]
    cases a.msb <;> simp
  unfold ConstantPropagation.evaluateTable31ABIdenticalRegisters
  split
  case h_1 sub | h_3 sub =>                                       -- subfcx, subfcox
    refine shortcut_faithful ?_ hoe
    rw [execute_table31 h31 sub rfl, subfcx, carrying_commit, same, difference, carries, fits,
      flags_table31 h31 hflags sub rfl]
    rfl
  case h_2 sub | h_4 sub =>                                       -- subfx, subfox
    refine shortcut_faithful ?_ hoe
    rw [execute_table31 h31 sub rfl, subfx, updateOE_commit, same, difference, fits,
      flags_table31 h31 hflags sub rfl]
    rfl
  case h_5 => exact unevaluated_faithful inst s

theorem evaluateTable31AB_faithful (m : k.Matches s) (h31 : inst.opcd = 31)
    (hflags : integerFlags inst = some flags) (hoe : flags.has flSetOE = inst.oe)
    (large : ¬ k.LargeQuotient inst) :
    (k.evaluateTable31AB inst flags).Faithful inst s := by
  unfold ConstantPropagation.evaluateTable31AB
  cases hA : k.hasGPR inst.ra with
  | false =>
      cases hB : k.hasGPR inst.rb with
      | false =>
          simp only [Bool.not_false, Bool.or_self, Bool.false_eq_true, if_true, if_false]
          exact only_when_faithful
            (evaluateTable31ABIdenticalRegisters_faithful h31 hflags hoe)
      | true => exact evaluateTable31ABOneRegisterKnown_faithful h31 hoe (m _ hB)
  | true =>
      cases hB : k.hasGPR inst.rb with
      | false => exact evaluateTable31ABOneRegisterKnown_faithful h31 hoe (m _ hA)
      | true =>
          simp only [Bool.not_true, Bool.or_self, Bool.false_eq_true, if_false]
          split
          · rename_i d dOverflow hv
            rw [← m _ hA, ← m _ hB] at hv
            refine table31AB_known_faithful h31 hflags hoe (fun bad => large ?_) hv
            rw [m _ hA, m _ hB] at bad
            exact ⟨h31, bad.1, hA, hB, bad.2⟩
          · exact unevaluated_faithful inst s

/-! ### Negation and the forms that write `rA` -/

theorem evaluateTable31Negx_faithful (m : k.Matches s) (hoe : flags.has flSetOE = inst.oe)
    (run : execute inst s = negx inst s) :
    (k.evaluateTable31Negx inst flags).Faithful inst s := by
  refine unless_known_faithful fun known => ?_
  have value (a : BitVec 32) : (-a.signExtend 64).setWidth 32 = ~~~a + 1 := by
    rw [BitVec.setWidth_neg_of_le (by decide), setWidth_signExtend, BitVec.neg_eq_not_add]
    rfl
  simp only [value, ← m _ known]
  intro _
  rw [run, negx_commit, hoe, arithEffect, ← overflow_of_neg, value]
  rfl

theorem logical_commit (op : BitVec 32 → BitVec 32 → BitVec 32) (inst : UGeckoInstruction)
    (s : PowerPCState) :
    logical op inst s = (logicEffect inst (op (s.gpr inst.rs) (s.gpr inst.rb)) none).commit s := by
  simp only [logical, setGPR_gpr_self, logic_commit]

theorem unary_commit (op : BitVec 32 → BitVec 32) (inst : UGeckoInstruction) (s : PowerPCState) :
    unary op inst s = (logicEffect inst (op (s.gpr inst.rs)) none).commit s := by
  simp only [unary, setGPR_gpr_self, logic_commit]

theorem srawix_commit (inst : UGeckoInstruction) (s : PowerPCState) :
    srawix inst s = (logicEffect inst ((s.gpr inst.rs).sshiftRight inst.sh.toNat)
      (some (shiftCarry (s.gpr inst.rs) inst.sh.toNat))).commit s := by
  simp only [srawix, setCarry_gpr, setGPR_gpr_self, logic_carry_commit]

/-- `srawx` as one shift by the 6-bit amount: from 32 on the result and the carry are copies of
the sign. -/
theorem srawx_commit (inst : UGeckoInstruction) (s : PowerPCState) :
    srawx inst s =
      let amount := (s.gpr inst.rb &&& 0x3f).toNat
      (logicEffect inst ((s.gpr inst.rs).sshiftRight amount)
        (some (if 32 ≤ amount then (s.gpr inst.rs).msb
          else shiftCarry (s.gpr inst.rs) amount))).commit s := by
  simp only [srawx, and_0x20_ne_zero_iff, and_0x80000000_ne_zero_iff, toNat_and_0x3f,
    toNat_and_0x1f]
  by_cases far : 32 ≤ (s.gpr inst.rb).toNat % 64
  · rw [if_pos far, if_pos far, sshiftRight_of_ge_32 _ far]
    cases (s.gpr inst.rs).msb <;>
      simp only [Bool.false_eq_true, if_true, if_false, setCarry_gpr, setGPR_gpr_self,
        logic_carry_commit]
  · have near : (s.gpr inst.rb).toNat % 32 = (s.gpr inst.rb).toNat % 64 := by omega
    rw [if_neg far, if_neg far, near]
    simp only [setCarry_gpr, setGPR_gpr_self, logic_carry_commit]

theorem evaluateTable31S_faithful (m : k.Matches s) (h31 : inst.opcd = 31) :
    (k.evaluateTable31S inst).Faithful inst s := by
  refine unless_known_faithful fun known => ?_
  rw [← m _ known]
  unfold ConstantPropagation.table31SValue
  split
  · rename_i a carry hv
    intro _
    split at hv
    case h_1 sub =>
      cases hv
      rw [execute_table31 h31 sub rfl, cntlzwx, unary_commit]
      rfl
    case h_2 sub =>
      cases hv
      rw [execute_table31 h31 sub rfl, srawix_commit, carry_of_srawi]
      rfl
    case h_3 sub =>
      cases hv
      rw [execute_table31 h31 sub rfl, extshx, unary_commit]
      rfl
    case h_4 sub =>
      cases hv
      rw [execute_table31 h31 sub rfl, extsbx, unary_commit]
      rfl
    case h_5 => cases hv
  · exact unevaluated_faithful inst s

theorem table31SB_known_faithful (h31 : inst.opcd = 31) {a : BitVec 32} {carry : Option Bool}
    (hv : ConstantPropagation.table31SBValue inst (s.gpr inst.rs) (s.gpr inst.rb) =
      some (a, carry)) :
    execute inst s = (logicEffect inst a carry).commit s := by
  unfold ConstantPropagation.table31SBValue at hv
  split at hv
  case h_1 sub =>                                                 -- slwx
    cases hv
    rw [execute_table31 h31 sub rfl, slwx, logical_commit, shiftLeft_widened]
  case h_10 sub =>                                                -- srwx
    cases hv
    rw [execute_table31 h31 sub rfl, srwx, logical_commit, ushiftRight_widened]
  case h_11 sub =>                                                -- srawx
    cases hv
    have amount : (s.gpr inst.rb &&& 0x3f).toNat < 64 := by
      rw [toNat_and_0x3f]
      omega
    rw [execute_table31 h31 sub rfl, srawx_commit, sshiftRight_parked,
      carry_of_sshiftRight _ _ amount]
  case h_12 => cases hv
  all_goals
    rename_i sub
    cases hv
    rw [execute_table31 h31 sub rfl]
    exact logical_commit _ inst s

theorem logic_shortcut_faithful {op : BitVec 32 → BitVec 32 → BitVec 32} {v : BitVec 32}
    (run : execute inst s = logical op inst s) (value : op (s.gpr inst.rs) (s.gpr inst.rb) = v) :
    (ofValue inst.ra v inst.rc).Faithful inst s := by
  intro _
  rw [run, logical_commit, value]
  rfl

theorem shift_out_faithful {shift : BitVec 32 → Nat → BitVec 32} (zeroed : ∀ n, shift 0 n = 0)
    (run : execute inst s = logical (fun s amount =>
      if amount &&& 0x20 ≠ 0 then 0 else shift s (amount &&& 0x1f).toNat) inst s)
    {value : BitVec 32} {knownRegIsB : Bool}
    (operand : (if knownRegIsB then s.gpr inst.rb else s.gpr inst.rs) = value) :
    ConstantPropagationResult.Faithful
      (if (!knownRegIsB && value = 0) || (knownRegIsB && value &&& 0x20 ≠ 0) then
        ofValue inst.ra 0 inst.rc
      else unevaluated) inst s := by
  refine only_when_faithful fun cond => logic_shortcut_faithful run ?_
  cases knownRegIsB with
  | false =>
      have zero : s.gpr inst.rs = 0 := by simp_all
      rw [zero, zeroed, ite_self]
  | true =>
      have far : s.gpr inst.rb &&& 0x20 ≠ 0 := by simp_all
      rw [if_pos far]

/-- A logical feration with an absorbing operand on either side. -/
theorem absorbing_faithful {f : BitVec 32 → BitVec 32 → BitVec 32} {l r v : BitVec 32}
    (left : ∀ b, f l b = v) (right : ∀ a, f a r = v)
    (run : execute inst s = logical f inst s) {value : BitVec 32} {knownRegIsB : Bool}
    (operand : (if knownRegIsB then s.gpr inst.rb else s.gpr inst.rs) = value) {P : Prop}
    [Decidable P] (absorbs : P → value = if knownRegIsB then r else l) :
    ConstantPropagationResult.Faithful
      (if P then ofValue inst.ra v inst.rc else unevaluated) inst s := by
  refine only_when_faithful fun cond => logic_shortcut_faithful run ?_
  have known := operand.trans (absorbs cond)
  cases knownRegIsB with
  | false =>
      rw [show s.gpr inst.rs = l from known]
      exact left _
  | true =>
      rw [show s.gpr inst.rb = r from known]
      exact right _

theorem evaluateTable31SBOneRegisterKnown_faithful (h31 : inst.opcd = 31) {value : BitVec 32}
    {knownRegIsB : Bool}
    (operand : (if knownRegIsB then s.gpr inst.rb else s.gpr inst.rs) = value) :
    (ConstantPropagation.evaluateTable31SBOneRegisterKnown inst value
      knownRegIsB).Faithful inst s := by
  have or_ones (x : BitVec 32) : x ||| 0xFFFFFFFF = 0xFFFFFFFF := BitVec.or_allOnes
  have ones_or (x : BitVec 32) : 0xFFFFFFFF ||| x = 0xFFFFFFFF := BitVec.allOnes_or
  have and_zero (x : BitVec 32) : x &&& 0 = 0 := BitVec.and_zero
  have zero_and (x : BitVec 32) : 0 &&& x = 0 := BitVec.zero_and
  have not_ones : ~~~(0xFFFFFFFF : BitVec 32) = 0 := rfl
  have not_zero : ~~~(0 : BitVec 32) = 0xFFFFFFFF := rfl
  have not_eq (x y z : BitVec 32) (h : ~~~x = y) (hz : ~~~y = z) : x = z := by
    rw [← hz, ← h, BitVec.not_not]
  unfold ConstantPropagation.evaluateTable31SBOneRegisterKnown
  split
  case h_1 sub =>                                                 -- slwx
    exact shift_out_faithful (fun _ => BitVec.zero_shiftLeft _) (execute_table31 h31 sub rfl)
      operand
  case h_2 sub =>                                                 -- srwx
    exact shift_out_faithful (fun _ => BitVec.zero_ushiftRight) (execute_table31 h31 sub rfl)
      operand
  case h_3 sub =>                                                 -- andcx
    have run : execute inst s = andcx inst s := execute_table31 h31 sub rfl
    refine absorbing_faithful (f := fun s b => s &&& ~~~b) (l := 0) (r := 0xFFFFFFFF)
      (fun b => zero_and _)
      (fun a => by rw [not_ones, and_zero]) run operand fun cond => ?_
    cases knownRegIsB with
    | false => exact cond
    | true => exact not_eq _ _ _ cond not_zero
  case h_4 sub =>                                                 -- andx
    have run : execute inst s = andx inst s := execute_table31 h31 sub rfl
    exact absorbing_faithful (l := 0) (r := 0) (fun _ => zero_and _) (fun _ => and_zero _) run
      operand (by simp)
  case h_5 sub =>                                                 -- norx
    have run : execute inst s = norx inst s := execute_table31 h31 sub rfl
    exact absorbing_faithful (l := 0xFFFFFFFF) (r := 0xFFFFFFFF)
      (fun b => by rw [ones_or, not_ones]) (fun a => by rw [or_ones, not_ones]) run operand
      (by simp)
  case h_6 sub =>                                                 -- orcx
    have run : execute inst s = orcx inst s := execute_table31 h31 sub rfl
    refine absorbing_faithful (f := fun s b => s ||| ~~~b) (l := 0xFFFFFFFF) (r := 0)
      (fun b => ones_or _)
      (fun a => by rw [not_zero, or_ones]) run operand fun cond => ?_
    cases knownRegIsB with
    | false => exact cond
    | true => exact not_eq _ _ _ cond not_ones
  case h_7 sub =>                                                 -- orx
    have run : execute inst s = orx inst s := execute_table31 h31 sub rfl
    exact absorbing_faithful (l := 0xFFFFFFFF) (r := 0xFFFFFFFF) (fun b => ones_or _)
      (fun a => or_ones _) run operand (by simp)
  case h_8 sub =>                                                 -- nandx
    have run : execute inst s = nandx inst s := execute_table31 h31 sub rfl
    exact absorbing_faithful (l := 0) (r := 0) (fun b => by rw [zero_and, not_zero])
      (fun a => by rw [and_zero, not_zero]) run operand (by simp)
  case h_9 sub =>                                                 -- srawx
    refine only_when_faithful fun cond _ => ?_
    have zero : s.gpr inst.rs = 0 := by simp_all
    rw [execute_table31 h31 sub rfl, srawx_commit, zero]
    simp [logicEffect, ofValue, shiftCarry]
  case h_10 => exact unevaluated_faithful inst s

theorem evaluateTable31SBIdenticalRegisters_faithful (h31 : inst.opcd = 31)
    (same : inst.rs = inst.rb) :
    (ConstantPropagation.evaluateTable31SBIdenticalRegisters inst).Faithful inst s := by
  unfold ConstantPropagation.evaluateTable31SBIdenticalRegisters
  split
  case h_5 => exact unevaluated_faithful inst s
  all_goals
    rename_i sub
    intro _
    rw [execute_table31 h31 sub rfl]
    refine (logical_commit _ inst s).trans ?_
    simp [same, logicEffect, ofValue]

theorem evaluateTable31SB_faithful (m : k.Matches s) (h31 : inst.opcd = 31) :
    (k.evaluateTable31SB inst).Faithful inst s := by
  unfold ConstantPropagation.evaluateTable31SB
  cases hS : k.hasGPR inst.rs with
  | false =>
      cases hB : k.hasGPR inst.rb with
      | false =>
          simp only [Bool.not_false, Bool.or_self, Bool.false_eq_true, if_true, if_false]
          exact only_when_faithful (evaluateTable31SBIdenticalRegisters_faithful h31)
      | true => exact evaluateTable31SBOneRegisterKnown_faithful h31 (m _ hB)
  | true =>
      cases hB : k.hasGPR inst.rb with
      | false => exact evaluateTable31SBOneRegisterKnown_faithful h31 (m _ hS)
      | true =>
          simp only [Bool.not_true, Bool.or_self, Bool.false_eq_true, if_false]
          split
          · rename_i a carry hv
            rw [← m _ hS, ← m _ hB] at hv
            exact fun _ => table31SB_known_faithful h31 hv
          · exact unevaluated_faithful inst s

theorem evaluateTable31_faithful (m : k.Matches s) (h31 : inst.opcd = 31)
    (hflags : integerFlags inst = some flags) (large : ¬ k.LargeQuotient inst) :
    (k.evaluateTable31 inst flags).Faithful inst s := by
  unfold ConstantPropagation.evaluateTable31
  split
  · split
    · rename_i outD
      exact evaluateTable31AB_faithful m h31 hflags (setOE_eq_oe h31 hflags outD) large
    · exact evaluateTable31SB_faithful m h31
  · split
    case h_1 sub | h_2 sub =>                                     -- negx, negox
      have outD : flags.has flOutD = true := by
        rw [flags_table31 h31 hflags sub rfl]
        rfl
      exact evaluateTable31Negx_faithful m (setOE_eq_oe h31 hflags outD)
        (execute_table31 h31 sub rfl)
    case h_3 => exact evaluateTable31S_faithful m h31

end Table31

/-! ## Every integer instruction -/

section Agreement

variable {k : ConstantPropagation} {inst : UGeckoInstruction} {flags : InstructionFlags}

/-- Evaluation is faithful on every integer instruction except one `divwuox` case. -/
theorem evaluateInstruction_faithful {s : PowerPCState} (m : k.Matches s)
    (hflags : integerFlags inst = some flags) (large : ¬ k.LargeQuotient inst) :
    (k.evaluateInstruction inst flags).Faithful inst s := by
  unfold ConstantPropagation.evaluateInstruction
  split
  case h_1 op => exact evaluateMulImm_faithful m (BitVec.eq_of_toNat_eq op)
  case h_2 op => exact evaluateSubImmCarry_faithful m (BitVec.eq_of_toNat_eq op)
  case h_3 op => exact evaluateAddImmCarry_faithful m (Or.inl (BitVec.eq_of_toNat_eq op))
  case h_4 op => exact evaluateAddImmCarry_faithful m (Or.inr (BitVec.eq_of_toNat_eq op))
  case h_5 op => exact evaluateAddImm_faithful m (Or.inl (BitVec.eq_of_toNat_eq op))
  case h_6 op => exact evaluateAddImm_faithful m (Or.inr (BitVec.eq_of_toNat_eq op))
  case h_7 op => exact evaluateRlwimix_faithful m (BitVec.eq_of_toNat_eq op)
  case h_8 op => exact evaluateRlwinmx_faithful m (BitVec.eq_of_toNat_eq op)
  case h_9 op =>
    split
    · rename_i known
      exact evaluateRlwnmx_faithful m (BitVec.eq_of_toNat_eq op) known
    · exact unevaluated_faithful inst s
  case h_16 op => exact evaluateTable31_faithful m (BitVec.eq_of_toNat_eq op) hflags large
  case h_17 => exact unevaluated_faithful inst s
  all_goals
    rename_i op
    have word : inst.opcd = BitVec.ofNat 6 inst.opcd.toNat := by simp
    rw [op] at word
    exact evaluateBitwiseImm_faithful m rfl
      ((execute_primary word rfl (by decide)).trans (by rw [word]; rfl))

/-- In the excluded case the report claims an overflow the interpreter never sets. -/
theorem largeQuotient_overflow {s : PowerPCState} (large : k.LargeQuotient inst)
    (hflags : integerFlags inst = some flags) (m : k.Matches s) :
    (k.evaluateInstruction inst flags).overflow = some true ∧
      (execute inst s).xerOV = false := by
  obtain ⟨h31, sub, hA, hB, top, one⟩ := large
  have sub' : inst.subop10.toNat = 971 := by rw [sub]; rfl
  have setOE : flags.has flSetOE = true := by
    rw [flags_table31 h31 hflags sub' rfl]
    rfl
  have eval : k.evaluateInstruction inst flags = k.evaluateTable31AB inst flags := by
    have hop : inst.opcd.toNat = 31 := by rw [h31]; rfl
    rw [ConstantPropagation.evaluateInstruction, hop, flags_table31 h31 hflags sub' rfl]
    rfl
  have msb : (k.getGPR inst.ra).msb = true := by
    have bound : (0x80000000 : BitVec 32).toNat = 2 ^ 31 := rfl
    rw [BitVec.le_def, bound] at top
    rw [BitVec.msb_eq_decide, decide_eq_true top]
  constructor
  · rw [eval]
    simp only [ConstantPropagation.evaluateTable31AB, hA, hB,
      ConstantPropagation.table31ABValue, sub', setOE, one]
    have notZero : ¬ (1 : BitVec 32) = 0 := by decide
    have byOne : k.getGPR inst.ra / 1 = k.getGPR inst.ra := BitVec.udiv_one
    have overflow := overflow_of_divwu (k.getGPR inst.ra)
    rw [msb] at overflow
    rw [if_neg notZero, byOne, overflow]
    rfl
  · have hoe : inst.oe = true := (oe_of_subop10 sub').trans rfl
    rw [execute_table31 h31 sub' rfl, divwux_commit, m _ hB, one, arithEffect, hoe]
    cases inst.rc <;> rfl

/-- A fully executed result describes what the interpreter does in every matching state, except
for `divwuox` of a value with its top bit set by one. -/
theorem evaluateInstruction_agrees_iff (hflags : integerFlags inst = some flags)
    (executed : (k.evaluateInstruction inst flags).instructionFullyExecuted = true) :
    (∀ s, k.Matches s →
      (k.evaluateInstruction inst flags).HoldsOf s (execute inst s)) ↔
      ¬ k.LargeQuotient inst := by
  constructor
  · intro agrees large
    let s : PowerPCState := ⟨k.gprValues, fun _ => 0, false, false, false⟩
    have m : k.Matches s := fun _ _ => rfl
    obtain ⟨reported, interpreted⟩ := largeQuotient_overflow large hflags m
    have set := ((agrees s m).overflow_set true reported).1
    rw [interpreted] at set
    exact Bool.false_ne_true set
  · intro large s m
    rw [evaluateInstruction_faithful m hflags large executed]
    exact commit_holds _ s

end Agreement

/-- `divwuo r5,r3,r4` with `r3 = 0x80000000` and `r4 = 1` known. -/
def divwuoByOne : UGeckoInstruction := ⟨0x7CA32796⟩

def knownTopByOne : ConstantPropagation where
  gprValues := fun i => if i = 3 then 0x80000000 else 1
  gprValuesKnown := fun i => i = 3 || i = 4

/-- `addic r5,r3,-1` over the same known registers. -/
def addicMinusOne : UGeckoInstruction := ⟨0x30A3FFFF⟩

theorem evaluateInstruction_agrees_addic :
    (∀ s, knownTopByOne.Matches s →
      (knownTopByOne.evaluateInstruction addicMinusOne (flOutD ||| flInA ||| flSetCA)).HoldsOf s
        (execute addicMinusOne s)) ↔ ¬ knownTopByOne.LargeQuotient addicMinusOne :=
  evaluateInstruction_agrees_iff (by decide) (by decide)

theorem evaluateInstruction_not_always_agrees :
    ¬ ∀ (k : ConstantPropagation) (inst : UGeckoInstruction) (flags : InstructionFlags),
      integerFlags inst = some flags →
      (k.evaluateInstruction inst flags).instructionFullyExecuted = true →
      ∀ s, k.Matches s → (k.evaluateInstruction inst flags).HoldsOf s (execute inst s) := by
  intro claim
  let s : PowerPCState := ⟨knownTopByOne.gprValues, fun _ => 0, false, false, false⟩
  have holds := claim knownTopByOne divwuoByOne (flOutD ||| flInAB ||| flRcBit ||| flSetOE)
    (by decide) (by decide) s (fun _ _ => rfl)
  have set := (holds.overflow_set true (by decide)).1
  exact absurd set (by decide)

end Phocoena.JitCommon
