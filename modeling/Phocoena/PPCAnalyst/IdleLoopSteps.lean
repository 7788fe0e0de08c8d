import Phocoena.PPCAnalyst.IdleLoop
import Phocoena.Gekko.Dispatch

/-! # The operations of an idle loop

What one operation of the loop reads and writes, against the registers the analyzer records for it:
an operation leaves what it does not write, and writes the same values from states that agree on
what it reads.
-/

namespace Phocoena.PPCAnalyst

open Gekko Gekko.Interpreter Restart

/-! ## What `Analyze` records -/

/-- The fields of an operation that come from its instruction. -/
structure Recorded (env : Env) (op : CodeOp) : Prop where
  read : env.tryReadInstruction op.address = some op.inst
  opinfo : op.opinfo = getOpInfo op.inst
  regsIn : op.regsIn = regsInOf op.inst op.opinfo
  regsOut : op.regsOut = regsOutOf op.inst op.opinfo
  crIn : op.crIn = crInOf op.inst op.opinfo
  crOut : op.crOut = crOutOf op.inst op.opinfo
  branchUsesCtr : op.branchUsesCtr = branchUsesCtrOf op.inst

theorem readBlock_recorded (a : PPCAnalyzer) (env : Env) (address : BitVec 32) (blockSize : Nat) :
    ∀ op ∈ a.readBlock env address blockSize, Recorded env op := by
  refine @readInstructions_forall a env (Recorded env) ?_ ?_ _ _ _ _ (by simp)
  · intro fpaAny inst address read
    exact ⟨read, rfl, rfl, rfl, rfl, rfl, rfl⟩
  · intro op branchTo skip skipLRStack recorded
    exact ⟨recorded.read, recorded.opinfo, recorded.regsIn, recorded.regsOut, recorded.crIn,
      recorded.crOut, recorded.branchUsesCtr⟩

theorem getLsbD_single {w k : Nat} (i : BitVec k) (j : Nat) (lt : j < w) :
    (single i : BitVec w).getLsbD j = decide (j = i.toNat) := by
  rw [single, BitVec.getLsbD_shiftLeft]
  by_cases below : j < i.toNat
  · have ne : j ≠ i.toNat := by omega
    simp [lt, below, ne]
  · by_cases eq : j = i.toNat
    · subst eq
      have pos : 0 < w := by omega
      simp [lt, pos]
    · have ne : j - i.toNat ≠ 0 := by omega
      simp [lt, below, eq, ne]

section
variable {inst : UGeckoInstruction} {info : GekkoOPInfo}

theorem regsIn_ra (reads : (info.flags.has flInA || info.flags.has flInA0 && inst.ra != 0) = true) :
    (regsInOf inst info).getLsbD inst.ra.toNat = true := by
  simp only [regsInOf, onlyIf, reads, if_true, BitVec.getLsbD_or,
    getLsbD_single inst.ra inst.ra.toNat inst.ra.isLt, decide_true, Bool.true_or]

theorem regsIn_rb (reads : info.flags.has flInB = true) :
    (regsInOf inst info).getLsbD inst.rb.toNat = true := by
  simp only [regsInOf, onlyIf, reads, if_true, BitVec.getLsbD_or,
    getLsbD_single inst.rb inst.rb.toNat inst.rb.isLt, decide_true, Bool.true_or, Bool.or_true]

theorem regsIn_rs (reads : info.flags.has flInS = true) :
    (regsInOf inst info).getLsbD inst.rs.toNat = true := by
  simp only [regsInOf, onlyIf, reads, if_true, BitVec.getLsbD_or,
    getLsbD_single inst.rs inst.rs.toNat inst.rs.isLt, decide_true, Bool.true_or, Bool.or_true]

theorem getLsbD_onlyIf {k : Nat} (c : Bool) (i : BitVec k) (j : Nat) (lt : j < 32) :
    (onlyIf c i : BitVec 32).getLsbD j = true ↔ c = true ∧ j = i.toNat := by
  cases c with
  | false => simp [onlyIf]
  | true => simp [onlyIf, getLsbD_single i j lt]

theorem regsOut_iff (op : inst.opcd ≠ 46) (r : BitVec 5) :
    (regsOutOf inst info).getLsbD r.toNat = true ↔ r ∈ outs inst info.flags := by
  have reg : ∀ i : BitVec 5, r.toNat = i.toNat ↔ r = i := fun i => BitVec.toNat_inj
  simp only [regsOutOf, if_neg op, BitVec.getLsbD_or, Bool.or_eq_true,
    getLsbD_onlyIf _ _ _ r.isLt, reg, outs, List.mem_append]
  cases info.flags.has flOutD <;> cases info.flags.has flOutA <;> simp [or_comm]

theorem crOut_iff (modelled : isModelled (getOpInfo inst).type = true)
    (type : (getOpInfo inst).type = .integer) (i : BitVec 3) :
    (crOutOf inst (getOpInfo inst)).getLsbD i.toNat = true ↔
      crDest inst (getOpInfo inst).flags = some i := by
  obtain ⟨-, all, cr1, rcF, -⟩ := getOpInfo_flags modelled
  have field : ∀ j : BitVec 3, (single j : BitVec 8).getLsbD i.toNat = true ↔ j = i := by
    intro j
    rw [getLsbD_single j _ i.isLt, decide_eq_true_iff, BitVec.toNat_inj, eq_comm]
  simp only [crOutOf, crDest, all, cr1, rcF, type, Bool.false_and, Bool.or_false]
  by_cases crn : (getOpInfo inst).flags.has flSetCRn = true
  · simp [crn, field]
  · by_cases cr0 : ((getOpInfo inst).flags.has flSetCR0 ||
        (getOpInfo inst).flags.has flRcBit && inst.rc) = true
    · rw [if_neg crn, if_neg crn, if_pos cr0, if_pos cr0, Option.some.injEq]
      exact field 0#3
    · simp [crn, cr0]

end

/-! ## What the operations really read and write -/

/-- Two machines agree in a cell. -/
def Cell.same : Cell → Machine → Machine → Prop
  | .gpr r, m, n => m.ppc.gpr r = n.ppc.gpr r
  | .cr i, m, n => m.ppc.cr i = n.ppc.cr i
  | .ca, m, n => m.ppc.xerCA = n.ppc.xerCA
  | .ov, m, n => m.ppc.xerOV = n.ppc.xerOV
  | .lr, m, n => m.lr = n.lr
  | .reserve, m, n => (m.reserve, m.reserveAddress) = (n.reserve, n.reserveAddress)

theorem Cell.same_refl (c : Cell) (m : Machine) : c.same m m := by
  cases c <;> rfl

/-- The second machine is where the first is, with the summary overflow bit that the first will
end with. -/
structure Linked (so : Bool) (m n : Machine) : Prop where
  pc : m.pc = n.pc
  memory : m.memory = n.memory
  msrLE : m.msrLE = n.msrLE
  xerStringctrl : m.xerStringctrl = n.xerStringctrl
  ctr : m.ctr = n.ctr
  xerSO : n.ppc.xerSO = so

def loopView (so : Bool) : View Machine Cell where
  same := Cell.same
  link := Linked so
  symm := by
    intro c s t same
    cases c <;> exact Eq.symm same
  trans := by
    intro c s t u first second
    cases c <;> exact Eq.trans first second

theorem eq_of_same {so : Bool} {m n : Machine} (link : Linked so m n) (bit : m.ppc.xerSO = so)
    (same : ∀ c : Cell, c.same m n) : n = m := by
  have gpr : m.ppc.gpr = n.ppc.gpr := funext fun r => same (.gpr r)
  have cr : m.ppc.cr = n.ppc.cr := funext fun i => same (.cr i)
  have reserve := same .reserve
  have ca := same .ca
  have ov := same .ov
  have lr := same .lr
  simp only [Cell.same, Prod.mk.injEq] at reserve ca ov lr
  obtain ⟨pc, memory, le, stringctrl, ctr, xerSO⟩ := link
  obtain ⟨⟨_, _, _, _, _⟩, _, _, _, _, _, _, _, _⟩ := m
  obtain ⟨⟨_, _, _, _, _⟩, _, _, _, _, _, _, _, _⟩ := n
  simp_all

/-- What one operation does to the machine on the way round the loop. -/
structure StepSpec (env : Env) (other : Handler) (op : CodeOp) (s s' : Machine) : Prop where
  memory : s'.memory = s.memory
  msrLE : s'.msrLE = s.msrLE
  xerStringctrl : s'.xerStringctrl = s.xerStringctrl
  ctr : s'.ctr = s.ctr
  so_mono : s.ppc.xerSO = true → s'.ppc.xerSO = true
  so_kept : op.opinfo.flags.has flSetOE = false → s'.ppc.xerSO = s.ppc.xerSO
  transfers : ∀ so, (s'.ppc.xerSO = true → so = true) →
    (op.copiesSO = true → s'.ppc.xerSO = so) →
    ∃ writes, Transfers (loopView so) (env.stepOp other op) op.reads writes s s' ∧
      writes ⊆ op.writes s.xerStringctrl ∧ op.surelyWrites s.xerStringctrl ⊆ writes

section
variable {env : Env} {other : Handler} {op : CodeOp} {s s' : Machine}

theorem stepOp_eq (recorded : Recorded env op) (place : s.pc = op.address) :
    env.stepOp other op s = runInterpreterOp other op.inst s := by
  rw [Env.stepOp, if_pos place, singleStep, place, recorded.read, Option.bind_some]

/-- Only the loads of table 31 are string loads or reservations. -/
theorem not_load31 (recorded : Recorded env op) (type : op.opinfo.type ≠ .load) :
    op.isStringLoad = false ∧ op.isLwarx = false := by
  rw [recorded.opinfo] at type
  have not31 : ∀ n, n = 20 ∨ n = 533 ∨ n = 597 →
      (op.inst.opcd == 31 && op.inst.subop10 == n) = false := by
    intro n which
    rw [Bool.and_eq_false_iff, beq_eq_false_iff_ne, beq_eq_false_iff_ne, ← not_and_or]
    rintro ⟨opcd, sub⟩
    exact type (type_of_load31 opcd (by rw [sub]; exact which))
  have lswx := not31 533 (by decide)
  have lswi := not31 597 (by decide)
  have lwarx := not31 20 (by decide)
  exact ⟨by rw [CodeOp.isStringLoad, CodeOp.isLswx, CodeOp.isLswi, lswx, lswi]; rfl, lwarx⟩

/-- The operands of an instruction are the same where the cells it reads are. -/
theorem inputs_congr (recorded : Recorded env op) (notNop : op.isNop = false) {t : Machine}
    (agree : ∀ c ∈ op.reads, Cell.same c s t) :
    inputs op.inst (getOpInfo op.inst).flags s.ppc =
      inputs op.inst (getOpInfo op.inst).flags t.ppc := by
  have reg : ∀ r : BitVec 5, (regsInOf op.inst (getOpInfo op.inst)).getLsbD r.toNat = true →
      s.ppc.gpr r = t.ppc.gpr r := by
    intro r mem
    apply agree (.gpr r)
    refine ⟨notNop, ?_⟩
    rw [recorded.regsIn, recorded.opinfo]
    exact mem
  have ca : (getOpInfo op.inst).flags.has flReadCA = true → s.ppc.xerCA = t.ppc.xerCA := by
    intro reads
    apply agree .ca
    show op.opinfo.flags.has flReadCA = true
    rw [recorded.opinfo]
    exact reads
  unfold inputs
  congr 1
  · split
    · exact reg _ (regsIn_ra ‹_›)
    · rfl
  · split
    · exact reg _ (regsIn_rb ‹_›)
    · rfl
  · split
    · exact reg _ (regsIn_rs ‹_›)
    · rfl
  · cases reads : (getOpInfo op.inst).flags.has flReadCA with
    | false => rfl
    | true => rw [ca reads]

theorem gpr_mem_writes (recorded : Recorded env op) (notNop : op.isNop = false)
    (noString : op.isStringLoad = false) (modelled : isModelled (getOpInfo op.inst).type = true)
    (xerStringctrl : BitVec 16) (r : BitVec 5) :
    .gpr r ∈ op.writes xerStringctrl ↔ r ∈ outs op.inst (getOpInfo op.inst).flags := by
  show op.SetsRegister xerStringctrl r ↔ _
  rw [CodeOp.SetsRegister, noString, if_neg Bool.false_ne_true, recorded.regsOut, recorded.opinfo,
    regsOut_iff (opcd_of_modelled modelled).1]
  exact and_iff_right notNop

/-- An operation that writes all that it may write, and no LR. -/
theorem surelyWrites_subset {writes : Set Cell} {xerStringctrl : BitVec 16}
    (eq : writes = op.writes xerStringctrl) :
    writes ⊆ op.writes xerStringctrl ∧ op.surelyWrites xerStringctrl ⊆ writes := by
  subst eq
  exact ⟨subset_rfl, fun _ mem => mem.1⟩

/-- What an integer instruction's effect does to the machine. -/
def runEffect (e : Effect) (m : Machine) : Machine := { m with ppc := e.apply m.ppc }.advance

theorem runEffect_xerSO (e : Effect) (m : Machine) :
    (runEffect e m).ppc.xerSO = (m.ppc.xerSO || e.ov.getD false) := e.apply_xerSO m.ppc

section
variable {e : Effect} (recorded : Recorded env op) (type : op.opinfo.type = .integer)
  (notNop : op.isNop = false) (fit : Interpreter.Fits e op.inst (getOpInfo op.inst).flags)
  (xerStringctrl : BitVec 16)
include recorded type notNop fit

theorem mem_writes_iff (c : Cell) : c ∈ op.writes xerStringctrl ↔ match c with
    | .gpr r => r ∈ e.gprs.map Prod.fst
    | .cr i => e.cr.map Prod.fst = some i
    | .ca => e.ca.isSome = true
    | .ov => e.ov.isSome = true
    | .lr => False
    | .reserve => False := by
  have type' : (getOpInfo op.inst).type = .integer := recorded.opinfo ▸ type
  have modelled : isModelled (getOpInfo op.inst).type = true := by rw [type']; rfl
  obtain ⟨noString, noLwarx⟩ := not_load31 recorded (by rw [type]; decide)
  cases c with
  | gpr r =>
      rw [fit.gprs]
      exact gpr_mem_writes recorded notNop noString modelled xerStringctrl r
  | cr i =>
      show op.opinfo.type = .integer ∧ op.crOut.getLsbD i.toNat = true ↔ _
      rw [fit.cr, recorded.crOut, recorded.opinfo, crOut_iff modelled type']
      exact and_iff_right type'
  | ca =>
      show op.opinfo.flags.has flSetCA = true ↔ _
      rw [fit.ca, recorded.opinfo]
  | ov =>
      show op.opinfo.flags.has flSetOE = true ↔ _
      rw [fit.ov, recorded.opinfo]
  | lr =>
      show op.opinfo.type = .branch ∧ op.inst.lk = true ↔ False
      simp [type]
  | reserve =>
      show op.isLwarx = true ↔ False
      simp [noLwarx]

theorem runEffect_frame (m : Machine) (c : Cell) (unwritten : c ∉ op.writes xerStringctrl) :
    c.same m (runEffect e m) := by
  rw [mem_writes_iff recorded type notNop fit] at unwritten
  cases c with
  | gpr r =>
      show m.ppc.gpr r = (e.apply m.ppc).gpr r
      rw [e.apply_gpr, setGPRs_gpr_of_notMem m.ppc unwritten]
  | cr i =>
      show m.ppc.cr i = (e.apply m.ppc).cr i
      rw [e.apply_cr]
      cases field : e.cr with
      | none => rfl
      | some field' =>
          have ne : i ≠ field'.1 := by
            rintro rfl
            simp [field] at unwritten
          exact (Function.update_of_ne ne _ _).symm
  | ca =>
      show m.ppc.xerCA = (e.apply m.ppc).xerCA
      rw [e.apply_xerCA, Option.not_isSome_iff_eq_none.mp unwritten, Option.getD_none]
  | ov =>
      show m.ppc.xerOV = (e.apply m.ppc).xerOV
      rw [e.apply_xerOV, Option.not_isSome_iff_eq_none.mp unwritten, Option.getD_none]
  | lr => rfl
  | reserve => rfl

/-- A cell written is the same after two runs, a condition register field if they leave the same
summary overflow bit. -/
theorem runEffect_same (m n : Machine) (c : Cell) (written : c ∈ op.writes xerStringctrl)
    (so : op.copiesSO = true → (runEffect e m).ppc.xerSO = (runEffect e n).ppc.xerSO) :
    c.same (runEffect e m) (runEffect e n) := by
  have copies : ∀ i, op.crOut.getLsbD i = true → op.copiesSO = true := by
    intro i set
    simp only [CodeOp.copiesSO, type, beq_self_eq_true, Bool.true_and, bne_iff_ne]
    rintro zero
    rw [zero, BitVec.ofNat_eq_ofNat, BitVec.getLsbD_zero] at set
    cases set
  have crWritten := written
  rw [mem_writes_iff recorded type notNop fit] at written
  cases c with
  | gpr r =>
      show (e.apply m.ppc).gpr r = (e.apply n.ppc).gpr r
      rw [e.apply_gpr, e.apply_gpr, setGPRs_gpr m.ppc n.ppc written]
  | cr i =>
      have bit : (e.apply m.ppc).xerSO = (e.apply n.ppc).xerSO := so (copies _ crWritten.2)
      show (e.apply m.ppc).cr i = (e.apply n.ppc).cr i
      rw [e.apply_cr, e.apply_cr, bit]
      cases field : e.cr with
      | none =>
          rw [field] at written
          cases written
      | some field' =>
          simp only [field, Option.map_some, Option.some.injEq] at written
          subst written
          simp
  | ca =>
      obtain ⟨ca, some⟩ := Option.isSome_iff_exists.mp written
      show (e.apply m.ppc).xerCA = (e.apply n.ppc).xerCA
      rw [e.apply_xerCA, e.apply_xerCA, some, Option.getD_some, Option.getD_some]
  | ov =>
      obtain ⟨ov, some⟩ := Option.isSome_iff_exists.mp written
      show (e.apply m.ppc).xerOV = (e.apply n.ppc).xerOV
      rw [e.apply_xerOV, e.apply_xerOV, some, Option.getD_some, Option.getD_some]
  | lr => exact written.elim
  | reserve => exact written.elim

end

/-- An integer instruction other than `nop`. -/
theorem integer_spec (recorded : Recorded env op) (type : op.opinfo.type = .integer)
    (notNop : op.isNop = false) (place : s.pc = op.address)
    (run : env.stepOp other op s = some s') : StepSpec env other op s s' := by
  have type' : (getOpInfo op.inst).type = .integer := recorded.opinfo ▸ type
  obtain ⟨fn, runs, effect, acts, fits⟩ := integer_runs type' other
  have step : ∀ m : Machine, m.pc = op.address → env.stepOp other op m =
      some (runEffect (effect (inputs op.inst (getOpInfo op.inst).flags m.ppc)) m) := by
    intro m place
    rw [stepOp_eq recorded place, runs, runInteger, acts]
    rfl
  have fit := fits (inputs op.inst (getOpInfo op.inst).flags s.ppc)
  have again : ∀ t : Machine, s.pc = t.pc → (∀ c ∈ op.reads, Cell.same c s t) →
      env.stepOp other op t =
        some (runEffect (effect (inputs op.inst (getOpInfo op.inst).flags s.ppc)) t) := by
    intro t pc agree
    rw [inputs_congr recorded notNop agree, step t (pc ▸ place)]
  generalize effect (inputs op.inst (getOpInfo op.inst).flags s.ppc) = e at fit again
  rw [again s rfl fun c _ => c.same_refl s] at run
  cases run
  refine ⟨rfl, rfl, rfl, rfl, ?_, ?_, ?_⟩
  · intro set
    rw [runEffect_xerSO, set, Bool.true_or]
  · intro noOE
    rw [recorded.opinfo, ← fit.ov, Option.isSome_eq_false_iff, Option.isNone_iff_eq_none] at noOE
    rw [runEffect_xerSO, noOE, Option.getD_none, Bool.or_false]
  · intro so reach copy
    refine ⟨op.writes s.xerStringctrl, ⟨again s rfl fun c _ => c.same_refl s, ?_, ?_⟩,
      surelyWrites_subset rfl⟩
    · exact fun c unwritten =>
        runEffect_frame recorded type notNop fit s.xerStringctrl s c unwritten
    · intro t link agree
      have bit : (runEffect e t).ppc.xerSO = so := by
        rw [runEffect_xerSO, link.xerSO]
        rw [runEffect_xerSO] at reach
        cases set : e.ov.getD false with
        | false => exact Bool.or_false so
        | true => rw [reach (by rw [set, Bool.or_true]), Bool.or_true]
      refine ⟨runEffect e t, again t link.pc agree, ⟨?_, link.memory, link.msrLE,
        link.xerStringctrl, link.ctr, bit⟩, ?_, ?_⟩
      · show s.pc + 4 = t.pc + 4
        rw [link.pc]
      · intro c written
        exact runEffect_same recorded type notNop fit s.xerStringctrl s t c written
          fun copies => (copy copies).trans bit.symm
      · exact fun c unwritten =>
          runEffect_frame recorded type notNop fit s.xerStringctrl t c unwritten

/-! ## Operations that leave the summary overflow bit alone -/

/-- What no such operation changes. -/
structure Kept (m n : Machine) : Prop where
  memory : n.memory = m.memory
  msrLE : n.msrLE = m.msrLE
  xerStringctrl : n.xerStringctrl = m.xerStringctrl
  ctr : n.ctr = m.ctr
  xerSO : n.ppc.xerSO = m.ppc.xerSO

theorem spec_of_kept {writes : Set Cell} (run : env.stepOp other op s = some s')
    (kept : Kept s s') (atMost : writes ⊆ op.writes s.xerStringctrl)
    (atLeast : op.surelyWrites s.xerStringctrl ⊆ writes)
    (frame : ∀ c, c ∉ writes → Cell.same c s s')
    (again : ∀ so t, Linked so s t → (∀ c ∈ op.reads, Cell.same c s t) →
      ∃ t', env.stepOp other op t = some t' ∧ s'.pc = t'.pc ∧ Kept t t' ∧
        (∀ c ∈ writes, Cell.same c s' t') ∧ ∀ c, c ∉ writes → Cell.same c t t') :
    StepSpec env other op s s' := by
  refine ⟨kept.memory, kept.msrLE, kept.xerStringctrl, kept.ctr, ?_, fun _ => kept.xerSO, ?_⟩
  · intro set
    rw [kept.xerSO, set]
  · intro so _ _
    refine ⟨writes, ⟨run, frame, ?_⟩, atMost, atLeast⟩
    intro t link agree
    obtain ⟨t', run', pc, kept', written, unwritten⟩ := again so t link agree
    refine ⟨t', run', ⟨pc, ?_, ?_, ?_, ?_, kept'.xerSO.trans link.xerSO⟩, written, unwritten⟩
    · rw [kept.memory, kept'.memory, link.memory]
    · rw [kept.msrLE, kept'.msrLE, link.msrLE]
    · rw [kept.xerStringctrl, kept'.xerStringctrl, link.xerStringctrl]
    · rw [kept.ctr, kept'.ctr, link.ctr]

theorem nop_recorded (recorded : Recorded env op) (nop : op.isNop = true) :
    op.inst = ⟨0x60000000⟩ ∧ op.opinfo = ⟨"ori", .integer, flOutA ||| flInS⟩ := by
  have inst : op.inst = ⟨0x60000000⟩ := congrArg UGeckoInstruction.mk (eq_of_beq nop)
  exact ⟨inst, by rw [recorded.opinfo, inst]; rfl⟩

theorem nop_spec (recorded : Recorded env op) (nop : op.isNop = true) (place : s.pc = op.address)
    (run : env.stepOp other op s = some s') : StepSpec env other op s s' := by
  obtain ⟨inst, info⟩ := nop_recorded recorded nop
  have step : ∀ m : Machine, m.pc = op.address → env.stepOp other op m = some m.advance := by
    intro m place
    have ori : getInterpreterOp ⟨0x60000000⟩ = some ori := rfl
    have same : m.ppc.setGPR 0 (m.ppc.gpr 0 ||| 0) = m.ppc := by simp
    rw [stepOp_eq recorded place, inst]
    simp only [runInterpreterOp, ori, runInteger]
    exact congrArg (fun ppc => some { m with ppc := ppc }.advance) same
  have crOut : op.crOut = 0 := by
    rw [recorded.crOut, inst, info]
    rfl
  have nothing : ∀ c, c ∉ op.writes s.xerStringctrl := by
    intro c mem
    cases c with
    | gpr r => exact absurd nop (by rw [mem.1]; decide)
    | cr i => exact absurd mem.2 (by rw [crOut]; simp)
    | ca => exact absurd mem (by show ¬ op.opinfo.flags.has flSetCA = true; rw [info]; decide)
    | ov => exact absurd mem (by show ¬ op.opinfo.flags.has flSetOE = true; rw [info]; decide)
    | lr => exact absurd mem.1 (by rw [info]; decide)
    | reserve =>
        exact absurd mem (by
          show ¬ op.isLwarx = true
          rw [CodeOp.isLwarx, inst]
          decide)
  rw [step s place] at run
  cases run
  refine @spec_of_kept env other op s _ ∅ (step s place) ⟨rfl, rfl, rfl, rfl, rfl⟩
    (Set.empty_subset _) (fun c mem => absurd mem.1 (nothing c)) ?_ ?_
  · intro c _
    cases c <;> rfl
  · intro so t link _
    refine ⟨t.advance, step t (link.pc ▸ place), ?_, ⟨rfl, rfl, rfl, rfl, rfl⟩, ?_, ?_⟩
    · show s.pc + 4 = t.pc + 4
      rw [link.pc]
    · exact fun c mem => absurd mem (Set.notMem_empty c)
    · intro c _
      cases c <;> rfl

theorem notNop_of_type (recorded : Recorded env op) (type : op.opinfo.type ≠ .integer) :
    op.isNop = false := by
  cases nop : op.isNop with
  | false => rfl
  | true => exact absurd (by rw [(nop_recorded recorded nop).2]) type

/-! ## Loads -/

section
variable (recorded : Recorded env op) (type : op.opinfo.type = .load)
  (xerStringctrl : BitVec 16)
include recorded type

/-- A load writes registers and may make a reservation. -/
theorem load_mem_writes_iff (c : Cell) : c ∈ op.writes xerStringctrl ↔ match c with
    | .gpr r => op.SetsRegister xerStringctrl r
    | .reserve => op.isLwarx = true
    | _ => False := by
  have type' : (getOpInfo op.inst).type = .load := recorded.opinfo ▸ type
  have modelled : isModelled (getOpInfo op.inst).type = true := by rw [type']; rfl
  obtain ⟨noCA, noOE⟩ := (getOpInfo_flags modelled).1 (by rw [type']; decide)
  cases c with
  | gpr r => exact Iff.rfl
  | cr i =>
      show op.opinfo.type = .integer ∧ _ ↔ False
      simp [type]
  | ca =>
      show op.opinfo.flags.has flSetCA = true ↔ False
      simp [recorded.opinfo, noCA]
  | ov =>
      show op.opinfo.flags.has flSetOE = true ↔ False
      simp [recorded.opinfo, noOE]
  | lr =>
      show op.opinfo.type = .branch ∧ _ ↔ False
      simp [type]
  | reserve => exact Iff.rfl

end

/-- A load whose registers the tables name. -/
theorem load_spec (recorded : Recorded env op) (type : op.opinfo.type = .load) {fn : Handler}
    (runs : runInterpreterOp other op.inst = fn op.inst) (noString : op.isStringLoad = false)
    (acts : LoadActs fn op.inst (getOpInfo op.inst).flags op.isLwarx) (place : s.pc = op.address)
    (run : env.stepOp other op s = some s') : StepSpec env other op s s' := by
  have type' : (getOpInfo op.inst).type = .load := recorded.opinfo ▸ type
  have modelled : isModelled (getOpInfo op.inst).type = true := by rw [type']; rfl
  have notNop := notNop_of_type recorded (by rw [type]; decide)
  obtain ⟨effect, acts, fits⟩ := acts
  have step : ∀ m : Machine, m.pc = op.address → env.stepOp other op m =
      (effect m.memory (inputs op.inst (getOpInfo op.inst).flags m.ppc)).map fun e =>
        e.apply m := by
    intro m place
    rw [stepOp_eq recorded place, runs, acts]
  rw [step s place] at run
  obtain ⟨e, found, rfl⟩ := Option.map_eq_some_iff.mp run
  obtain ⟨gprs, reserves⟩ := fits _ _ _ found
  have kept : ∀ m : Machine, Kept m (e.apply m) := by
    intro m
    have so : (setGPRs e.gprs m.ppc).xerSO = m.ppc.xerSO := by rw [setGPRs_eq]
    exact ⟨rfl, rfl, rfl, rfl, so⟩
  have written : ∀ m n : Machine, ∀ c ∈ op.writes s.xerStringctrl,
      Cell.same c (e.apply m) (e.apply n) := by
    intro m n c mem
    have mem' := mem
    rw [load_mem_writes_iff recorded type] at mem
    cases c with
    | gpr r =>
        rw [gpr_mem_writes recorded notNop noString modelled, ← gprs] at mem'
        exact setGPRs_gpr m.ppc n.ppc mem'
    | reserve =>
        have some : e.reserve.isSome = true := reserves.trans mem
        obtain ⟨address, some⟩ := Option.isSome_iff_exists.mp some
        show (m.reserve || e.reserve.isSome, e.reserve.getD m.reserveAddress) =
          (n.reserve || e.reserve.isSome, e.reserve.getD n.reserveAddress)
        simp [some]
    | _ => exact mem.elim
  have unwritten : ∀ m : Machine, ∀ c, c ∉ op.writes s.xerStringctrl →
      Cell.same c m (e.apply m) := by
    intro m c mem
    have mem' := mem
    rw [load_mem_writes_iff recorded type] at mem
    have others := setGPRs_eq m.ppc e.gprs
    cases c with
    | gpr r =>
        rw [gpr_mem_writes recorded notNop noString modelled, ← gprs] at mem'
        exact (setGPRs_gpr_of_notMem m.ppc mem').symm
    | cr i =>
        have cr : (setGPRs e.gprs m.ppc).cr = m.ppc.cr := by rw [others]
        exact (congrFun cr i).symm
    | ca =>
        show m.ppc.xerCA = (setGPRs e.gprs m.ppc).xerCA
        rw [others]
    | ov =>
        show m.ppc.xerOV = (setGPRs e.gprs m.ppc).xerOV
        rw [others]
    | lr => rfl
    | reserve =>
        have none : e.reserve = none := by
          rw [← Option.not_isSome_iff_eq_none, reserves]
          exact mem
        show (m.reserve, m.reserveAddress) =
          (m.reserve || e.reserve.isSome, e.reserve.getD m.reserveAddress)
        simp [none]
  refine spec_of_kept (by rw [step s place, found]; rfl) (kept s) (surelyWrites_subset rfl).1
    (surelyWrites_subset rfl).2 (unwritten s) ?_
  intro so t link agree
  refine ⟨e.apply t, ?_, ?_, kept t, written s t, unwritten t⟩
  · rw [step t (link.pc ▸ place), ← inputs_congr recorded notNop agree, ← link.memory, found]
    rfl
  · show s.pc + 4 = t.pc + 4
    rw [link.pc]

/-- A string load. -/
theorem string_spec (recorded : Recorded env op) (type : op.opinfo.type = .load)
    (string : op.isStringLoad = true) (ea : Machine → BitVec 32)
    (runs : ∀ m, runInterpreterOp other op.inst m =
      runString (op.stringBytes m.xerStringctrl) (ea m) op.inst m)
    (congr : ∀ t, (∀ c ∈ op.reads, Cell.same c s t) → ea s = ea t) (place : s.pc = op.address)
    (run : env.stepOp other op s = some s') : StepSpec env other op s s' := by
  have notNop := notNop_of_type recorded (by rw [type]; decide)
  have noLwarx : op.isLwarx = false := by
    rw [← Bool.not_eq_true]
    intro lwarx
    simp only [CodeOp.isLwarx, Bool.and_eq_true, beq_iff_eq] at lwarx
    simp [CodeOp.isStringLoad, CodeOp.isLswx, CodeOp.isLswi, lwarx] at string
  have sets : ∀ r, op.SetsRegister s.xerStringctrl r ↔
      ∃ k < op.stringBytes s.xerStringctrl, r = stringRegister op.inst.rd k := by
    intro r
    rw [CodeOp.SetsRegister, if_pos string]
    exact and_iff_right notNop
  rw [stepOp_eq recorded place, runs, runString] at run
  split at run
  · cases run
  · rename_i bigEndian
    obtain ⟨p, load, rfl⟩ := Option.map_eq_some_iff.mp run
    have frame : ∀ {m : Machine} {q : PowerPCState},
        loadString m.memory op.inst.rd (op.stringBytes s.xerStringctrl) 0 (ea s) m.ppc = some q →
          ∀ c, c ∉ op.writes s.xerStringctrl →
            Cell.same c m { m with ppc := q }.advance := by
      intro m q load c mem
      obtain ⟨others, kept⟩ := loadString_frame load
      rw [load_mem_writes_iff recorded type] at mem
      cases c with
      | gpr r =>
          exact (kept r fun j _ lt eq => mem ((sets r).mpr ⟨j, by omega, eq⟩)).symm
      | cr i =>
          show m.ppc.cr i = q.cr i
          rw [others]
      | ca =>
          show m.ppc.xerCA = q.xerCA
          rw [others]
      | ov =>
          show m.ppc.xerOV = q.xerOV
          rw [others]
      | lr => rfl
      | reserve => rfl
    have same : ∀ {m : Machine} {q : PowerPCState},
        loadString m.memory op.inst.rd (op.stringBytes s.xerStringctrl) 0 (ea s) m.ppc = some q →
          Kept m { m with ppc := q }.advance := by
      intro m q load
      have so : q.xerSO = m.ppc.xerSO := by rw [(loadString_frame load).1]
      exact ⟨rfl, rfl, rfl, rfl, so⟩
    refine spec_of_kept ?_ (same load) (surelyWrites_subset rfl).1 (surelyWrites_subset rfl).2
      (frame load) ?_
    · rw [stepOp_eq recorded place, runs, runString, if_neg bigEndian, load]
      rfl
    · intro so t link agree
      obtain ⟨q, load', written⟩ := loadString_again load t.ppc fun inside => absurd rfl inside
      rw [link.memory] at load'
      refine ⟨{ t with ppc := q }.advance, ?_, ?_, same load', ?_, frame load'⟩
      · rw [stepOp_eq recorded (link.pc ▸ place), runs, runString, ← link.msrLE,
          if_neg bigEndian, ← link.xerStringctrl, ← congr t agree, load']
        rfl
      · show s.pc + 4 = t.pc + 4
        rw [link.pc]
      · intro c mem
        rw [load_mem_writes_iff recorded type] at mem
        cases c with
        | gpr r =>
            obtain ⟨k, lt, rfl⟩ := (sets r).mp mem
            exact written k (Nat.zero_le k) (by omega)
        | reserve =>
            rw [noLwarx] at mem
            cases mem
        | _ => exact mem.elim

theorem load_specs (recorded : Recorded env op) (type : op.opinfo.type = .load)
    (place : s.pc = op.address) (run : env.stepOp other op s = some s') :
    StepSpec env other op s s' := by
  have notNop := notNop_of_type recorded (by rw [type]; decide)
  obtain ⟨fn, runs, ⟨opcd, acts⟩ | ⟨opcd, ⟨notLswx, notLswi, acts⟩ | ⟨sub, rfl⟩ | ⟨sub, rfl⟩⟩⟩ :=
    load_runs (recorded.opinfo ▸ type) other
  · have not31 : (op.inst.opcd == 31) = false := by simpa using opcd
    refine load_spec recorded type runs ?_ ?_ place run
    · rw [CodeOp.isStringLoad, CodeOp.isLswx, CodeOp.isLswi, not31]
      rfl
    · rw [CodeOp.isLwarx, not31]
      exact acts
  · refine load_spec recorded type runs ?_ ?_ place run
    · rw [CodeOp.isStringLoad, CodeOp.isLswx, CodeOp.isLswi, beq_eq_false_iff_ne.mpr notLswx,
        beq_eq_false_iff_ne.mpr notLswi, Bool.and_false]
      rfl
    · rw [CodeOp.isLwarx, opcd]
      exact acts
  · have lswx : op.isLswx = true := by simp [CodeOp.isLswx, opcd, sub]
    have lswi : op.isLswi = false := by simp [CodeOp.isLswi, sub]
    have info : getOpInfo op.inst = ⟨"lswx", .load, flInA0B ||| flOutD ||| flLoadStore⟩ := by
      unfold getOpInfo
      rw [opcd, sub]
      rfl
    refine string_spec recorded type (by rw [CodeOp.isStringLoad, lswx]; rfl)
      (fun m => helperGetEAX op.inst m.ppc) ?_ ?_ place run
    · intro m
      rw [runs, CodeOp.stringBytes, lswi]
      rfl
    · intro t agree
      have same := inputs_congr recorded notNop agree
      rw [info] at same
      have ea : ∀ m : Machine, helperGetEAX op.inst m.ppc = _ := fun m =>
        @helperGetEAX_eq op.inst (flInA0B ||| flOutD ||| flLoadStore) m.ppc rfl rfl rfl
      simp only [ea, same]
  · have lswi : op.isLswi = true := by simp [CodeOp.isLswi, opcd, sub]
    have info : getOpInfo op.inst = ⟨"lswi", .load, flInA0 ||| flOutD ||| flLoadStore⟩ := by
      unfold getOpInfo
      rw [opcd, sub]
      rfl
    refine string_spec recorded type (by rw [CodeOp.isStringLoad, lswi, Bool.or_true])
      (fun m => if op.inst.ra ≠ 0 then m.ppc.gpr op.inst.ra else 0) ?_ ?_ place run
    · intro m
      rw [runs, CodeOp.stringBytes, lswi]
      rfl
    · intro t agree
      have same := congrArg Inputs.a (inputs_congr recorded notNop agree)
      rw [info] at same
      have a0 : ∀ m : Machine, (inputs op.inst (flInA0 ||| flOutD ||| flLoadStore) m.ppc).a =
          if op.inst.ra ≠ 0 then m.ppc.gpr op.inst.ra else 0 := by
        intro m
        simp [inputs, InstructionFlags.has, flInA0, flOutD, flLoadStore, flInA]
      rw [a0, a0] at same
      exact same

/-! ## Branches -/

/-- A branch that leaves CTR alone is taken or not, from what it reads. -/
theorem branch_form {fn : Handler} (recorded : Recorded env op) (type : op.opinfo.type = .branch)
    (noCtr : op.branchUsesCtr = false) (which : BranchCase op.inst (getOpInfo op.inst).flags fn) :
    ∃ (taken : Machine → Bool) (destination : Machine → BitVec 32),
      (∀ m, fn op.inst m = some (if taken m then takeBranch op.inst m (destination m)
        else m.advance)) ∧
      (∀ so t, Linked so s t → (∀ c ∈ op.reads, Cell.same c s t) →
        taken s = taken t ∧ destination s = destination t) ∧
      ∀ m, op.inst.opcd = 18 ∨ always op.inst = true → taken m = true := by
  have keeps : ∀ bo : BitVec 5, (bo &&& boDontDecrementFlag == 0) = false →
      bo.getLsbD 2 = true := by decide
  have unconditional : ∀ bo : BitVec 5, (bo &&& boDontDecrementFlag != 0 &&
      bo &&& boDontCheckCondition != 0) = true → bo.getLsbD 4 = true := by decide
  have condition : (getOpInfo op.inst).flags = flEndBlock ||| flReadCRBI →
      ∀ t, (∀ c ∈ op.reads, Cell.same c s t) →
        conditionHolds op.inst s = conditionHolds op.inst t := by
    intro flags t agree
    have field : s.ppc.cr (op.inst.bi.extractLsb' 2 3) = t.ppc.cr (op.inst.bi.extractLsb' 2 3) := by
      apply agree (.cr _)
      refine ⟨type, ?_⟩
      have crIn : op.crIn = single (op.inst.bi >>> 2) := by
        rw [recorded.crIn, crInOf, recorded.opinfo, flags]
        rfl
      have lt : (op.inst.bi.extractLsb' 2 3).toNat < 8 := BitVec.isLt _
      rw [crIn, getLsbD_single _ _ lt, decide_eq_true_iff]
      simp only [BitVec.extractLsb'_toNat, BitVec.toNat_ushiftRight]
      have := op.inst.bi.isLt
      omega
    unfold conditionHolds getBit
    rw [field]
  have noCtr' := noCtr
  rw [recorded.branchUsesCtr, branchUsesCtrOf] at noCtr'
  cases which with
  | bx opcd _ =>
      refine ⟨fun _ => true, fun m => (op.inst.li ++ 0#2).signExtend 32 +
        if op.inst.aa then 0 else m.pc, fun _ => rfl, ?_, fun _ _ => rfl⟩
      intro so t link _
      exact ⟨rfl, by simp only [link.pc]⟩
  | bcx opcd flags =>
      have bo := keeps op.inst.bo (by simpa [opcd] using noCtr')
      have counter : ∀ ctr, counterHolds op.inst ctr = true := by
        intro ctr
        rw [counterHolds, bo, Bool.true_or]
      refine ⟨conditionHolds op.inst, fun m => (op.inst.bd ++ 0#2).signExtend 32 +
        if op.inst.aa then 0 else m.pc, ?_, ?_, ?_⟩
      · intro m
        dsimp only [bcx]
        rw [counter, Bool.true_and, decremented, if_pos bo]
        cases conditionHolds op.inst m <;> rfl
      · intro so t link agree
        exact ⟨condition flags t agree, by simp only [link.pc]⟩
      · intro m alwaysTaken
        rcases alwaysTaken with op18 | alwaysTaken
        · rw [opcd] at op18
          cases op18
        · rw [conditionHolds, unconditional _ alwaysTaken, Bool.true_or]
  | bclrx opcd sub flags =>
      have bo := keeps op.inst.bo (by simpa [opcd, sub] using noCtr')
      have counter : ∀ ctr, counterHolds op.inst ctr = true := by
        intro ctr
        rw [counterHolds, bo, Bool.true_or]
      refine ⟨conditionHolds op.inst, fun m => m.lr &&& ~~~3#32, ?_, ?_, ?_⟩
      · intro m
        dsimp only [bclrx]
        rw [counter, Bool.true_and, decremented, if_pos bo]
        cases conditionHolds op.inst m <;> rfl
      · intro so t link agree
        have lr : s.lr = t.lr := by
          apply agree .lr
          show op.isBclrx = true
          rw [CodeOp.isBclrx, opcd, sub]
          rfl
        exact ⟨condition flags t agree, by simp only [lr]⟩
      · intro m alwaysTaken
        rcases alwaysTaken with op18 | alwaysTaken
        · rw [opcd] at op18
          cases op18
        · rw [conditionHolds, unconditional _ alwaysTaken, Bool.true_or]
  | bcctrx opcd sub flags =>
      refine ⟨conditionHolds op.inst, fun m => m.ctr &&& ~~~3#32, ?_, ?_, ?_⟩
      · intro m
        dsimp only [bcctrx]
        cases conditionHolds op.inst m <;> rfl
      · intro so t link agree
        exact ⟨condition flags t agree, by simp only [link.ctr]⟩
      · intro m alwaysTaken
        rcases alwaysTaken with op18 | alwaysTaken
        · rw [opcd] at op18
          cases op18
        · rw [conditionHolds, unconditional _ alwaysTaken, Bool.true_or]

theorem branch_regs (recorded : Recorded env op) (type : op.opinfo.type = .branch) :
    op.regsIn = 0 ∧ op.regsOut = 0 := by
  obtain ⟨_, -, which⟩ := @branch_runs op.inst (recorded.opinfo ▸ type) fun _ _ => none
  obtain ⟨op46, op47⟩ := opcd_of_modelled
    (show isModelled (getOpInfo op.inst).type = true by
      rw [← recorded.opinfo, type]
      rfl)
  have flags : (getOpInfo op.inst).flags = flEndBlock ∨
      (getOpInfo op.inst).flags = flEndBlock ||| flReadCRBI := by
    cases which with
    | bx _ flags => exact .inl flags
    | bcx _ flags => exact .inr flags
    | bclrx _ _ flags => exact .inr flags
    | bcctrx _ _ flags => exact .inr flags
  rw [recorded.regsIn, recorded.regsOut, regsInOf, regsOutOf, if_neg op46, if_neg op47,
    recorded.opinfo]
  have unused : let flags := (getOpInfo op.inst).flags
      flags.has flInA = false ∧ flags.has flInA0 = false ∧ flags.has flInB = false ∧
        flags.has flInC = false ∧ flags.has flInS = false ∧ flags.has flOutA = false ∧
          flags.has flOutD = false := by
    rcases flags with flags | flags
    · rw [flags]
      exact ⟨rfl, rfl, rfl, rfl, rfl, rfl, rfl⟩
    · rw [flags]
      exact ⟨rfl, rfl, rfl, rfl, rfl, rfl, rfl⟩
  obtain ⟨inA, inA0, inB, inC, inS, outA, outD⟩ := unused
  simp [onlyIf, inA, inA0, inB, inC, inS, outA, outD]

theorem branch_mem_writes_iff (recorded : Recorded env op) (type : op.opinfo.type = .branch)
    (xerStringctrl : BitVec 16) (c : Cell) :
    c ∈ op.writes xerStringctrl ↔ c = .lr ∧ op.inst.lk = true := by
  have type' : (getOpInfo op.inst).type = .branch := recorded.opinfo ▸ type
  have modelled : isModelled (getOpInfo op.inst).type = true := by rw [type']; rfl
  obtain ⟨noCA, noOE⟩ := (getOpInfo_flags modelled).1 (by rw [type']; decide)
  obtain ⟨noString, noLwarx⟩ := not_load31 recorded (by rw [type]; decide)
  cases c with
  | gpr r =>
      show op.SetsRegister xerStringctrl r ↔ _
      simp [CodeOp.SetsRegister, noString, (branch_regs recorded type).2]
  | cr i =>
      show op.opinfo.type = .integer ∧ _ ↔ _
      simp [type]
  | ca =>
      show op.opinfo.flags.has flSetCA = true ↔ _
      simp [recorded.opinfo, noCA]
  | ov =>
      show op.opinfo.flags.has flSetOE = true ↔ _
      simp [recorded.opinfo, noOE]
  | lr =>
      show op.opinfo.type = .branch ∧ op.inst.lk = true ↔ _
      simp [type]
  | reserve =>
      show op.isLwarx = true ↔ _
      simp [noLwarx]

theorem branch_spec (recorded : Recorded env op) (type : op.opinfo.type = .branch)
    (noCtr : op.branchUsesCtr = false) (place : s.pc = op.address)
    (run : env.stepOp other op s = some s') : StepSpec env other op s s' := by
  obtain ⟨fn, runs, which⟩ := branch_runs (recorded.opinfo ▸ type) other
  obtain ⟨taken, destination, form, congr, surely⟩ :=
    @branch_form env op s fn recorded type noCtr which
  have step : ∀ m : Machine, m.pc = op.address → env.stepOp other op m =
      some (if taken m then takeBranch op.inst m (destination m) else m.advance) := by
    intro m place
    rw [stepOp_eq recorded place, runs, form]
  rw [step s place] at run
  cases run
  have kept : ∀ m : Machine,
      Kept m (if taken m then takeBranch op.inst m (destination m) else m.advance) := by
    intro m
    split
    · exact ⟨rfl, rfl, rfl, rfl, rfl⟩
    · exact ⟨rfl, rfl, rfl, rfl, rfl⟩
  -- LR is written where the branch is a call and taken
  let calls : Set Cell := fun c => c = .lr ∧ op.inst.lk = true ∧ taken s = true
  have frame : ∀ m : Machine, taken m = taken s → ∀ c, c ∉ calls →
      Cell.same c m (if taken m then takeBranch op.inst m (destination m) else m.advance) := by
    intro m decided c mem
    cases which : taken m with
    | false =>
        rw [if_neg Bool.false_ne_true]
        cases c <;> rfl
    | true =>
        rw [if_pos rfl]
        cases c with
        | lr =>
            have noCall : ¬ op.inst.lk = true := fun lk => mem ⟨rfl, lk, decided ▸ which⟩
            show m.lr = if op.inst.lk then m.pc + 4 else m.lr
            rw [if_neg noCall]
        | _ => rfl
  refine @spec_of_kept env other op s _ calls (step s place) (kept s) ?_ ?_ (frame s rfl) ?_
  · rintro c ⟨rfl, lk, -⟩
    exact (branch_mem_writes_iff recorded type _ _).mpr ⟨rfl, lk⟩
  · rintro c ⟨mem, sure⟩
    obtain ⟨rfl, lk⟩ := (branch_mem_writes_iff recorded type _ _).mp mem
    exact ⟨rfl, lk, surely s (sure rfl)⟩
  · intro so t link agree
    obtain ⟨decided, goal⟩ := congr so t link agree
    refine ⟨_, step t (link.pc ▸ place), ?_, kept t, ?_, frame t decided.symm⟩
    · rw [← decided, ← goal]
      split
      · rfl
      · show s.pc + 4 = t.pc + 4
        rw [link.pc]
    · rintro c ⟨rfl, lk, yes⟩
      rw [← decided, yes, if_pos rfl, if_pos rfl]
      show (if op.inst.lk then s.pc + 4 else s.lr) = if op.inst.lk then t.pc + 4 else t.lr
      rw [if_pos lk, if_pos lk, link.pc]

end

end Phocoena.PPCAnalyst
