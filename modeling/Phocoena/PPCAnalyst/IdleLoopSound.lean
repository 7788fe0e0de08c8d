import Phocoena.PPCAnalyst.IdleLoopSteps

/-! # Idle loops stay where they are

A loop that `IsBusyWaitLoop` accepts ends every further iteration in the state the first one ended
in, if it keeps the rule for the condition register, the carry, the link register and the registers
of string loads too. The analyzer does not look at these, and lets other branches pass.
-/

namespace Phocoena.PPCAnalyst

open Gekko Gekko.Interpreter Restart

/-! ## The run round the loop -/

/-- The operations that `IsBusyWaitLoop` lets pass. -/
def Waits (op : CodeOp) : Prop :=
  op.opinfo.type = .integer ∨ op.opinfo.type = .load ∨
    op.opinfo.type = .branch ∧ op.branchUsesCtr = false

section
variable {env : Env} {other : Handler}

theorem stepOp_spec {op : CodeOp} {s s' : Machine} (recorded : Recorded env op)
    (waits : Waits op) (run : env.stepOp other op s = some s') :
    StepSpec env other op s s' := by
  have place : s.pc = op.address := by
    by_contra ne
    rw [Env.stepOp, if_neg ne] at run
    cases run
  rcases waits with type | type | ⟨type, noCtr⟩
  · cases nop : op.isNop with
    | false => exact integer_spec recorded type nop place run
    | true => exact nop_spec recorded nop place run
  · exact load_specs recorded type place run
  · exact branch_spec recorded type noCtr place run

/-- What a run through some operations does, and how it is traced when its end is known. -/
structure RunSpec (env : Env) (other : Handler) (ops : List CodeOp) (s s' : Machine) : Prop where
  memory : s'.memory = s.memory
  msrLE : s'.msrLE = s.msrLE
  xerStringctrl : s'.xerStringctrl = s.xerStringctrl
  ctr : s'.ctr = s.ctr
  so_mono : s.ppc.xerSO = true → s'.ppc.xerSO = true
  so_kept : (∀ op ∈ ops, op.opinfo.flags.has flSetOE = false) → s'.ppc.xerSO = s.ppc.xerSO
  trace : (s.ppc.xerSO = true ∨
      ops.Pairwise fun x y => x.copiesSO = true → y.opinfo.flags.has flSetOE = false) →
    ∃ steps, Trace (loopView s'.ppc.xerSO) (ops.map (env.stepOp other)) steps s s' ∧
      List.Forall₂ (fun op step => step.1 = op.reads ∧ step.2 ⊆ op.writes s.xerStringctrl ∧
        op.surelyWrites s.xerStringctrl ⊆ step.2) ops steps

theorem iterate_spec {ops : List CodeOp} (recorded : ∀ op ∈ ops, Recorded env op)
    (waits : ∀ op ∈ ops, Waits op) {s s' : Machine} (run : env.iterate other ops s = some s') :
    RunSpec env other ops s s' := by
  induction ops generalizing s with
  | nil =>
      cases run
      exact ⟨rfl, rfl, rfl, rfl, id, fun _ => rfl, fun _ => ⟨[], .nil _, .nil⟩⟩
  | cons op ops ih =>
      obtain ⟨s₁, first, rest⟩ := Option.bind_eq_some_iff.mp run
      have step := stepOp_spec (recorded op List.mem_cons_self) (waits op List.mem_cons_self) first
      have later := ih (fun x mem => recorded x (List.mem_cons_of_mem op mem))
        (fun x mem => waits x (List.mem_cons_of_mem op mem)) rest
      refine ⟨later.memory.trans step.memory, later.msrLE.trans step.msrLE,
        later.xerStringctrl.trans step.xerStringctrl, later.ctr.trans step.ctr,
        later.so_mono ∘ step.so_mono, ?_, ?_⟩
      · intro noOE
        exact (later.so_kept fun x mem => noOE x (List.mem_cons_of_mem op mem)).trans
          (step.so_kept (noOE op List.mem_cons_self))
      · intro overflow
        obtain ⟨steps, trace, shape⟩ := later.trace (by
          rcases overflow with set | pairs
          · exact .inl (step.so_mono set)
          · exact .inr (List.pairwise_cons.mp pairs).2)
        -- behind an operation that copies the bit, nothing changes it
        have copy : op.copiesSO = true → s₁.ppc.xerSO = s'.ppc.xerSO := by
          intro copies
          rcases overflow with set | pairs
          · have bit := step.so_mono set
            rw [bit, later.so_mono bit]
          · exact (later.so_kept fun x mem =>
              (List.pairwise_cons.mp pairs).1 x mem copies).symm
        obtain ⟨writes, transfers, atMost, atLeast⟩ :=
          step.transfers s'.ppc.xerSO later.so_mono copy
        rw [step.xerStringctrl] at shape
        exact ⟨(op.reads, writes) :: steps, .cons transfers trace,
          .cons ⟨rfl, atMost, atLeast⟩ shape⟩

end

/-! ## What `IsBusyWaitLoop` makes sure of -/

section
variable {env : Env} {address : BitVec 32}

theorem waits_of_isBusyWaitLoop {ops : List CodeOp} (recorded : ∀ op ∈ ops, Recorded env op)
    {written disallowed : BitVec 32} (busy : isBusyWaitLoop address written disallowed ops = true) :
    ∀ op ∈ ops, Waits op := by
  induction ops generalizing written disallowed with
  | nil => exact fun _ mem => absurd mem List.not_mem_nil
  | cons op ops ih =>
      have later := @ih fun x mem => recorded x (List.mem_cons_of_mem op mem)
      rw [List.forall_mem_cons]
      unfold isBusyWaitLoop at busy
      by_cases branch : op.opinfo.type = .branch
      · rw [if_pos branch] at busy
        split at busy
        · cases busy
        · rename_i noCtr
          refine ⟨.inr (.inr ⟨branch, Bool.eq_false_of_not_eq_true noCtr⟩), ?_⟩
          split at busy
          · rename_i last
            rw [List.isEmpty_iff.mp last.2]
            exact fun _ mem => absurd mem List.not_mem_nil
          · exact later busy
      · rw [if_neg branch] at busy
        by_cases nop : op.inst.hex = 0x60000000
        · rw [if_pos nop] at busy
          have info := (nop_recorded (recorded op List.mem_cons_self)
            (beq_iff_eq.mpr nop)).2
          exact ⟨.inl (by rw [info]), later busy⟩
        · rw [if_neg nop] at busy
          split at busy
          · cases busy
          · rename_i type
            rw [not_and_or, not_not, not_not] at type
            dsimp only at busy
            split at busy
            · cases busy
            · refine ⟨?_, later busy⟩
              rcases type with integer | load
              · exact .inl integer
              · exact .inr (.inl load)

/-- Without string loads, a register that is disallowed is not written, and one that is not written
yet and exposed is not written either. -/
theorem gprs_of_isBusyWaitLoop {ops : List CodeOp} (recorded : ∀ op ∈ ops, Recorded env op)
    (noStrings : ∀ op ∈ ops, op.isStringLoad = false) (xerStringctrl : BitVec 16) (r : BitVec 5)
    {written disallowed : BitVec 32} (busy : isBusyWaitLoop address written disallowed ops = true) :
    (disallowed.getLsbD r.toNat = true ∨ written.getLsbD r.toNat = false ∧
        Exposed (.gpr r) (ops.map (·.footprint xerStringctrl))) →
      ∀ op ∈ ops, .gpr r ∉ op.writes xerStringctrl := by
  induction ops generalizing written disallowed with
  | nil => exact fun _ _ mem => absurd mem List.not_mem_nil
  | cons op ops ih =>
      have later := @ih (fun x mem => recorded x (List.mem_cons_of_mem op mem))
        fun x mem => noStrings x (List.mem_cons_of_mem op mem)
      have record := recorded op List.mem_cons_self
      have noString := noStrings op List.mem_cons_self
      have sets : .gpr r ∈ op.writes xerStringctrl ↔
          op.isNop = false ∧ op.regsOut.getLsbD r.toNat = true := by
        show op.SetsRegister xerStringctrl r ↔ _
        rw [CodeOp.SetsRegister, noString, if_neg Bool.false_ne_true]
      have exposes : Exposed (.gpr r) ((op :: ops).map (·.footprint xerStringctrl)) →
          (op.isNop = false ∧ op.regsIn.getLsbD r.toNat = true) ∨
            .gpr r ∉ op.writes xerStringctrl ∧
              Exposed (.gpr r) (ops.map (·.footprint xerStringctrl)) := by
        rintro (reads | ⟨unwritten, exposed⟩)
        · exact .inl reads
        · refine .inr ⟨fun mem => unwritten ⟨mem, ?_⟩, exposed⟩
          intro eq
          cases eq
      have skip : ¬ (op.isNop = false ∧ op.regsIn.getLsbD r.toNat = true) →
          .gpr r ∉ op.writes xerStringctrl →
          isBusyWaitLoop address written disallowed ops = true →
          (disallowed.getLsbD r.toNat = true ∨ written.getLsbD r.toNat = false ∧
            Exposed (.gpr r) ((op :: ops).map (·.footprint xerStringctrl))) →
          ∀ x ∈ op :: ops, .gpr r ∉ x.writes xerStringctrl := by
        intro unread unset busy' known
        refine List.forall_mem_cons.mpr ⟨unset, later busy' ?_⟩
        rcases known with dis | ⟨unwritten, exposed⟩
        · exact .inl dis
        · exact .inr ⟨unwritten, ((exposes exposed).resolve_left unread).2⟩
      intro known
      unfold isBusyWaitLoop at busy
      by_cases branch : op.opinfo.type = .branch
      · obtain ⟨ins, outs⟩ := branch_regs record branch
        have unset : .gpr r ∉ op.writes xerStringctrl := by simp [sets, outs]
        rw [if_pos branch] at busy
        split at busy
        · cases busy
        · split at busy
          · rename_i last
            rw [List.isEmpty_iff.mp last.2]
            exact List.forall_mem_singleton.mpr unset
          · exact skip (by simp [ins]) unset busy known
      · rw [if_neg branch] at busy
        by_cases nop : op.inst.hex = 0x60000000
        · rw [if_pos nop] at busy
          have isNop : op.isNop = true := beq_iff_eq.mpr nop
          exact skip (by simp [isNop]) (by simp [sets, isNop]) busy known
        · rw [if_neg nop] at busy
          have isNop : op.isNop = false := beq_eq_false_iff_ne.mpr nop
          split at busy
          · cases busy
          · dsimp only at busy
            split at busy
            · cases busy
            · rename_i allowed
              have allowed : op.regsOut &&& (disallowed ||| (op.regsIn &&& ~~~written)) = 0 :=
                not_not.mp allowed
              have apart : (disallowed ||| (op.regsIn &&& ~~~written)).getLsbD r.toNat = true →
                  op.regsOut.getLsbD r.toNat = false := by
                intro mem
                have bit := congrArg (·.getLsbD r.toNat) allowed
                rw [BitVec.getLsbD_and, mem, Bool.and_true] at bit
                exact bit.trans BitVec.getLsbD_zero
              have known' : (disallowed ||| (op.regsIn &&& ~~~written)).getLsbD r.toNat = true ∨
                  .gpr r ∉ op.writes xerStringctrl ∧ written.getLsbD r.toNat = false ∧
                    Exposed (.gpr r) (ops.map (·.footprint xerStringctrl)) := by
                rw [BitVec.getLsbD_or, BitVec.getLsbD_and, BitVec.getLsbD_not]
                rcases known with dis | ⟨unwritten, exposed⟩
                · exact .inl (by rw [dis, Bool.true_or])
                · rcases exposes exposed with ⟨_, reads⟩ | ⟨unset, exposed⟩
                  · have lt : r.toNat < 32 := r.isLt
                    rw [reads, unwritten, decide_eq_true lt]
                    exact .inl (Bool.or_true _)
                  · exact .inr ⟨unset, unwritten, exposed⟩
              rcases known' with dis | ⟨unset, unwritten, exposed⟩
              · refine List.forall_mem_cons.mpr ⟨?_, later busy (.inl dis)⟩
                rw [sets, apart dis]
                simp
              · refine List.forall_mem_cons.mpr ⟨unset, later busy (.inr ⟨?_, exposed⟩)⟩
                rw [sets, isNop] at unset
                rw [BitVec.getLsbD_or, unwritten, Bool.false_or]
                simpa using unset

end

/-! ## Every further iteration -/

section
variable {a : PPCAnalyzer} {env : Env} {address : BitVec 32} {blockSize i : Nat}

theorem exposed_of_steps {c : Cell} {ops : List CodeOp} {steps : List (Set Cell × Set Cell)}
    {xerStringctrl : BitVec 16}
    (shape : List.Forall₂ (fun op step => step.1 = op.reads ∧ step.2 ⊆ op.writes xerStringctrl ∧
      op.surelyWrites xerStringctrl ⊆ step.2) ops steps) (exposed : Exposed c steps) :
    Exposed c (ops.map (·.footprint xerStringctrl)) := by
  refine exposed.mono ?_
  rw [List.forall₂_map_right_iff]
  exact (shape.imp fun op step holds => ⟨holds.1.subset, holds.2.2⟩).flip

theorem writes_of_steps {c : Cell} {ops : List CodeOp} {steps : List (Set Cell × Set Cell)}
    {xerStringctrl : BitVec 16}
    (shape : List.Forall₂ (fun op step => step.1 = op.reads ∧ step.2 ⊆ op.writes xerStringctrl ∧
      op.surelyWrites xerStringctrl ⊆ step.2) ops steps) (written : Written c steps) :
    ∃ op ∈ ops, c ∈ op.writes xerStringctrl := by
  obtain ⟨step, mem, writes⟩ := written
  induction shape with
  | nil => cases mem
  | @cons op step' ops steps holds _ ih =>
      rcases List.mem_cons.mp mem with rfl | mem
      · exact ⟨op, List.mem_cons_self, holds.2.1 writes⟩
      · obtain ⟨x, inOps, xWrites⟩ := ih mem
        exact ⟨x, List.mem_cons_of_mem op inOps, xWrites⟩

theorem isBusyWaitLoop_of_idle (idle : a.branchIsIdleLoop env address blockSize i = true) :
    isBusyWaitLoop address 0 0 (a.loopOps env address blockSize i) = true := by
  unfold PPCAnalyzer.branchIsIdleLoop at idle
  split at idle
  · exact (Bool.and_eq_true_iff.mp idle).2
  · cases idle

theorem loopOps_recorded : ∀ op ∈ a.loopOps env address blockSize i, Recorded env op :=
  fun op mem => readBlock_recorded a env address blockSize op (List.mem_of_mem_take mem)

/-- A second way round an idle loop ends where it starts. -/
theorem iterate_again (other : Handler) (idle : a.branchIsIdleLoop env address blockSize i = true)
    {m m' : Machine} (run : env.iterate other (a.loopOps env address blockSize i) m = some m')
    (start : m.pc = address) (back : m'.pc = address)
    (settled : Settled (a.loopOps env address blockSize i) m) :
    env.iterate other (a.loopOps env address blockSize i) m' = some m' := by
  have busy := isBusyWaitLoop_of_idle idle
  have recorded := @loopOps_recorded a env address blockSize i
  have spec := iterate_spec recorded (waits_of_isBusyWaitLoop recorded busy) run
  obtain ⟨steps, trace, shape⟩ := spec.trace settled.overflow
  have unwritten : ∀ c, Exposed c steps → ¬ Written c steps := by
    intro c exposed written
    obtain ⟨op, mem, writes⟩ := writes_of_steps shape written
    have exposed := exposed_of_steps shape exposed
    cases c with
    | gpr r =>
        by_cases strings : ∃ op ∈ a.loopOps env address blockSize i, op.isStringLoad = true
        · exact settled.strings strings r exposed op mem writes
        · have noStrings : ∀ op ∈ a.loopOps env address blockSize i, op.isStringLoad = false :=
            fun x inOps => Bool.eq_false_of_not_eq_true fun string => strings ⟨x, inOps, string⟩
          exact gprs_of_isBusyWaitLoop recorded noStrings m.xerStringctrl r busy
            (.inr ⟨BitVec.getLsbD_zero, exposed⟩) op mem writes
    | _ => exact settled.cells _ (by simp) exposed op mem writes
  have link : Linked m'.ppc.xerSO m m' :=
    ⟨start.trans back.symm, spec.memory.symm, spec.msrLE.symm, spec.xerStringctrl.symm,
      spec.ctr.symm, rfl⟩
  obtain ⟨t, run', link', same⟩ := trace.restart Cell.same_refl link unwritten
  rw [eq_of_same link' rfl same] at run'
  exact run'

/-- A loop marked idle has no stores, and if it is settled every further iteration takes the same
branches and ends in the state that the first one ended in. -/
theorem idle_loop_stays (other : Handler)
    (idle : a.branchIsIdleLoop env address blockSize i = true) {m m' : Machine}
    (run : env.iterate other (a.loopOps env address blockSize i) m = some m')
    (start : m.pc = address) (back : m'.pc = address)
    (settled : Settled (a.loopOps env address blockSize i) m) :
    (∀ op ∈ a.loopOps env address blockSize i,
      op.opinfo.type = .integer ∨ op.opinfo.type = .load ∨ op.opinfo.type = .branch) ∧
    m'.memory = m.memory ∧
    ∀ n, env.iterations other (a.loopOps env address blockSize i) n m' = some m' := by
  have busy := isBusyWaitLoop_of_idle idle
  have recorded := @loopOps_recorded a env address blockSize i
  have waits := waits_of_isBusyWaitLoop recorded busy
  refine ⟨?_, (iterate_spec recorded waits run).memory, ?_⟩
  · intro op mem
    rcases waits op mem with type | type | ⟨type, -⟩
    · exact .inl type
    · exact .inr (.inl type)
    · exact .inr (.inr type)
  · have again := iterate_again other idle run start back settled
    intro n
    induction n with
    | zero => rfl
    | succ n ih => rw [Env.iterations, again, Option.bind_some, ih]

end

/-- A loop whose operations look at nothing but registers is settled. -/
theorem settled_of_plain {ops : List CodeOp} (m : Machine)
    (plain : ∀ op ∈ ops, op.crIn = 0 ∧ op.opinfo.flags.has flReadCA = false ∧
      op.isBclrx = false ∧ op.isStringLoad = false ∧ op.copiesSO = false) : Settled ops m := by
  have exposed_read : ∀ {c : Cell}, Exposed c (ops.map (·.footprint m.xerStringctrl)) →
      ∃ op ∈ ops, c ∈ op.reads := by
    intro c exposed
    clear plain
    induction ops with
    | nil => exact exposed.elim
    | cons op ops ih =>
        rcases exposed with reads | ⟨-, later⟩
        · exact ⟨op, List.mem_cons_self, reads⟩
        · obtain ⟨x, mem, reads⟩ := ih later
          exact ⟨x, List.mem_cons_of_mem op mem, reads⟩
  refine ⟨?_, ?_, .inr ?_⟩
  · intro c notGpr exposed
    obtain ⟨op, mem, reads⟩ := exposed_read exposed
    obtain ⟨crIn, noCA, noBclrx, -, -⟩ := plain op mem
    cases c with
    | gpr r => exact absurd rfl (notGpr r)
    | cr i =>
        have bit : op.crIn.getLsbD i.toNat = true := reads.2
        simp [crIn] at bit
    | ca => exact absurd (noCA ▸ reads : false = true) Bool.false_ne_true
    | lr => exact absurd (noBclrx ▸ reads : false = true) Bool.false_ne_true
    | ov => exact reads.elim
    | reserve => exact reads.elim
  · rintro ⟨op, mem, string⟩
    exact absurd (string.symm.trans (plain op mem).2.2.2.1) (by decide)
  · apply List.pairwise_of_forall_mem_list
    intro x mem y _ copies
    exact absurd (copies.symm.trans (plain x mem).2.2.2.2) (by decide)

/-- `lwz r4, 0(r3)` and a branch back to it. -/
def pollingLoop : Env where
  tryReadInstruction address :=
    if address = 0x80003100 then some ⟨0x80830000⟩
    else if address = 0x80003104 then some ⟨0x4BFFFFFC⟩ else none
  tryReplaceFunction _ := false
  isAddressBreakPoint _ := false

/-- `beq` out of the loop, `cmpwi r3, 0` and a branch back. -/
def leavingLoop : Env where
  tryReadInstruction address :=
    if address = 0x80003100 then some ⟨0x41820010⟩
    else if address = 0x80003104 then some ⟨0x2C030000⟩
    else if address = 0x80003108 then some ⟨0x4BFFFFF8⟩ else none
  tryReplaceFunction _ := false
  isAddressBreakPoint _ := false

/-- An analyzer with no option but the one to go on behind conditional branches. -/
def continuing : PPCAnalyzer where
  optionConditionalContinue := true
  optionBranchFollow := false
  optionBranchMerge := false
  optionCarryMerge := false
  optionCrorMerge := false
  isDebuggingEnabled := false
  enableBranchFollowing := false
  enableFloatExceptions := false
  enableDivByZeroExceptions := false

/-- All general registers are zero, and EQ is clear in every condition register field. -/
def atStart : Machine where
  ppc := ⟨fun _ => 0, fun _ => 1, false, false, false⟩
  lr := 0
  ctr := 0
  xerStringctrl := 0
  msrLE := false
  reserve := false
  reserveAddress := 0
  pc := 0x80003100
  memory := ⟨fun _ => some 0, fun _ => some 0, fun _ => some 0⟩

theorem idle_loop_stays_polling : ∃ m',
    pollingLoop.iterate (fun _ _ => none) (continuing.loopOps pollingLoop 0x80003100 8 1)
      atStart = some m' ∧
    ∀ n, pollingLoop.iterations (fun _ _ => none)
      (continuing.loopOps pollingLoop 0x80003100 8 1) n m' = some m' := by
  have runs : ((pollingLoop.iterate (fun _ _ => none)
      (continuing.loopOps pollingLoop 0x80003100 8 1) atStart).map fun m => m.pc) =
        some 0x80003100 := by decide +kernel
  obtain ⟨m', run, back⟩ := Option.map_eq_some_iff.mp runs
  exact ⟨m', run, (idle_loop_stays (fun _ _ => none) (by decide +kernel) run rfl back
    (settled_of_plain atStart (by decide +kernel))).2.2⟩

/-- The branch at the start of the loop reads what the comparison behind it writes: after one
iteration the loop is left. -/
theorem idle_loop_leaves : ¬ ∀ (a : PPCAnalyzer) (env : Env) (address : BitVec 32)
    (blockSize i : Nat) (other : Handler) (m m' : Machine),
    a.branchIsIdleLoop env address blockSize i = true →
    env.iterate other (a.loopOps env address blockSize i) m = some m' →
    m.pc = address → m'.pc = address →
    ∃ m'', env.iterate other (a.loopOps env address blockSize i) m' = some m'' := by
  intro claim
  have runs : ((leavingLoop.iterate (fun _ _ => none)
      (continuing.loopOps leavingLoop 0x80003100 8 2) atStart).map fun m => m.pc) =
        some 0x80003100 := by decide +kernel
  have leaves : ((leavingLoop.iterate (fun _ _ => none)
      (continuing.loopOps leavingLoop 0x80003100 8 2) atStart).bind
        (leavingLoop.iterate (fun _ _ => none)
          (continuing.loopOps leavingLoop 0x80003100 8 2))).isSome = false := by decide +kernel
  obtain ⟨m', run, back⟩ := Option.map_eq_some_iff.mp runs
  obtain ⟨m'', again⟩ := claim continuing leavingLoop 0x80003100 8 2 (fun _ _ => none) atStart m'
    (by decide +kernel) run rfl back
  rw [run, Option.bind_some, again] at leaves
  cases leaves

end Phocoena.PPCAnalyst
