import Phocoena.PPCAnalyst.Analyze
import Phocoena.Lib.Restart
import Mathlib.Data.List.Chain
import Mathlib.Data.List.Perm.Basic

/-! # What the backward scan promises

A register that may be discarded after an operation is written before anything looks at it. A
flag that an operation need not produce is overwritten before anything looks at it, unless an
operation that overwrites it may first leave the block: the scan forgets that such an operation
leaves with the old flag.
-/

namespace Phocoena.Gekko

/-- A property of all rows of the tables is one of all instructions. -/
theorem getOpInfo_of_rows {P : GekkoOPInfo → Prop} (unknown : P unknownOpInfo)
    (rows : (∀ row ∈ table4_2, P row.2) ∧ (∀ row ∈ table4_3, P row.2) ∧
      (∀ row ∈ table4, P row.2) ∧ (∀ row ∈ table19, P row.2) ∧ (∀ row ∈ table31Ops, P row.2) ∧
      (∀ row ∈ table59, P row.2) ∧ (∀ row ∈ table63, P row.2) ∧ (∀ row ∈ table63_2, P row.2) ∧
      ∀ row ∈ primaryOps, P row.2)
    (inst : UGeckoInstruction) : P (getOpInfo inst) := by
  have found : ∀ {w : Nat} {table : List (GekkoOPTemplate w)} (op : BitVec w),
      (∀ row ∈ table, P row.2) → ∀ info, lookUp table op = some info → P info := by
    intro w table op all info eq
    obtain ⟨_, _, eq, -⟩ := List.lookup_eq_some_iff.mp eq
    exact all (op, info) (by simp [eq])
  have either : ∀ {x y : Option GekkoOPInfo}, (∀ info, x = some info → P info) →
      (∀ info, y = some info → P info) → ∀ info, x.or y = some info → P info := by
    intro x y hx hy info eq
    cases x with
    | none => exact hy info (by simpa using eq)
    | some z => exact hx info (by simpa using eq)
  have getD : ∀ x : Option GekkoOPInfo, (∀ info, x = some info → P info) →
      P (x.getD unknownOpInfo) := by
    intro x hx
    cases x with
    | none => exact unknown
    | some z => exact hx z rfl
  obtain ⟨h4_2, h4_3, h4, h19, h31, h59, h63, h63_2, h⟩ := rows
  refine getD _ ?_
  split
  · exact either (found _ h4_2) (either (found _ h4_3) (found _ h4))
  · split
    · exact found _ h19
    · split
      · exact found _ h31
      · split
        · exact found _ h59
        · split
          · exact either (found _ h63) (found _ h63_2)
          · exact found _ h

end Phocoena.Gekko

namespace Phocoena.PPCAnalyst

open Gekko

/-- An operation behind which the gather pipe may raise an interrupt may leave the block, or has
no result. -/
def QuietAtGatherPipe (op : CodeOp) : Prop :=
  canCauseGatherPipeInterruptCheck op = true → op.canCauseException = true ∨
    op.regsOut = 0 ∧ op.getFregsOut = 0 ∧ op.crOut = 0

def isStore (type : OpType) : Bool := type == .store || type == .storeFP || type == .storePS

theorem getOpInfo_store (inst : UGeckoInstruction) :
    isStore (getOpInfo inst).type = true →
      (getOpInfo inst).flags.has (flLoadStore ||| flProgramException) = true :=
  getOpInfo_of_rows (P := fun info => isStore info.type = true →
    info.flags.has (flLoadStore ||| flProgramException) = true) (by decide) (by decide +kernel) inst

theorem getOpInfo_eieio {inst : UGeckoInstruction} (opcd : inst.opcd = 31)
    (subop10 : inst.subop10 = 854) : getOpInfo inst = ⟨"eieio", .system, 0⟩ := by
  unfold getOpInfo
  rw [opcd, subop10]
  decide +kernel

theorem setInstructionStats_quiet (a : PPCAnalyzer) (fpaAny : Bool) (inst : UGeckoInstruction)
    (address : BitVec 32) :
    QuietAtGatherPipe (a.setInstructionStats fpaAny (.fresh inst (getOpInfo inst) address)
      (getOpInfo inst)).1 := by
  intro gather
  simp only [canCauseGatherPipeInterruptCheck, PPCAnalyzer.setInstructionStats, CodeOp.fresh] at gather
  by_cases store : isStore (getOpInfo inst).type = true
  · left
    simp [PPCAnalyzer.setInstructionStats, getOpInfo_store inst store]
  · right
    obtain ⟨opcd, subop10⟩ : inst.opcd = 31 ∧ inst.subop10 = 854 := by
      simp only [isStore, Bool.or_eq_true, not_or] at store
      simpa [store] using gather
    rw [getOpInfo_eieio opcd subop10]
    refine ⟨?_, ?_, ?_⟩
    · simp [PPCAnalyzer.setInstructionStats, CodeOp.fresh, regsOutOf, onlyIf, InstructionFlags.has,
        opcd]
    · simp [PPCAnalyzer.setInstructionStats, CodeOp.fresh, CodeOp.getFregsOut,
        InstructionFlags.has]
    · simp [PPCAnalyzer.setInstructionStats, CodeOp.fresh, crOutOf, InstructionFlags.has]

/-! ## The operations of a block come from its instructions -/

theorem swapAdjacent_perm {α : Type} {x y : α} {i : Nat} {l : List α} (hx : l[i]? = some x)
    (hy : l[i + 1]? = some y) : ((l.set i y).set (i + 1) x).Perm l := by
  induction i generalizing l with
  | zero =>
      obtain _ | ⟨z, _ | ⟨w, l⟩⟩ := l
      · cases hx
      · cases hy
      · cases hx
        cases hy
        exact .swap x y l
  | succ i ih =>
      cases l with
      | nil => cases hx
      | cons z l => exact (ih hx hy).cons z

section
variable (a : PPCAnalyzer) (env : Env)

theorem bubble_perm (reverse : Bool) (type : ReorderType) (i : Nat) (code : List CodeOp) :
    (a.bubble env reverse type i code).Perm code := by
  induction i generalizing code with
  | zero =>
      unfold PPCAnalyzer.bubble
      split
      · split
        · exact swapAdjacent_perm ‹_› ‹_›
        · exact .refl code
      · exact .refl code
  | succ j ih =>
      unfold PPCAnalyzer.bubble
      split
      · split
        · exact (ih _).trans (swapAdjacent_perm ‹_› ‹_›)
        · exact .refl code
      · exact .refl code

theorem reorderInstructionsCore_perm (reverse : Bool) (type : ReorderType)
    (code : List CodeOp) : (a.reorderInstructionsCore env reverse type code).Perm code := by
  have pass : ∀ (positions : List Nat) (l : List CodeOp),
      (positions.foldl (fun code i => a.bubble env reverse type i code) l).Perm l := by
    intro positions
    induction positions with
    | nil => exact fun l => .refl l
    | cons i positions ih => exact fun l => (ih _).trans (bubble_perm a env reverse type i l)
  unfold PPCAnalyzer.reorderInstructionsCore
  cases reverse with
  | false => exact pass _ code
  | true => exact (List.reverse_perm _).trans ((pass _ _).trans (List.reverse_perm code))

theorem reorderInstructions_perm (code : List CodeOp) :
    (a.reorderInstructions env code).Perm code := by
  have core := reorderInstructionsCore_perm a env
  unfold PPCAnalyzer.reorderInstructions
  dsimp only
  have carried : (if a.optionCarryMerge then a.reorderInstructionsCore env true .carry
      (a.reorderInstructionsCore env false .carry code) else code).Perm code := by
    split
    · exact (core ..).trans (core ..)
    · exact .refl code
  have compared := carried
  split
  · split
    · exact (core ..).trans ((core ..).trans carried)
    · exact (core ..).trans carried
  · split
    · exact (core ..).trans carried
    · exact carried

theorem block_quiet (address : BitVec 32) (blockSize : Nat) :
    ∀ x ∈ a.block env address blockSize, QuietAtGatherPipe x := by
  have read := readInstructions_forall a env
    (fun fpaAny inst address _ => setInstructionStats_quiet a fpaAny inst address)
    (fun _ _ _ _ quiet => quiet) blockSize blockSize ⟨address, false, false, 0, 0⟩ [] (by simp)
  unfold PPCAnalyzer.block
  dsimp only
  split
  · exact fun x mem => read x ((reorderInstructions_perm a env _).mem_iff.mp mem)
  · exact read

end

/-! ## What may be discarded -/

/-- The operation looks at a register (it reads it), or anything outside the block may. -/
def Env.looks (env : Env) (reads : CodeOp → Bool) (op : CodeOp) : Bool :=
  reads op || env.mayExitBlock op || canCauseGatherPipeInterruptCheck op

/-- Some later operation writes a register, and nothing looks at the register up to then. -/
def Dead (env : Env) (reads writes : CodeOp → Bool) (later : List CodeOp) : Prop :=
  Until (fun op => env.looks reads op = false)
    (fun op => env.looks reads op = false ∧ writes op = true) later

section
variable {env : Env}

/-- The set of what may be discarded, before an operation that can discard. -/
theorem dead_cons {reads writes : CodeOp → Bool} {op : CodeOp} {later : List CodeOp} {after : Bool}
    (sound : after = true → Dead env reads writes later)
    (stays : env.mayExitBlock op = false)
    (quiet : canCauseGatherPipeInterruptCheck op = true → writes op = false)
    (found : ((bif canCauseGatherPipeInterruptCheck op then false else after) || writes op) = true)
    (unread : reads op = false) : Dead env reads writes (op :: later) := by
  cases gather : canCauseGatherPipeInterruptCheck op with
  | true =>
      rw [gather, quiet gather] at found
      cases found
  | false =>
      have blind : env.looks reads op = false := by simp [Env.looks, unread, stays, gather]
      rw [gather, cond_false, Bool.or_eq_true] at found
      rcases found with dead | written
      · exact until_cons.mpr (.inr ⟨blind, sound dead⟩)
      · exact until_cons.mpr (.inl ⟨blind, written⟩)

theorem scan_cons (op : CodeOp) (later : List CodeOp) :
    env.scan (op :: later) = env.scanOp op (env.scan later) := rfl

/-- The three sets before an operation: empty if it may leave the block. -/
theorem scanOp_discardable (op : CodeOp) (after : Scan) (r : Nat) :
    ((env.scanOp op after).gprDiscardable.getLsbD r = true → env.mayExitBlock op = false ∧
      ((bif canCauseGatherPipeInterruptCheck op then false else after.gprDiscardable.getLsbD r) ||
        op.regsOut.getLsbD r) = true ∧ op.regsIn.getLsbD r = false) ∧
    ((env.scanOp op after).fprDiscardable.getLsbD r = true → env.mayExitBlock op = false ∧
      ((bif canCauseGatherPipeInterruptCheck op then false else after.fprDiscardable.getLsbD r) ||
        op.getFregsOut.getLsbD r) = true ∧ op.fregsIn.getLsbD r = false) ∧
    ((env.scanOp op after).crDiscardable.getLsbD r = true → env.mayExitBlock op = false ∧
      ((bif canCauseGatherPipeInterruptCheck op then false else after.crDiscardable.getLsbD r) ||
        op.crOut.getLsbD r) = true ∧ op.crIn.getLsbD r = false) := by
  unfold Env.scanOp Env.mayExitBlock Scan.flushed
  cases env.interrupts op with
  | true => simp
  | false =>
      cases op.canEndBlock with
      | true => simp
      | false =>
          cases op.canCauseException with
          | true => simp
          | false =>
              cases canCauseGatherPipeInterruptCheck op <;> simp
              all_goals exact ⟨fun h _ unread => ⟨h, unread⟩, fun h _ unread => ⟨h, unread⟩,
                fun h _ unread => ⟨h, unread⟩⟩

/-- What the scan would discard before `code`. -/
theorem scan_discardable (code : List CodeOp) (quiet : ∀ op ∈ code, QuietAtGatherPipe op) (r : Nat) :
    ((env.scan code).gprDiscardable.getLsbD r = true →
      Dead env (·.regsIn.getLsbD r) (·.regsOut.getLsbD r) code) ∧
    ((env.scan code).fprDiscardable.getLsbD r = true →
      Dead env (·.fregsIn.getLsbD r) (·.getFregsOut.getLsbD r) code) ∧
    ((env.scan code).crDiscardable.getLsbD r = true →
      Dead env (·.crIn.getLsbD r) (·.crOut.getLsbD r) code) := by
  induction code with
  | nil => simp [Env.scan, Scan.atEnd]
  | cons op later ih =>
      obtain ⟨gpr, fpr, cr⟩ := ih fun x mem => quiet x (List.mem_cons_of_mem op mem)
      have atGatherPipe : env.mayExitBlock op = false →
          canCauseGatherPipeInterruptCheck op = true →
            op.regsOut = 0 ∧ op.getFregsOut = 0 ∧ op.crOut = 0 := by
        intro stays gather
        rcases quiet op List.mem_cons_self gather with leaves | none
        · simp [Env.mayExitBlock, leaves] at stays
        · exact none
      obtain ⟨foundGpr, foundFpr, foundCr⟩ := scanOp_discardable op (env.scan later) r
      refine ⟨fun mem => ?_, fun mem => ?_, fun mem => ?_⟩
      · obtain ⟨stays, found, unread⟩ := foundGpr mem
        refine dead_cons gpr stays (fun gather => ?_) found unread
        simp [(atGatherPipe stays gather).1]
      · obtain ⟨stays, found, unread⟩ := foundFpr mem
        refine dead_cons fpr stays (fun gather => ?_) found unread
        simp [(atGatherPipe stays gather).2.1]
      · obtain ⟨stays, found, unread⟩ := foundCr mem
        refine dead_cons cr stays (fun gather => ?_) found unread
        simp [(atGatherPipe stays gather).2.2]

/-! ## Which flags must be produced -/

/-- The operation leaves the block before it writes anything. -/
def Env.leavesFirst (env : Env) (op : CodeOp) : Bool := env.interrupts op || op.canCauseException

/-- Some later operation overwrites a flag before the flag is read, the block is left, or it
ends. -/
def Overwritten (env : Env) (reads outputs : CodeOp → Bool) (later : List CodeOp) : Prop :=
  Until (fun op => reads op = false ∧ env.mayExitBlock op = false)
    (fun op => reads op = false ∧ env.leavesFirst op = false ∧ outputs op = true) later

/-- `b` may not leave with an old flag that it would have overwritten, unless `a` may leave too. -/
def KeepsFlag (env : Env) (reads outputs : CodeOp → Bool) (a b : CodeOp) : Prop :=
  env.leavesFirst b = true → outputs b = true → reads b = false → env.mayExitBlock a = true

instance (env : Env) (reads outputs : CodeOp → Bool) :
    DecidableRel (KeepsFlag env reads outputs) := fun a b =>
  inferInstanceAs (Decidable (env.leavesFirst b = true → outputs b = true → reads b = false →
    env.mayExitBlock a = true))

/-- Whether a flag is wanted before `code`. -/
def wanted (env : Env) (reads outputs : CodeOp → Bool) : List CodeOp → Bool
  | [] => true
  | op :: later =>
      (wanted env reads outputs later || reads op || env.mayExitBlock op) &&
        (!outputs op || reads op)

theorem scan_wants (code : List CodeOp) :
    (env.scan code).wantsCA = wanted env CodeOp.wantsCA CodeOp.outputCA code ∧
      (env.scan code).wantsFPRF = wanted env CodeOp.wantsFPRF CodeOp.outputFPRF code := by
  induction code with
  | nil => exact ⟨rfl, rfl⟩
  | cons op later ih =>
      rw [scan_cons, wanted, wanted, ← ih.1, ← ih.2]
      unfold Env.scanOp Scan.flushed
      cases canCauseGatherPipeInterruptCheck op <;> cases env.interrupts op <;>
        cases op.canEndBlock <;> cases op.canCauseException <;> exact ⟨rfl, rfl⟩

theorem leavesFirst_le {op : CodeOp} (stays : env.mayExitBlock op = false) :
    env.leavesFirst op = false := by
  simp only [Env.mayExitBlock, Bool.or_eq_false_iff] at stays
  simp only [Env.leavesFirst, Bool.or_eq_false_iff]
  exact ⟨stays.1.1, stays.2⟩

section
variable {reads outputs : CodeOp → Bool}

theorem wanted_cons_eq_false {op : CodeOp} {later : List CodeOp} :
    wanted env reads outputs (op :: later) = false ↔ reads op = false ∧
      (outputs op = true ∨ wanted env reads outputs later = false ∧ env.mayExitBlock op = false) := by
  rw [wanted]
  cases wanted env reads outputs later <;> cases reads op <;> cases env.mayExitBlock op <;>
    cases outputs op <;> simp

theorem overwritten_of_not_wanted {op : CodeOp} {later : List CodeOp}
    (keeps : (op :: later).IsChain (KeepsFlag env reads outputs))
    (stays : env.mayExitBlock op = false) (unwanted : wanted env reads outputs later = false) :
    Overwritten env reads outputs later := by
  induction later generalizing op with
  | nil => cases unwanted
  | cons next later ih =>
      obtain ⟨keeps, rest⟩ := List.isChain_cons_cons.mp keeps
      obtain ⟨unread, written | ⟨still, staysToo⟩⟩ := wanted_cons_eq_false.mp unwanted
      · cases leaves : env.leavesFirst next with
        | false => exact until_cons.mpr (.inl ⟨unread, leaves, written⟩)
        | true =>
            rw [keeps leaves written unread] at stays
            cases stays
      · exact until_cons.mpr (.inr ⟨⟨unread, staysToo⟩, ih rest staysToo still⟩)

theorem keepsFlag_of_overwritten {op next : CodeOp} {later : List CodeOp}
    (sound : env.mayExitBlock op = false → wanted env reads outputs (next :: later) = false →
      Overwritten env reads outputs (next :: later)) : KeepsFlag env reads outputs op next := by
  intro leaves written unread
  by_contra stays
  have unwanted : wanted env reads outputs (next :: later) = false :=
    wanted_cons_eq_false.mpr ⟨unread, .inl written⟩
  rcases until_cons.mp (sound (by simpa using stays) unwanted) with ⟨-, remains, -⟩ | ⟨⟨-, remains⟩, -⟩
  · rw [leaves] at remains
    cases remains
  · rw [leavesFirst_le remains] at leaves
    cases leaves

end

/-! ## The whole block -/

/-- The annotations of `op` are right when the operations `later` follow it. -/
structure Live (env : Env) (op : CodeOp) (later : List CodeOp) : Prop where
  gpr : ∀ r, op.gprDiscardable.getLsbD r = true →
    Dead env (·.regsIn.getLsbD r) (·.regsOut.getLsbD r) later
  fpr : ∀ r, op.fprDiscardable.getLsbD r = true →
    Dead env (·.fregsIn.getLsbD r) (·.getFregsOut.getLsbD r) later
  cr : ∀ r, op.crDiscardable.getLsbD r = true →
    Dead env (·.crIn.getLsbD r) (·.crOut.getLsbD r) later
  ca : op.wantsCA = false → Overwritten env CodeOp.wantsCA CodeOp.outputCA later
  fprf : op.wantsFPRF = false → Overwritten env CodeOp.wantsFPRF CodeOp.outputFPRF later

/-- Every operation of the scanned block is annotated rightly, for the operations as they were
when the scan began. -/
def LivenessSound (env : Env) (code : List CodeOp) : Prop :=
  ∀ i op, (env.backwardScan code)[i]? = some op → Live env op (code.drop (i + 1))

theorem livenessSound_cons (op : CodeOp) (later : List CodeOp) :
    LivenessSound env (op :: later) ↔
      Live env (env.annotate op (env.scan later)) later ∧ LivenessSound env later := by
  constructor
  · intro sound
    exact ⟨sound 0 _ rfl, fun i x eq => sound (i + 1) x eq⟩
  · rintro ⟨head, rest⟩ i x eq
    cases i with
    | zero =>
        cases eq
        exact head
    | succ i => exact rest i x eq

theorem annotate_discardable (op : CodeOp) (after : Scan) (r : Nat) :
    ((env.annotate op after).gprDiscardable.getLsbD r = true →
      after.gprDiscardable.getLsbD r = true) ∧
    ((env.annotate op after).fprDiscardable.getLsbD r = true →
      after.fprDiscardable.getLsbD r = true) ∧
    ((env.annotate op after).crDiscardable.getLsbD r = true →
      after.crDiscardable.getLsbD r = true) := by
  unfold Env.annotate Scan.flushed
  cases canCauseGatherPipeInterruptCheck op <;> simp

theorem annotate_wants (op : CodeOp) (after : Scan) :
    (env.annotate op after).wantsCA = (after.wantsCA || env.mayExitBlock op) ∧
      (env.annotate op after).wantsFPRF = (after.wantsFPRF || env.mayExitBlock op) := by
  unfold Env.annotate Scan.flushed
  cases canCauseGatherPipeInterruptCheck op <;> exact ⟨rfl, rfl⟩

theorem live_annotate_iff (op : CodeOp) (later : List CodeOp)
    (quiet : ∀ x ∈ later, QuietAtGatherPipe x) :
    Live env (env.annotate op (env.scan later)) later ↔
      (env.mayExitBlock op = false → wanted env CodeOp.wantsCA CodeOp.outputCA later = false →
        Overwritten env CodeOp.wantsCA CodeOp.outputCA later) ∧
      (env.mayExitBlock op = false → wanted env CodeOp.wantsFPRF CodeOp.outputFPRF later = false →
        Overwritten env CodeOp.wantsFPRF CodeOp.outputFPRF later) := by
  obtain ⟨wantsCA, wantsFPRF⟩ := annotate_wants op (env.scan later)
  rw [(scan_wants later).1] at wantsCA
  rw [(scan_wants later).2] at wantsFPRF
  constructor
  · intro live
    refine ⟨fun stays unwanted => live.ca ?_, fun stays unwanted => live.fprf ?_⟩
    · rw [wantsCA, unwanted, stays, Bool.or_false]
    · rw [wantsFPRF, unwanted, stays, Bool.or_false]
  · rintro ⟨ca, fprf⟩
    have annotated := @annotate_discardable env op (env.scan later)
    have sound := @scan_discardable env later quiet
    refine ⟨fun r mem => (sound r).1 ((annotated r).1 mem),
      fun r mem => (sound r).2.1 ((annotated r).2.1 mem),
      fun r mem => (sound r).2.2 ((annotated r).2.2 mem), fun no => ?_, fun no => ?_⟩
    · obtain ⟨unwanted, stays⟩ := Bool.or_eq_false_iff.mp (wantsCA.symm.trans no)
      exact ca stays unwanted
    · obtain ⟨unwanted, stays⟩ := Bool.or_eq_false_iff.mp (wantsFPRF.symm.trans no)
      exact fprf stays unwanted

theorem livenessSound_iff (code : List CodeOp) (quiet : ∀ op ∈ code, QuietAtGatherPipe op) :
    LivenessSound env code ↔
      code.IsChain (KeepsFlag env CodeOp.wantsCA CodeOp.outputCA) ∧
        code.IsChain (KeepsFlag env CodeOp.wantsFPRF CodeOp.outputFPRF) := by
  induction code with
  | nil => simp [LivenessSound, Env.backwardScan]
  | cons op later ih =>
      have rest := fun x mem => quiet x (List.mem_cons_of_mem op mem)
      rw [livenessSound_cons, live_annotate_iff op later rest, ih rest]
      constructor
      · rintro ⟨⟨ca, fprf⟩, keepsCA, keepsFPRF⟩
        cases later with
        | nil => exact ⟨.singleton op, .singleton op⟩
        | cons next later =>
            exact ⟨List.isChain_cons_cons.mpr ⟨keepsFlag_of_overwritten ca, keepsCA⟩,
              List.isChain_cons_cons.mpr ⟨keepsFlag_of_overwritten fprf, keepsFPRF⟩⟩
      · rintro ⟨keepsCA, keepsFPRF⟩
        exact ⟨⟨overwritten_of_not_wanted keepsCA, overwritten_of_not_wanted keepsFPRF⟩,
          keepsCA.tail, keepsFPRF.tail⟩

end

/-- The analyzer's promises hold in exactly the blocks in which no operation may leave by an
exception, or be replaced, with an old flag that it would have overwritten, unless the operation
before it may leave too. -/
theorem analyze_live_iff (a : PPCAnalyzer) (env : Env) (address : BitVec 32) (blockSize : Nat) :
    LivenessSound env (a.block env address blockSize) ↔
      (a.block env address blockSize).IsChain (KeepsFlag env CodeOp.wantsCA CodeOp.outputCA) ∧
        (a.block env address blockSize).IsChain
          (KeepsFlag env CodeOp.wantsFPRF CodeOp.outputFPRF) :=
  livenessSound_iff _ (block_quiet a env address blockSize)

/-- An analyzer with no options. -/
def plainAnalyzer : PPCAnalyzer := ⟨false, false, false, false, false, false, false, false, false⟩

/-- `addic r3, r3, 1` and `mtspr XER, r4`, with no hooks and no breakpoints. -/
def addicMtxer : Env where
  tryReadInstruction address :=
    if address = 0x80003100 then some ⟨0x30630001⟩
    else if address = 0x80003104 then some ⟨0x7C8103A6⟩
    else none
  tryReplaceFunction _ := false
  isAddressBreakPoint _ := false

theorem analyze_not_always_live :
    ((plainAnalyzer.analyze addicMtxer 0x80003100 16).map CodeOp.wantsCA = [false, true] ∧
      (plainAnalyzer.analyze addicMtxer 0x80003100 16).map CodeOp.canCauseException =
        [false, true]) ∧
    ¬ LivenessSound addicMtxer (plainAnalyzer.block addicMtxer 0x80003100 16) := by
  refine ⟨by decide +kernel, fun sound => ?_⟩
  have keeps := ((livenessSound_iff _ (block_quiet _ _ _ _)).mp sound).1
  revert keeps
  decide +kernel

end Phocoena.PPCAnalyst
