import Phocoena.PPCAnalyst.IdleLoop
import Phocoena.Gekko.Dispatch

/-! # The program counter and the link register

Which instruction the interpreter comes to, and what it leaves in LR, for every instruction that the
analyzer does not end a block at.
-/

namespace Phocoena.PPCAnalyst

open Gekko Gekko.Interpreter

/-- What the analyzer relies on of the instructions that the interpreter's model leaves to `other`:
but for `sc` and `rfi` they go on to the next one, and only `mtlr` changes LR. -/
structure Sequential (other : Handler) : Prop where
  next : ∀ {inst m m'}, inst.opcd ≠ 17 → ¬(inst.opcd = 19 ∧ inst.subop10 = 50) →
    other inst m = some m' → m'.pc = m.pc + 4
  link : ∀ {inst m m'}, inst.opcd ≠ 17 → ¬(inst.opcd = 19 ∧ inst.subop10 = 50) →
    ¬(isMtspr inst = true ∧ getSPRIndex inst = sprLR) → other inst m = some m' → m'.lr = m.lr

/-- The handler goes on to the next instruction and leaves LR as it is. -/
def Advances (fn : Handler) : Prop :=
  ∀ {inst m m'}, fn inst m = some m' → m'.pc = m.pc + 4 ∧ m'.lr = m.lr

theorem advances_runInteger (fn : Instruction) : Advances (runInteger fn) := by
  intro inst m m' run
  cases run
  exact ⟨rfl, rfl⟩

theorem advances_loadAt (ea : UGeckoInstruction → PowerPCState → BitVec 32)
    (read : Memory → BitVec 32 → Option (BitVec 32)) : Advances (loadAt ea read) := by
  intro inst m m' run
  obtain ⟨temp, -, rfl⟩ := Option.map_eq_some_iff.mp run
  exact ⟨rfl, rfl⟩

theorem advances_loadUpdate (ea : UGeckoInstruction → PowerPCState → BitVec 32)
    (read : Memory → BitVec 32 → Option (BitVec 32)) : Advances (loadUpdate ea read) := by
  intro inst m m' run
  obtain ⟨temp, -, rfl⟩ := Option.map_eq_some_iff.mp run
  exact ⟨rfl, rfl⟩

theorem advances_lwarx : Advances lwarx := by
  intro inst m m' run
  rw [lwarx] at run
  split at run
  · cases run
  · obtain ⟨temp, -, rfl⟩ := Option.map_eq_some_iff.mp run
    exact ⟨rfl, rfl⟩

theorem runString_advances {n : Nat} {ea : BitVec 32} {inst : UGeckoInstruction} {m m' : Machine}
    (run : runString n ea inst m = some m') : m'.pc = m.pc + 4 ∧ m'.lr = m.lr := by
  rw [runString] at run
  split at run
  · cases run
  · obtain ⟨temp, -, rfl⟩ := Option.map_eq_some_iff.mp run
    exact ⟨rfl, rfl⟩

theorem advances_load {inst : UGeckoInstruction} {fn : Handler} (found : getLoadOp inst = some fn) :
    Advances fn := by
  have all : ∀ row ∈ loadTable31.map Prod.snd ++ loadPrimaryTable.map Prod.snd, Advances row := by
    intro row member
    simp only [loadTable31, loadPrimaryTable, List.map_cons, List.map_nil, List.mem_append,
      List.mem_cons, List.not_mem_nil, or_false] at member
    rcases member with
      (rfl | rfl | rfl | rfl | rfl | rfl | rfl | rfl | rfl | rfl | rfl | rfl | rfl) |
      rfl | rfl | rfl | rfl | rfl | rfl | rfl | rfl
    all_goals first
      | exact advances_loadAt _ _
      | exact advances_loadUpdate _ _
      | exact advances_lwarx
      | exact runString_advances
  apply all
  rw [getLoadOp] at found
  split at found
  · exact List.mem_append_left _ (List.mem_map_of_mem (mem_of_lookup found))
  · exact List.mem_append_right _ (List.mem_map_of_mem (mem_of_lookup found))

/-! ## Branches -/

def isBranch (inst : UGeckoInstruction) : Bool :=
  inst.opcd == 18 || inst.opcd == 16 ||
    inst.opcd == 19 && (inst.subop10 == 16 || inst.subop10 == 528)

section
variable (other : Handler) {inst : UGeckoInstruction}

theorem run_bx (op : inst.opcd = 18) : runInterpreterOp other inst = bx inst := by
  simp only [runInterpreterOp, getInterpreterOp, getLoadOp, getBranchOp, op]
  rfl

theorem run_bcx (op : inst.opcd = 16) : runInterpreterOp other inst = bcx inst := by
  simp only [runInterpreterOp, getInterpreterOp, getLoadOp, getBranchOp, op]
  rfl

theorem run_bclrx (op : inst.opcd = 19) (sub : inst.subop10 = 16) :
    runInterpreterOp other inst = bclrx inst := by
  simp only [runInterpreterOp, getInterpreterOp, getLoadOp, getBranchOp, op, sub]
  rfl

theorem run_bcctrx (op : inst.opcd = 19) (sub : inst.subop10 = 528) :
    runInterpreterOp other inst = bcctrx inst := by
  simp only [runInterpreterOp, getInterpreterOp, getLoadOp, getBranchOp, op, sub]
  rfl

/-- The instructions that are no branches. -/
theorem run_straight {m m' : Machine} {other : Handler} (sequential : Sequential other)
    (straight : isBranch inst = false) (not_sc : inst.opcd ≠ 17)
    (not_rfi : ¬(inst.opcd = 19 ∧ inst.subop10 = 50))
    (run : runInterpreterOp other inst m = some m') :
    m'.pc = m.pc + 4 ∧ (¬(isMtspr inst = true ∧ getSPRIndex inst = sprLR) → m'.lr = m.lr) := by
  rw [runInterpreterOp] at run
  cases integer : getInterpreterOp inst with
  | some fn =>
      rw [integer] at run
      have advances := advances_runInteger fn run
      exact ⟨advances.1, fun _ => advances.2⟩
  | none =>
      cases load : getLoadOp inst with
      | some fn =>
          rw [integer, load] at run
          have advances := advances_load load run
          exact ⟨advances.1, fun _ => advances.2⟩
      | none =>
          have no_branch : getBranchOp inst = none := by
            simp only [isBranch, Bool.or_eq_false_iff, Bool.and_eq_false_iff, beq_eq_false_iff_ne]
              at straight
            obtain ⟨⟨not_bx, not_bcx⟩, not_19⟩ := straight
            rw [getBranchOp]
            split
            · next op =>
              rcases not_19 with other_op | ⟨not_bclrx, not_bcctrx⟩
              · exact absurd op other_op
              · simp only [branchTable19, List.lookup_eq_none_iff, List.forall_mem_cons, bne_iff_ne]
                exact ⟨not_bcctrx, not_bclrx, fun _ none => by cases none⟩
            · simp only [branchPrimaryTable, List.lookup_eq_none_iff, List.forall_mem_cons,
                bne_iff_ne]
              exact ⟨not_bcx, not_bx, fun _ none => by cases none⟩
          rw [integer, load, no_branch] at run
          exact ⟨sequential.next not_sc not_rfi run,
            fun not_mtlr => sequential.link not_sc not_rfi not_mtlr run⟩

end

/-- At the instruction, the interpreter takes a branch that depends on CTR or on a condition. -/
def takesConditional (inst : UGeckoInstruction) (m : Machine) : Bool :=
  if inst.opcd = 16 ∨ inst.opcd = 19 ∧ inst.subop10 = 16 then
    !always inst && (counterHolds inst (decremented inst m) && conditionHolds inst m)
  else if inst.opcd = 19 ∧ inst.subop10 = 528 then
    inst.bo &&& boDontCheckCondition == 0 && conditionHolds inst m
  else false

theorem bo_of_always {inst : UGeckoInstruction} (uncond : always inst = true) :
    inst.bo.getLsbD 2 = true ∧ inst.bo.getLsbD 4 = true := by
  rw [always] at uncond
  revert uncond
  generalize inst.bo = bo
  revert bo
  decide

section
variable {inst : UGeckoInstruction} {m : Machine}

theorem bcx_always (uncond : always inst = true) :
    bcx inst m = some (takeBranch inst { m with ctr := decremented inst m }
      ((inst.bd ++ 0#2).signExtend 32 + if inst.aa then 0 else m.pc)) := by
  obtain ⟨ignores_ctr, ignores_cr⟩ := bo_of_always uncond
  simp [bcx, counterHolds, conditionHolds, ignores_ctr, ignores_cr]

theorem bclrx_always (uncond : always inst = true) :
    bclrx inst m = some (takeBranch inst { m with ctr := decremented inst m }
      (m.lr &&& ~~~3#32)) := by
  obtain ⟨ignores_ctr, ignores_cr⟩ := bo_of_always uncond
  simp [bclrx, counterHolds, conditionHolds, ignores_ctr, ignores_cr]

/-- A conditional branch that is not taken goes on to the next instruction. -/
theorem conditional_falls {m' : Machine} (other : Handler)
    (op : (inst.opcd = 16 ∨ inst.opcd = 19 ∧ inst.subop10 = 16) ∧ always inst = false ∨
      inst.opcd = 19 ∧ inst.subop10 = 528 ∧ inst.bo &&& boDontCheckCondition = 0)
    (quiet : takesConditional inst m = false) (run : runInterpreterOp other inst m = some m') :
    m'.pc = m.pc + 4 := by
  rcases op with ⟨op, cond⟩ | ⟨op, sub, checks⟩
  · rw [takesConditional, if_pos op, cond] at quiet
    simp only [Bool.not_false, Bool.true_and] at quiet
    rcases op with op | ⟨op, sub⟩
    · rw [run_bcx other op, bcx] at run
      have falls : (counterHolds inst (decremented inst m) &&
          conditionHolds inst { m with ctr := decremented inst m }) = false := quiet
      simp only [falls] at run
      cases run
      rfl
    · rw [run_bclrx other op sub, bclrx] at run
      have falls : (counterHolds inst (decremented inst m) &&
          conditionHolds inst { m with ctr := decremented inst m }) = false := quiet
      simp only [falls] at run
      cases run
      rfl
  · have not_bcx : ¬(inst.opcd = 16 ∨ inst.opcd = 19 ∧ inst.subop10 = 16) := by
      rw [op, sub]
      decide
    rw [takesConditional, if_neg not_bcx, if_pos ⟨op, sub⟩, checks] at quiet
    simp only [beq_self_eq_true, Bool.true_and] at quiet
    rw [run_bcctrx other op sub, bcctrx] at run
    simp only [quiet] at run
    cases run
    rfl

end

/-! ## Where blocks end -/

/-- The analyzer can end a block at every branch, and at `sc` and `rfi`. -/
theorem canEndBlock_of_branch {inst : UGeckoInstruction}
    (op : isBranch inst = true ∨ inst.opcd = 17 ∨ inst.opcd = 19 ∧ inst.subop10 = 50) :
    instructionCanEndBlock inst (getOpInfo inst) = true := by
  have ops : inst.opcd = 18 ∨ inst.opcd = 16 ∨ inst.opcd = 17 ∨
      inst.opcd = 19 ∧ (inst.subop10 = 16 ∨ inst.subop10 = 528 ∨ inst.subop10 = 50) := by
    simp only [isBranch, Bool.or_eq_true, Bool.and_eq_true, beq_iff_eq] at op
    tauto
  have not_mtspr : isMtspr inst = false := by
    rcases ops with op | op | op | ⟨op, -⟩ <;> rw [isMtspr, op] <;> rfl
  have ends : (getOpInfo inst).flags.has flEndBlock = true := by
    rcases ops with op | op | op | ⟨op, sub | sub | sub⟩
    · have info : getOpInfo inst = ⟨"bx", .branch, flEndBlock⟩ := by
        unfold getOpInfo
        rw [op]
        rfl
      rw [info]
      rfl
    · have info : getOpInfo inst = ⟨"bcx", .branch, flEndBlock ||| flReadCRBI⟩ := by
        unfold getOpInfo
        rw [op]
        rfl
      rw [info]
      rfl
    · have info : getOpInfo inst = ⟨"sc", .system, flEndBlock⟩ := by
        unfold getOpInfo
        rw [op]
        rfl
      rw [info]
      rfl
    all_goals
      rw [getOpInfo, op, sub]
      rfl
  rw [instructionCanEndBlock, ends, not_mtspr]
  rfl

end Phocoena.PPCAnalyst
