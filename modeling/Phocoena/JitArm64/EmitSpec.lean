import Phocoena.JitArm64.View

/-! # Reading an instruction compiler

The operations of the emitter as weakest preconditions over views. An instruction compiler is
evaluated with these as simp lemmas; its forward branches are split into the run that falls
through and the run that skips to the label.
-/

namespace Phocoena.JitArm64

open A64 JitCommon

namespace View

variable (v : View) (g h : GuestReg) (value : BitVec 64) (i : Inst HostReg)

section taken

@[simp] theorem taken_toHostState : v.taken.toHostState = v.toHostState := rfl
@[simp] theorem taken_op : v.taken.op = v.op := rfl
@[simp] theorem taken_scopedRegs : v.taken.scopedRegs = v.scopedRegs + 1 := rfl
@[simp] theorem taken_fixupBranches : v.taken.fixupBranches = v.fixupBranches := rfl
@[simp] theorem taken_resident : v.taken.resident h ↔ v.resident h := Iff.rfl
@[simp] theorem taken_writable : v.taken.writable h ↔ v.writable h := Iff.rfl
@[simp] theorem taken_tainted : v.taken.tainted h ↔ v.tainted h := Iff.rfl
@[simp] theorem taken_readable (r : Reg HostReg) : v.taken.readable r ↔ v.readable r := Iff.rfl

end taken

section withRegs

variable (x : HostReg → BitVec 64) (f : NZCV)

@[simp] theorem withRegs_x : (v.withRegs x f).x = x := rfl
@[simp] theorem withRegs_flags : (v.withRegs x f).flags = f := rfl
@[simp] theorem withRegs_pending : (v.withRegs x f).pending = v.pending := rfl
@[simp] theorem withRegs_op : (v.withRegs x f).op = v.op := rfl
@[simp] theorem withRegs_scopedRegs : (v.withRegs x f).scopedRegs = v.scopedRegs := rfl
@[simp] theorem withRegs_fixupBranches : (v.withRegs x f).fixupBranches = v.fixupBranches := rfl
@[simp] theorem withRegs_tainted : (v.withRegs x f).tainted h ↔ v.tainted h := Iff.rfl
@[simp] theorem withRegs_readable (r : Reg HostReg) : (v.withRegs x f).readable r ↔ v.readable r := Iff.rfl

end withRegs

section known

variable (j : BitVec 5) (imm : BitVec 32)

@[simp] theorem known_x : (v.known j imm).x =
    Function.update v.x (.guest (.gpr j)) (imm.setWidth 64) := rfl
@[simp] theorem known_flags : (v.known j imm).flags = v.flags := rfl
@[simp] theorem known_pending : (v.known j imm).pending = v.pending := rfl
@[simp] theorem known_op : (v.known j imm).op = v.op := rfl
@[simp] theorem known_scopedRegs : (v.known j imm).scopedRegs = v.scopedRegs := rfl
@[simp] theorem known_fixupBranches : (v.known j imm).fixupBranches = v.fixupBranches := rfl
@[simp] theorem known_writable :
    (v.known j imm).writable h ↔ h ≠ .gpr j ∧ v.writable h := Iff.rfl
@[simp] theorem known_tainted :
    (v.known j imm).tainted h ↔ h ≠ .gpr j ∧ v.tainted h := Iff.rfl

end known

section loaded

@[simp] theorem loaded_toHostState : (v.loaded g).toHostState = v.toHostState := rfl
@[simp] theorem loaded_op : (v.loaded g).op = v.op := rfl
@[simp] theorem loaded_scopedRegs : (v.loaded g).scopedRegs = v.scopedRegs := rfl
@[simp] theorem loaded_fixupBranches : (v.loaded g).fixupBranches = v.fixupBranches := rfl
@[simp] theorem loaded_resident : (v.loaded g).resident h ↔ h = g ∨ v.resident h := Iff.rfl
@[simp] theorem loaded_writable : (v.loaded g).writable h ↔ v.writable h := Iff.rfl
@[simp] theorem loaded_tainted : (v.loaded g).tainted h ↔ v.tainted h := Iff.rfl

end loaded

section bound

@[simp] theorem bound_x : (v.bound g value).x = Function.update v.x (.guest g) value := rfl
@[simp] theorem bound_flags : (v.bound g value).flags = v.flags := rfl
@[simp] theorem bound_pending : (v.bound g value).pending = v.pending := rfl
@[simp] theorem bound_op : (v.bound g value).op = v.op := rfl
@[simp] theorem bound_scopedRegs : (v.bound g value).scopedRegs = v.scopedRegs := rfl
@[simp] theorem bound_fixupBranches : (v.bound g value).fixupBranches = v.fixupBranches := rfl
@[simp] theorem bound_writable : (v.bound g value).writable h ↔ h = g ∨ v.writable h := Iff.rfl
@[simp] theorem bound_tainted : (v.bound g value).tainted h ↔ h ≠ g ∧ v.tainted h := Iff.rfl

end bound

section after

@[simp] theorem after_x : (v.after i).x = (v.set i.dest (i.eval v.get v.flags).1).x := rfl
@[simp] theorem after_flags : (v.after i).flags = (i.eval v.get v.flags).2 := rfl
@[simp] theorem after_pending : (v.after i).pending = v.pending := rfl
@[simp] theorem after_op : (v.after i).op = v.op := rfl
@[simp] theorem after_scopedRegs : (v.after i).scopedRegs = v.scopedRegs := rfl
@[simp] theorem after_fixupBranches : (v.after i).fixupBranches = v.fixupBranches := rfl
@[simp] theorem after_resident : (v.after i).resident h ↔ v.resident h := Iff.rfl
@[simp] theorem after_writable : (v.after i).writable h ↔ v.writable h := Iff.rfl
@[simp] theorem after_tainted : (v.after i).tainted h ↔ v.tainted h := Iff.rfl
@[simp] theorem after_readable (r : Reg HostReg) : (v.after i).readable r ↔ v.readable r := Iff.rfl

end after

section placed

variable (p : Option Nat) (n : Nat)

/-- A view on its way to the label `p`, or running when there is none. -/
def placed : View := { v with pending := p, fixupBranches := n }

@[simp] theorem placed_x : (v.placed p n).x = v.x := rfl
@[simp] theorem placed_flags : (v.placed p n).flags = v.flags := rfl
@[simp] theorem placed_pending : (v.placed p n).pending = p := by rw [placed]
@[simp] theorem placed_op : (v.placed p n).op = v.op := rfl
@[simp] theorem placed_scopedRegs : (v.placed p n).scopedRegs = v.scopedRegs := rfl
@[simp] theorem placed_fixupBranches : (v.placed p n).fixupBranches = n := rfl
@[simp] theorem placed_resident : (v.placed p n).resident h ↔ v.resident h := Iff.rfl
@[simp] theorem placed_writable : (v.placed p n).writable h ↔ v.writable h := Iff.rfl
@[simp] theorem placed_tainted : (v.placed p n).tainted h ↔ v.tainted h := Iff.rfl
@[simp] theorem placed_readable (r : Reg HostReg) : (v.placed p n).readable r ↔ v.readable r := Iff.rfl

/-- The view at the label `n`: code that was jumping to it runs on. -/
def landed : View := if v.pending = some n then v.placed none v.fixupBranches else v

theorem landed_of_running (running : v.pending = none) : v.landed n = v := by
  rw [landed, running]
  rfl

@[simp] theorem placed_none_landed (k : Nat) : (v.placed none k).landed n = v.placed none k := rfl

@[simp] theorem placed_landed (k : Nat) : (v.placed (some n) k).landed n = v.placed none k :=
  if_pos rfl

theorem placed_landed_of_ne (k : Nat) {m : Nat} (ne : m ≠ n) :
    (v.placed (some m) k).landed n = v.placed (some m) k :=
  if_neg fun eq => ne (Option.some.inj eq)

end placed

section stored

variable (f : XerByte) (byte : BitVec 8)

/-- A byte of XER, stored. -/
def stored : View := { v with xer := Function.update v.xer f byte }

@[simp] theorem stored_x : (v.stored f byte).x = v.x := rfl
@[simp] theorem stored_flags : (v.stored f byte).flags = v.flags := rfl
@[simp] theorem stored_pending : (v.stored f byte).pending = v.pending := rfl
@[simp] theorem stored_op : (v.stored f byte).op = v.op := rfl
@[simp] theorem stored_scopedRegs : (v.stored f byte).scopedRegs = v.scopedRegs := rfl
@[simp] theorem stored_fixupBranches : (v.stored f byte).fixupBranches = v.fixupBranches := rfl

end stored

section withCarryFlag

variable (c : CarryFlag)

def withCarryFlag : View := { v with carryFlag := c }

@[simp] theorem withCarryFlag_toHostState :
    (v.withCarryFlag c).toHostState = v.toHostState := rfl
@[simp] theorem withCarryFlag_op : (v.withCarryFlag c).op = v.op := rfl
@[simp] theorem withCarryFlag_scopedRegs : (v.withCarryFlag c).scopedRegs = v.scopedRegs := rfl
@[simp] theorem withCarryFlag_fixupBranches :
    (v.withCarryFlag c).fixupBranches = v.fixupBranches := rfl

end withCarryFlag

section spoiled

@[simp] theorem spoiled_x : (v.spoiled g value).x = Function.update v.x (.guest g) value := rfl
@[simp] theorem spoiled_flags : (v.spoiled g value).flags = v.flags := rfl
@[simp] theorem spoiled_pending : (v.spoiled g value).pending = v.pending := rfl
@[simp] theorem spoiled_op : (v.spoiled g value).op = v.op := rfl
@[simp] theorem spoiled_scopedRegs : (v.spoiled g value).scopedRegs = v.scopedRegs := rfl
@[simp] theorem spoiled_fixupBranches : (v.spoiled g value).fixupBranches = v.fixupBranches := rfl

end spoiled

end View

namespace Emit

variable {v : View}

@[simp] theorem wp_constProp {Q : ConstantPropagation → View → Prop} :
    constProp.wp View.spec Q v ↔ Q v.constProp v := Iff.rfl

@[simp] theorem wp_r (i : BitVec 5) {Q : Reg HostReg → View → Prop} (running : v.pending = none) :
    (r i).wp View.spec Q v ↔ Q (.name (.guest (.gpr i))) (v.loaded (.gpr i)) := by
  simp [r, View.spec, running]

@[simp] theorem wp_cr (i : BitVec 3) {Q : Reg HostReg → View → Prop} (running : v.pending = none) :
    (cr i).wp View.spec Q v ↔ Q (.name (.guest (.cr i))) (v.loaded (.cr i)) := by
  simp [cr, View.spec, running]

@[simp] theorem wp_bindToRegister (i : BitVec 5) (willRead : Bool) {Q : Unit → View → Prop}
    (running : v.pending = none) :
    (bindToRegister i willRead).wp View.spec Q v ↔
      ∀ value, (willRead = true → value = v.x (.guest (.gpr i))) → Q () (v.bound (.gpr i) value) := by
  simp [bindToRegister, View.spec, running]

@[simp] theorem wp_bindCRToRegister (i : BitVec 3) (willRead : Bool) {Q : Unit → View → Prop}
    (running : v.pending = none) :
    (bindCRToRegister i willRead).wp View.spec Q v ↔
      ∀ value, (willRead = true → value = v.x (.guest (.cr i))) → Q () (v.bound (.cr i) value) := by
  simp [bindCRToRegister, View.spec, running]

@[simp] theorem wp_setImmediate (i : BitVec 5) (imm : BitVec 32) {Q : Unit → View → Prop} :
    (setImmediate i imm).wp View.spec Q v ↔ Q () (v.known i imm) := Iff.rfl

@[simp] theorem wp_getScopedReg {Q : Reg HostReg → View → Prop} :
    getScopedReg.wp View.spec Q v ↔
      Q (.name (.temp v.scopedRegs)) v.taken := Iff.rfl

@[simp] theorem wp_data (i : Inst HostReg) {Q : Unit → View → Prop} (running : v.pending = none) :
    (data i).wp View.spec Q v ↔
      i.encodable Common.LogicalImm.valid = true ∧ (∀ r ∈ i.sources, v.readable r) ∧
        v.assignable i.dest ∧ Q () (v.after i) := by
  have step : { v with toHostState := v.toHostState.step (.data i) } = v.after i := by
    rw [HostState.step_of_none _ running, View.after, HostState.run]
    generalize i.dest = rd
    cases rd <;> rfl
  simp [data, inst, View.spec, HostInst.sources, HostInst.dest, HostInst.encodable, step,
    -Inst.dest, -Inst.sources, -Inst.encodable]

/-! ### Forward branches -/

/-- An instruction that only decides where to go on. -/
theorem wp_branch (i : Nat → HostInst) {Q : Nat → View → Prop} (p : Option Nat)
    (notLoad : ∀ n g, i n ≠ .ldr g) (noDest : ∀ n, (i n).dest = .zr)
    (step : v.toHostState.step (i v.fixupBranches) = { v.toHostState with pending := p }) :
    (branch i).wp View.spec Q v ↔ (i v.fixupBranches).encodable = true ∧
      (∀ r ∈ (i v.fixupBranches).sources, v.readable r) ∧
        Q v.fixupBranches (v.placed p (v.fixupBranches + 1)) := by
  have placed : ({ v with
        fixupBranches := v.fixupBranches + 1
        toHostState := v.toHostState.step (i v.fixupBranches) } : View) =
      v.placed p (v.fixupBranches + 1) := by rw [step, View.placed]
  simp only [branch, inst, Program.wp_bind, Program.wp_perform, Program.wp_pure, View.spec, noDest,
    placed, View.assignable_zr, true_and]
  exact and_iff_right (notLoad _)

theorem HostState.pending_self {s : HostState} {p : Option Nat} (h : s.pending = p) :
    { s with pending := p } = s := by rw [← h]

/-- Running code that jumps on a condition goes to the label or runs on. -/
theorem HostState.jump_if {s : HostState} (running : s.pending = none) {taken : Prop}
    [Decidable taken] {n : Nat} :
    (if taken then { s with pending := some n } else s) =
      { s with pending := if taken then some n else none } := by
  split
  · rfl
  · exact (HostState.pending_self running).symm

@[simp] theorem wp_branch_cbz (w : Nat) (rt : Reg HostReg) {Q : Nat → View → Prop}
    (running : v.pending = none) :
    (branch (.cbz w rt)).wp View.spec Q v ↔ widthOk w = true ∧ v.readable rt ∧
      Q v.fixupBranches (v.placed (if (v.get rt).setWidth w = 0#w then some v.fixupBranches
        else none) (v.fixupBranches + 1)) := by
  rw [wp_branch _ (if (v.get rt).setWidth w = 0#w then some v.fixupBranches else none) (by simp)
    (by simp [HostInst.dest])]
  · simp [HostInst.encodable, HostInst.sources]
  · rw [HostState.step_of_none _ running, HostState.run, HostState.jump_if running]

@[simp] theorem wp_branch_bcond (cond : Cond) {Q : Nat → View → Prop} (running : v.pending = none) :
    (branch (.bcond cond)).wp View.spec Q v ↔
      Q v.fixupBranches (v.placed (if cond.holds v.flags then some v.fixupBranches else none)
        (v.fixupBranches + 1)) := by
  rw [wp_branch _ (if cond.holds v.flags then some v.fixupBranches else none) (by simp)
    (by simp [HostInst.dest])]
  · simp [HostInst.encodable, HostInst.sources]
  · rw [HostState.step_of_none _ running, HostState.run, HostState.jump_if running]

@[simp] theorem wp_branch_b {Q : Nat → View → Prop} (running : v.pending = none) :
    (branch .b).wp View.spec Q v ↔
      Q v.fixupBranches (v.placed (some v.fixupBranches) (v.fixupBranches + 1)) := by
  rw [wp_branch _ (some v.fixupBranches) (by simp) (by simp [HostInst.dest])
    (by rw [HostState.step_of_none _ running, HostState.run])]
  simp [HostInst.encodable, HostInst.sources]

section
variable {target : Nat} (jumped : v.pending = some target)

include jumped

/-- A branch that is itself jumped over. -/
theorem wp_branch_skipped (i : Nat → HostInst) (notLabel : ∀ n k, i n ≠ .label k)
    (notLoad : ∀ n g, i n ≠ .ldr g) (noDest : ∀ n, (i n).dest = .zr) {Q : Nat → View → Prop} :
    (branch i).wp View.spec Q v ↔ (i v.fixupBranches).encodable = true ∧
      (∀ r ∈ (i v.fixupBranches).sources, v.readable r) ∧
        Q v.fixupBranches (v.placed (some target) (v.fixupBranches + 1)) := by
  refine wp_branch i _ notLoad noDest ?_
  rw [HostState.step_of_some _ jumped, HostState.skip, HostState.pending_self jumped]
  exact notLabel _

/-- A register read on a path that is jumped over: if it was not in its host register, its load is
jumped over as well. -/
theorem wp_r_skipped (i : BitVec 5) {Q : Reg HostReg → View → Prop}
    (post : ∀ w : View, w.pending = some target → w.fixupBranches = v.fixupBranches →
      (∀ g, w.writable g ↔ v.writable g) → w.resident (.gpr i) →
      (∀ g, v.resident g → w.resident g ∧ (w.tainted g → v.tainted g)) →
      Q (.name (.guest (.gpr i))) w) : (r i).wp View.spec Q v := by
  by_cases resident : v.resident (.gpr i)
  · exact .inl ⟨.inr resident, post _ jumped rfl (fun _ => Iff.rfl) (.inl rfl)
      fun g h => ⟨.inr h, id⟩⟩
  · refine .inr ⟨by simp [jumped], fun value => post _ jumped rfl (fun _ => Iff.rfl) (.inl rfl) ?_⟩
    rintro g h
    refine ⟨.inr h, ?_⟩
    rintro (rfl | taint)
    · exact absurd h resident
    · exact taint

@[simp] theorem wp_branch_bcond_skipped (cond : Cond) {Q : Nat → View → Prop} :
    (branch (.bcond cond)).wp View.spec Q v ↔
      Q v.fixupBranches (v.placed (some target) (v.fixupBranches + 1)) := by
  rw [wp_branch_skipped jumped _ (by simp) (by simp) (by simp [HostInst.dest])]
  simp [HostInst.encodable, HostInst.sources]

@[simp] theorem wp_branch_b_skipped {Q : Nat → View → Prop} :
    (branch .b).wp View.spec Q v ↔
      Q v.fixupBranches (v.placed (some target) (v.fixupBranches + 1)) := by
  rw [wp_branch_skipped jumped _ (by simp) (by simp) (by simp [HostInst.dest])]
  simp [HostInst.encodable, HostInst.sources]

theorem wp_data_skipped (i : Inst HostReg) {Q : Unit → View → Prop} :
    (data i).wp View.spec Q v ↔
      i.encodable Common.LogicalImm.valid = true ∧ (∀ r ∈ i.sources, v.readable r) ∧
        v.assignable i.dest ∧ Q () v := by
  have same : ({ v with toHostState := v.toHostState.step (.data i) } : View) = v := by
    rw [HostState.step_of_some _ jumped, HostState.skip]
    simp
  simp [data, inst, View.spec, HostInst.sources, HostInst.dest, HostInst.encodable, same,
    -Inst.dest, -Inst.sources, -Inst.encodable]

end

@[simp] theorem wp_data_placed (i : Inst HostReg) (target n : Nat) {Q : Unit → View → Prop} :
    (data i).wp View.spec Q (v.placed (some target) n) ↔
      i.encodable Common.LogicalImm.valid = true ∧ (∀ r ∈ i.sources, v.readable r) ∧
        v.assignable i.dest ∧ Q () (v.placed (some target) n) :=
  wp_data_skipped rfl i

@[simp] theorem wp_setJumpTarget (n : Nat) {Q : Unit → View → Prop} :
    (setJumpTarget n).wp View.spec Q v ↔ Q () (v.landed n) := by
  have step : ({ v with toHostState := v.toHostState.step (.label n) } : View) = v.landed n := by
    unfold HostState.step View.landed
    cases pending : v.pending with
    | none => rfl
    | some target =>
        by_cases eq : n = target
        · simp [HostState.skip, eq, View.placed]
        · simp [HostState.skip, eq, Ne.symm eq]
  simp [setJumpTarget, inst, View.spec, HostInst.sources, HostInst.dest, HostInst.encodable, step]

end Emit

end Phocoena.JitArm64
