import Phocoena.JitArm64.EmitSpec
import Phocoena.JitArm64.RegCache

/-! # Outcomes

What the code of one instruction may do to the guest: write a register, record the result in
CR0, keep or clobber the carry. And how an outcome of the views is one of the machine.
-/

namespace Phocoena.JitArm64

open A64 Emit

/-- `d` received `value`, which CR0 records if `rc` is set, and no other guest register
changed. -/
structure Wrote (d : BitVec 5) (value : BitVec 32) (rc : Bool) (v v' : View) : Prop where
  gpr : v'.x (.guest (.gpr d)) = value.setWidth 64
  cr0 : rc = true → v'.x (.guest (.cr 0#3)) = value.signExtend 64
  others : ∀ g, g ≠ .gpr d → (rc = true → g ≠ .cr 0#3) → v'.x (.guest g) = v.x (.guest g)
  pending : v'.pending = v.pending
  op : v'.op = v.op
  tainted : ∀ g, v'.tainted g → g ≠ .gpr d ∧ v.tainted g

/-- The guest carry is where it was; the host flags are too if `flagsKept`. -/
structure CarryKept (flagsKept : Prop) (v v' : View) : Prop where
  xer : v'.xer = v.xer
  carryFlag : v'.carryFlag = v.carryFlag
  flags : flagsKept → v'.flags = v.flags

section
variable {v v₀ : View} {Q : Unit → View → Prop}

theorem Wrote.of_bound {v' : View} {d : BitVec 5} {q : BitVec 32} {rc : Bool} {value : BitVec 64}
    (h : Wrote d q rc (v.bound (.gpr d) value) v') : Wrote d q rc v v' where
  gpr := h.gpr
  cr0 := h.cr0
  others g ne notCR := by
    rw [h.others g ne notCR]
    simp [ne]
  pending := h.pending
  op := h.op
  tainted g taint := ⟨(h.tainted g taint).1, (h.tainted g taint).2.2⟩

theorem CarryKept.of_bound {v' : View} {g : GuestReg} {flagsKept : Prop} {value : BitVec 64}
    (h : CarryKept flagsKept (v.bound g value) v') : CarryKept flagsKept v v' :=
  ⟨h.xer, h.carryFlag, h.flags⟩

/-- CR0 after `ComputeRC0`, as the view of a register that is not a CR field itself. -/
theorem wp_computeRC0 {r : HostReg} {x : BitVec 32} (running : v.pending = none)
    (readable : v.readable (.name r)) (ne : r ≠ .guest (.cr 0#3))
    (low : (v.x r).setWidth 32 = x)
    (post : ∀ v', (∀ g, v'.x (.guest g) = if g = .cr 0#3 then x.signExtend 64
      else v.x (.guest g)) → v'.pending = v.pending → v'.op = v.op →
      (∀ g, v'.tainted g → v.tainted g) → CarryKept True v v' → Q () v') :
    (computeRC0 (.name r)).wp View.spec Q v := by
  simp [computeRC0, running]
  intro value
  refine ⟨?_, post _ ?_ rfl rfl (fun g h => h.2) ⟨rfl, rfl, fun _ => rfl⟩⟩
  · cases r with
    | temp n => trivial
    | guest g => exact .inr (.inr readable)
  · intro g
    simp [Inst.eval, ne, low, Function.update_apply]

theorem wp_rc {d : BitVec 5} {x : BitVec 32} (rc : Bool) {flagsKept : Prop}
    (running : v.pending = none) (wrote : Wrote d x false v₀ v) (kept : CarryKept flagsKept v₀ v)
    (post : ∀ v', Wrote d x rc v₀ v' → CarryKept flagsKept v₀ v' → Q () v') :
    (if rc then (do computeRC0 (← r d)) else pure () : Emit Unit).wp View.spec Q v := by
  cases rc with
  | false => exact post v wrote kept
  | true =>
      simp only [if_true, Program.wp_bind, wp_r d running]
      refine wp_computeRC0 running (by simp) (by simp) (x := x) ?_ ?_
      · simp [wrote.gpr]
      · intro v' guest pending op tainted carry
        refine post v' ?_ ?_
        · constructor
          · simp [guest, wrote.gpr]
          · simp [guest]
          · intro g notD notCR
            have := notCR rfl
            simp [guest, this, wrote.others g notD]
          · exact pending.trans wrote.pending
          · exact op.trans wrote.op
          · exact fun g h => wrote.tainted g (tainted g h)
        · exact ⟨carry.xer.trans kept.xer, carry.carryFlag.trans kept.carryFlag,
            fun h => (carry.flags trivial).trans (kept.flags h)⟩

/-- A result known at compile time: nothing is emitted but for CR0. -/
theorem wp_setImmediate_rc (d : BitVec 5) (imm : BitVec 32) (rc : Bool)
    (running : v.pending = none)
    (post : ∀ v', Wrote d imm rc v v' → CarryKept True v v' → Q () v') :
    (do setImmediate d imm
        if rc then computeRC0Imm imm : Emit Unit).wp View.spec Q v := by
  cases rc with
  | false =>
      refine post (v.known d imm) ?_ ⟨rfl, rfl, fun _ => rfl⟩
      constructor <;> simp +contextual
  | true =>
      simp [computeRC0Imm, running]
      intro value
      refine post _ ?_ ⟨rfl, rfl, fun _ => rfl⟩
      constructor <;> simp +contextual [Inst.eval]

end

/-! ## From the machine to views and back -/

section
variable {js : JitState} {m : Machine} {g : GuestReg} {value : BitVec 64}

/-- Compiles a program and executes its code. -/
def Emit.run (p : Emit Unit) (js : JitState) (m : Machine) : JitState × Machine :=
  ((p.compile compileOp js).2.1, Program.execute Machine.step (p.compile compileOp js).2.2 m)

/-- The register cache holds `value` for `g`, and every copy it believes in is right. -/
structure Represents (js : JitState) (m : Machine) (g : GuestReg) (value : BitVec 64) : Prop where
  coherent : Coherent js m g
  valueOf : js.valueOf m g = value

/-- A guest register is in its host register, known or in `ppcState`. -/
def JitState.Present (js : JitState) (g : GuestReg) : Prop :=
  js.inHostRegister g = false → js.imm g = none → js.inPPCState g = true

theorem Represents.of_known (rep : Represents js m g value) {imm : BitVec 32}
    (known : js.imm g = some imm) : value = imm.setWidth 64 := by
  rw [← rep.valueOf, JitState.valueOf]
  split
  · exact rep.coherent.host imm known ‹_›
  · rw [known]

/-- The state of the recompiler and the machine, as a view. -/
def JitState.view (js : JitState) (m : Machine) : View where
  x
    | .guest g => js.valueOf m g
    | .temp n => m.x (.temp n)
  flags := m.flags
  xer := m.xer
  pending := m.pending
  constProp := js.constProp
  carryFlag := js.carryFlag
  op := js.op
  scopedRegs := js.scopedRegs
  fixupBranches := js.fixupBranches
  resident g := js.inHostRegister g = true
  writable _ := False
  tainted g := ¬ Coherent js m g

theorem shows_view (js : JitState) (m : Machine) : Shows js m (js.view m) where
  constProp := rfl
  carryFlag := rfl
  op := rfl
  scopedRegs := rfl
  fixupBranches := rfl
  flags := rfl
  xer := rfl
  pending := rfl
  temp _ := rfl
  value _ := rfl
  coherent _ untainted := not_not.mp untainted
  resident _ inHost := inHost
  writable _ none := none.elim

theorem Shows.represents {v : View} (s : Shows js m v) (untainted : ¬ v.tainted g) :
    Represents js m g (v.x (.guest g)) :=
  ⟨s.coherent g untainted, (s.value g).symm⟩

/-- What holds of the views holds of the code: the assembler accepts it, and the machine it
leaves looks like a view with the postcondition. -/
theorem Emit.run_sound {p : Emit Unit} {post : View → Prop}
    (pre : p.wp View.spec (fun _ v => post v) (js.view m)) :
    (∀ i ∈ (p.compile compileOp js).2.2, i.encodable = true) ∧
      ∃ v, Shows (p.run js m).1 (p.run js m).2 v ∧ post v :=
  Program.wp_sound compileOp_implements p (fun _ v => post v) js m _ (shows_view js m) pre

end

end Phocoena.JitArm64
