import Phocoena.JitArm64.RegCache

/-! # What generated code does, without the register cache

A `View` gives every guest register one value, wherever the register cache keeps it, so an
instruction compiler can be read as a program over guest registers and temporaries. `View.spec`
says what each operation of the emitter does to a view, and `compileOp_implements` connects the
views to the machine states reached by the emitted code.
-/

namespace Phocoena.JitArm64

open A64 JitCommon

structure View extends HostState where
  constProp : ConstantPropagation
  carryFlag : CarryFlag
  op : CodeOp
  scopedRegs : Nat
  fixupBranches : Nat
  /-- Guest registers known to be in their host register. -/
  resident : GuestReg → Prop
  /-- Guest registers bound for writing: the host register is the only copy. -/
  writable : GuestReg → Prop
  /-- Guest registers whose load was jumped over: the host register may hold anything. -/
  tainted : GuestReg → Prop

namespace View

variable (v : View)

def readable : Reg HostReg → Prop
  | .name (.guest g) => v.resident g
  | _ => True

def assignable : Reg HostReg → Prop
  | .name (.guest g) => v.writable g
  | _ => True

@[simp] theorem readable_guest (g : GuestReg) :
    v.readable (.name (.guest g)) ↔ v.resident g := Iff.rfl

@[simp] theorem readable_temp (n : Nat) : v.readable (.name (.temp n)) := trivial

@[simp] theorem readable_zr : v.readable .zr := trivial

@[simp] theorem assignable_guest (g : GuestReg) :
    v.assignable (.name (.guest g)) ↔ v.writable g := Iff.rfl

@[simp] theorem assignable_temp (n : Nat) : v.assignable (.name (.temp n)) := trivial

@[simp] theorem assignable_zr : v.assignable .zr := trivial

/-- A guest register that was brought into its host register. -/
def loaded (g : GuestReg) : View := { v with resident := fun h => h = g ∨ v.resident h }

/-- A guest register whose load was jumped over. -/
def spoiled (g : GuestReg) (value : BitVec 64) : View :=
  { v with
    x := Function.update v.x (.guest g) value
    resident := fun h => h = g ∨ v.resident h
    tainted := fun h => h = g ∨ v.tainted h }

/-- A guest register bound for writing, with whatever its host register held. -/
def bound (g : GuestReg) (value : BitVec 64) : View :=
  { v with
    x := Function.update v.x (.guest g) value
    constProp := g.clear v.constProp
    resident := fun h => h = g ∨ v.resident h
    writable := fun h => h = g ∨ v.writable h
    tainted := fun h => h ≠ g ∧ v.tainted h }

/-- A guest register that became a known constant. -/
def known (i : BitVec 5) (imm : BitVec 32) : View :=
  { v with
    x := Function.update v.x (.guest (.gpr i)) (imm.setWidth 64)
    constProp := v.constProp.setGPR i imm
    resident := fun h => h ≠ .gpr i ∧ v.resident h
    writable := fun h => h ≠ .gpr i ∧ v.writable h
    tainted := fun h => h ≠ .gpr i ∧ v.tainted h }

/-- A temporary that was taken from the register cache. -/
def taken : View := { v with scopedRegs := v.scopedRegs + 1 }

/-- Other values in the registers and flags. -/
def withRegs (x : HostReg → BitVec 64) (f : NZCV) : View := { v with x := x, flags := f }

/-- A data-processing instruction. -/
def after (i : Inst HostReg) : View :=
  { v with
    x := (v.set i.dest (i.eval v.get v.flags).1).x
    flags := (i.eval v.get v.flags).2 }

/-- What the emitter may rely on. Registers are read once they are resident and written once
they are bound for writing; both are left to the instruction compilers. -/
def spec : Program.OpSpec Op Op.Ret View
  | .constProp, Q, v => Q v.constProp v
  | .carryFlag, Q, v => Q v.carryFlag v
  | .setCarryFlag c, Q, v => Q () { v with carryFlag := c }
  | .codeOp, Q, v => Q v.op v
  | .movi2r2 _ _, Q, v => ∀ second, Q second v
  | .getScopedReg, Q, v =>
      Q (.name (.temp v.scopedRegs)) v.taken
  | .fixupBranch, Q, v => Q v.fixupBranches { v with fixupBranches := v.fixupBranches + 1 }
  | .bindForRead g, Q, v =>
      ((v.pending = none ∨ v.resident g) ∧ Q (.name (.guest g)) (v.loaded g)) ∨
        v.pending ≠ none ∧ ∀ value, Q (.name (.guest g)) (v.spoiled g value)
  | .bindForWrite g willRead, Q, v =>
      v.pending = none ∧
        ∀ value, (willRead = true → value = v.x (.guest g)) → Q () (v.bound g value)
  | .setImmediate i imm, Q, v => Q () (v.known i imm)
  | .emit i, Q, v =>
      (∀ g, i ≠ .ldr g) ∧ i.encodable = true ∧ (∀ r ∈ i.sources, v.readable r) ∧
        v.assignable i.dest ∧ Q () { v with toHostState := v.toHostState.step i }

end View

/-! ## The machine behind a view -/

/-- The value of a guest register: in its host register, a known constant or in `ppcState`. -/
def JitState.valueOf (js : JitState) (m : Machine) (g : GuestReg) : BitVec 64 :=
  if js.inHostRegister g then m.x (.guest g)
  else match js.imm g with
    | some imm => imm.setWidth 64
    | none => m.load g

/-- The copies of a guest register agree, and it is somewhere. -/
structure Coherent (js : JitState) (m : Machine) (g : GuestReg) : Prop where
  copy : js.inHostRegister g = true → js.inPPCState g = true → m.load g = m.x (.guest g)
  host : ∀ imm, js.imm g = some imm → js.inHostRegister g = true →
    m.x (.guest g) = imm.setWidth 64
  memory : ∀ imm, js.imm g = some imm → js.inPPCState g = true → m.load g = imm.setWidth 64
  somewhere : js.inHostRegister g = false → js.imm g = none → js.inPPCState g = true

theorem Coherent.same_cache {js js' : JitState} {m : Machine} {g : GuestReg}
    (c : Coherent js m g) (constProp : js'.constProp = js.constProp)
    (inHost : js'.inHostRegister = js.inHostRegister) (inPPC : js'.inPPCState = js.inPPCState) :
    Coherent js' m g := by
  have imm : js'.imm g = js.imm g := by cases g <;> simp only [JitState.imm, constProp]
  constructor
  · simpa only [inHost, inPPC] using c.copy
  · simpa only [inHost, imm] using c.host
  · simpa only [inPPC, imm] using c.memory
  · simpa only [inHost, inPPC, imm] using c.somewhere

structure Shows (js : JitState) (m : Machine) (v : View) : Prop where
  constProp : v.constProp = js.constProp
  carryFlag : v.carryFlag = js.carryFlag
  op : v.op = js.op
  scopedRegs : v.scopedRegs = js.scopedRegs
  fixupBranches : v.fixupBranches = js.fixupBranches
  flags : v.flags = m.flags
  xer : v.xer = m.xer
  pending : v.pending = m.pending
  temp : ∀ n, v.x (.temp n) = m.x (.temp n)
  value : ∀ g, v.x (.guest g) = js.valueOf m g
  coherent : ∀ g, ¬ v.tainted g → Coherent js m g
  resident : ∀ g, v.resident g → js.inHostRegister g = true
  writable : ∀ g, v.writable g →
    js.inHostRegister g = true ∧ js.inPPCState g = false ∧ js.imm g = none

namespace Shows

variable {js : JitState} {m : Machine} {v : View}

theorem resident_value (s : Shows js m v) {g : GuestReg} (h : js.inHostRegister g = true) :
    v.x (.guest g) = m.x (.guest g) := by
  rw [s.value, JitState.valueOf, if_pos h]

theorem get_readable (s : Shows js m v) {r : Reg HostReg} (h : v.readable r) :
    v.get r = m.get r := by
  cases r with
  | zr => rfl
  | name r =>
      cases r with
      | guest g => exact s.resident_value (s.resident g h)
      | temp n => exact s.temp n

end Shows

/-! ## Executing the same instruction on both sides -/

section
variable {s t : HostState}

theorem HostState.step_frame (i : HostInst) {r : HostReg} (h : .name r ≠ i.dest) :
    (s.step i).x r = s.x r := by
  have set_other : ∀ (rd : Reg HostReg) (value : BitVec 64), .name r ≠ rd →
      (s.set rd value).x r = s.x r := by
    intro rd value ne
    cases rd with
    | zr => rfl
    | name q =>
        have : r ≠ q := fun eq => ne (by rw [eq])
        simp [this]
  unfold HostState.step
  cases s.pending with
  | none =>
      cases i with
      | data i => exact set_other _ _ h
      | ldrb rt f => exact set_other _ _ h
      | cbz w rt target | bcond cond target =>
          simp only [HostState.run]
          split <;> rfl
      | strb rt f | ldr g | b target | label n => rfl
  | some target =>
      cases i with
      | label n =>
          simp only [HostState.skip]
          split <;> rfl
      | _ => rfl

/-- Two hosts that agree on what an instruction reads still agree after it. -/
theorem HostState.step_agree (i : HostInst) (flags : s.flags = t.flags) (xer : s.xer = t.xer)
    (pending : s.pending = t.pending) (reads : ∀ r ∈ i.sources, s.get r = t.get r) :
    (s.step i).flags = (t.step i).flags ∧ (s.step i).xer = (t.step i).xer ∧
      (s.step i).pending = (t.step i).pending ∧
      ∀ r, s.x r = t.x r → (s.step i).x r = (t.step i).x r := by
  have set_same : ∀ (rd : Reg HostReg) (value : BitVec 64) (r : HostReg), s.x r = t.x r →
      (s.set rd value).x r = (t.set rd value).x r := by
    intro rd value r same
    cases rd with
    | zr => exact same
    | name q => by_cases eq : r = q <;> simp [eq, same]
  have set_xer : ∀ (u : HostState) (rd : Reg HostReg) (value : BitVec 64),
      (u.set rd value).xer = u.xer ∧ (u.set rd value).pending = u.pending ∧
        (u.set rd value).flags = u.flags := by
    intro u rd value
    cases rd <;> exact ⟨rfl, rfl, rfl⟩
  unfold HostState.step
  rw [← pending]
  cases s.pending with
  | none =>
      cases i with
      | data i =>
          have same : i.eval s.get s.flags = i.eval t.get t.flags := by
            rw [← flags]
            exact i.eval_congr s.flags reads
          refine ⟨congrArg Prod.snd same, ?_, ?_, ?_⟩
          · simpa only [HostState.run, set_xer] using xer
          · simpa only [HostState.run, set_xer] using pending
          · intro r agree
            simp only [HostState.run, same]
            exact set_same _ _ r agree
      | ldrb rt f =>
          simp only [HostState.run, set_xer, xer]
          exact ⟨flags, trivial, pending, set_same _ _⟩
      | strb rt f =>
          have := reads rt (by simp [HostInst.sources])
          simp only [HostState.run, xer, this]
          exact ⟨flags, trivial, pending, fun r agree => agree⟩
      | cbz w rt target =>
          have := reads rt (by simp [HostInst.sources])
          simp only [HostState.run, this]
          split
          · exact ⟨flags, xer, rfl, fun r agree => agree⟩
          · exact ⟨flags, xer, pending, fun r agree => agree⟩
      | bcond cond target =>
          simp only [HostState.run, ← flags]
          split
          · exact ⟨rfl, xer, rfl, fun r agree => agree⟩
          · exact ⟨flags, xer, pending, fun r agree => agree⟩
      | b target => exact ⟨flags, xer, rfl, fun r agree => agree⟩
      | ldr g | label n => exact ⟨flags, xer, pending, fun r agree => agree⟩
  | some target =>
      cases i with
      | label n =>
          simp only [HostState.skip]
          split
          · exact ⟨flags, xer, rfl, fun r agree => agree⟩
          · exact ⟨flags, xer, pending, fun r agree => agree⟩
      | _ => exact ⟨flags, xer, pending, fun r agree => agree⟩

end

/-! ## The emitter implements the specification -/

section
variable {js : JitState} {m : Machine} {v : View}

theorem Machine.step_data (m : Machine) (i : HostInst) (h : ∀ g, i ≠ .ldr g) :
    m.step i = { m with toHostState := m.toHostState.step i } := by
  unfold Machine.step
  split
  · exact absurd rfl (h _)
  · rfl

theorem JitState.loadCode_encodable (js : JitState) (g : GuestReg) :
    (js.loadCode g).encodable = true := by
  unfold loadCode
  cases js.imm g <;> rfl

theorem Machine.step_loadCode (m : Machine) (js : JitState) (g : GuestReg)
    (running : m.pending = none) (out : js.inHostRegister g = false) :
    m.step (js.loadCode g) =
      { m with x := Function.update m.x (.guest g) (js.valueOf m g) } := by
  unfold JitState.loadCode JitState.valueOf
  cases imm : js.imm g with
  | some value =>
      rw [Machine.step_data m _ (by simp)]
      simp [HostState.step, running, HostState.run, Inst.dest, Inst.eval,
        out, BitVec.setWidth_setWidth_of_le]
  | none => simp [Machine.step, running, out]

theorem Machine.step_loadCode_jumped (m : Machine) (js : JitState) (g : GuestReg)
    (jumped : m.pending ≠ none) : m.step (js.loadCode g) = m := by
  obtain ⟨target, pending⟩ := Option.ne_none_iff_exists'.mp jumped
  unfold JitState.loadCode
  cases imm : js.imm g with
  | some value =>
      rw [Machine.step_data m _ (by simp),
        HostState.step_of_some _ pending]
      rfl
  | none => simp only [Machine.step, pending, HostState.step, HostState.skip]

namespace JitState

/-- The cache after a guest register was brought into its host register. It notes that
`ppcState` holds the value too when that is where it was. -/
def afterLoad (js : JitState) (g : GuestReg) : JitState :=
  { js with
    inHostRegister := Function.update js.inHostRegister g true
    inPPCState := if (js.imm g).isSome then js.inPPCState
      else Function.update js.inPPCState g true }

variable (js : JitState) (g h : GuestReg)

@[simp] theorem afterLoad_imm : (js.afterLoad g).imm h = js.imm h := by cases h <;> rfl

@[simp] theorem afterLoad_inHostRegister :
    (js.afterLoad g).inHostRegister h = if h = g then true else js.inHostRegister h :=
  Function.update_apply ..

theorem afterLoad_inPPCState (ne : h ≠ g) : (js.afterLoad g).inPPCState h = js.inPPCState h := by
  unfold afterLoad
  split
  · rfl
  · exact Function.update_of_ne ne _ _

/-- The cache after a guest register was bound for writing. -/
def afterBind (js : JitState) (g : GuestReg) : JitState :=
  { js with
    inHostRegister := Function.update js.inHostRegister g true
    inPPCState := Function.update js.inPPCState g false
    constProp := g.clear js.constProp }

@[simp] theorem afterBind_inHostRegister :
    (js.afterBind g).inHostRegister h = if h = g then true else js.inHostRegister h :=
  Function.update_apply ..

@[simp] theorem afterBind_inPPCState :
    (js.afterBind g).inPPCState h = if h = g then false else js.inPPCState h :=
  Function.update_apply ..

@[simp] theorem afterBind_imm :
    (js.afterBind g).imm h = if h = g then none else js.imm h := by
  cases g with
  | cr j => cases h <;> simp [imm, afterBind, GuestReg.clear]
  | gpr j =>
      cases h with
      | cr i => rfl
      | gpr i =>
          by_cases same : i = j <;>
            simp [imm, afterBind, GuestReg.clear, ConstantPropagation.clearGPR,
              ConstantPropagation.hasGPR, ConstantPropagation.getGPR, same]

variable (i : BitVec 5) (value : BitVec 32)

@[simp] theorem setImmediate_inHostRegister : (js.setImmediate i value).inHostRegister h =
    if h = .gpr i then false else js.inHostRegister h :=
  Function.update_apply ..

@[simp] theorem setImmediate_inPPCState : (js.setImmediate i value).inPPCState h =
    if h = .gpr i then false else js.inPPCState h :=
  Function.update_apply ..

@[simp] theorem setImmediate_imm :
    (js.setImmediate i value).imm h = if h = .gpr i then some value else js.imm h := by
  cases h with
  | cr j => rfl
  | gpr j =>
      by_cases same : j = i <;>
        simp [imm, setImmediate, ConstantPropagation.setGPR, ConstantPropagation.hasGPR,
          ConstantPropagation.getGPR, same]

theorem bindForRead_out (out : js.inHostRegister g = false) :
    js.bindForRead g = (.name (.guest g), js.afterLoad g, [js.loadCode g]) := by
  rw [bindForRead, out]
  rfl

end JitState

/-- A step of the register cache that concerns `g` alone. -/
structure OnlyAt (g : GuestReg) (js js' : JitState) (m m' : Machine) (v v' : View) : Prop where
  carryFlag : v'.carryFlag = v.carryFlag ∧ js'.carryFlag = js.carryFlag
  op : v'.op = v.op ∧ js'.op = js.op
  scopedRegs : v'.scopedRegs = v.scopedRegs ∧ js'.scopedRegs = js.scopedRegs
  fixupBranches : v'.fixupBranches = v.fixupBranches ∧ js'.fixupBranches = js.fixupBranches
  flags : v'.flags = v.flags ∧ m'.flags = m.flags
  xer : v'.xer = v.xer ∧ m'.xer = m.xer
  pending : v'.pending = v.pending ∧ m'.pending = m.pending
  x : ∀ r, r ≠ .guest g → v'.x r = v.x r ∧ m'.x r = m.x r
  memory : ∀ h, m'.load h = m.load h
  cache : ∀ h, h ≠ g → js'.inHostRegister h = js.inHostRegister h ∧
    js'.inPPCState h = js.inPPCState h ∧ js'.imm h = js.imm h
  view : ∀ h, h ≠ g → (v'.tainted h ↔ v.tainted h) ∧ (v'.resident h → v.resident h) ∧
    (v'.writable h → v.writable h)

theorem Shows.of_onlyAt {g : GuestReg} {js' : JitState} {m' : Machine} {v' : View}
    (s : Shows js m v) (only : OnlyAt g js js' m m' v v')
    (constProp : v'.constProp = js'.constProp)
    (value : v'.x (.guest g) = js'.valueOf m' g)
    (coherent : ¬ v'.tainted g → Coherent js' m' g)
    (resident : v'.resident g → js'.inHostRegister g = true)
    (writable : v'.writable g →
      js'.inHostRegister g = true ∧ js'.inPPCState g = false ∧ js'.imm g = none) :
    Shows js' m' v' where
  constProp := constProp
  carryFlag := by rw [only.carryFlag.1, only.carryFlag.2, s.carryFlag]
  op := by rw [only.op.1, only.op.2, s.op]
  scopedRegs := by rw [only.scopedRegs.1, only.scopedRegs.2, s.scopedRegs]
  fixupBranches := by rw [only.fixupBranches.1, only.fixupBranches.2, s.fixupBranches]
  flags := by rw [only.flags.1, only.flags.2, s.flags]
  xer := by rw [only.xer.1, only.xer.2, s.xer]
  pending := by rw [only.pending.1, only.pending.2, s.pending]
  temp n := by
    have := only.x (.temp n) (by simp)
    rw [this.1, this.2, s.temp]
  value h := by
    by_cases eq : h = g
    · rw [eq, value]
    · obtain ⟨inHost, -, imm⟩ := only.cache h eq
      have := only.x (.guest h) (by simpa using eq)
      rw [this.1, s.value, JitState.valueOf, JitState.valueOf, inHost, imm, this.2, only.memory]
  coherent h untainted := by
    by_cases eq : h = g
    · rw [eq] at untainted ⊢
      exact coherent untainted
    · obtain ⟨inHost, inPPC, imm⟩ := only.cache h eq
      have same := (only.x (.guest h) (by simpa using eq)).2
      have old := s.coherent h (mt (only.view h eq).1.mpr untainted)
      constructor
      · simpa only [inHost, inPPC, same, only.memory] using old.copy
      · simpa only [inHost, imm, same] using old.host
      · simpa only [inPPC, imm, only.memory] using old.memory
      · simpa only [inHost, inPPC, imm] using old.somewhere
  resident h res := by
    by_cases eq : h = g
    · rw [eq] at res ⊢
      exact resident res
    · rw [(only.cache h eq).1]
      exact s.resident h ((only.view h eq).2.1 res)
  writable h wr := by
    by_cases eq : h = g
    · rw [eq] at wr ⊢
      exact writable wr
    · obtain ⟨inHost, inPPC, imm⟩ := only.cache h eq
      rw [inHost, inPPC, imm]
      exact s.writable h ((only.view h eq).2.2 wr)

namespace Shows

variable {g : GuestReg}

theorem read_in_place (s : Shows js m v) (inHost : js.inHostRegister g = true) :
    Shows js m (v.loaded g) where
  constProp := s.constProp
  carryFlag := s.carryFlag
  op := s.op
  scopedRegs := s.scopedRegs
  fixupBranches := s.fixupBranches
  flags := s.flags
  xer := s.xer
  pending := s.pending
  temp := s.temp
  value := s.value
  coherent := s.coherent
  resident h res := by
    rcases res with rfl | res
    · exact inHost
    · exact s.resident h res
  writable := s.writable

/-- Only the host register of `g` is written, so the other registers are undisturbed. -/
theorem onlyAt_of_write {js' : JitState} {v' : View} {w u : BitVec 64}
    (js_rest : js'.carryFlag = js.carryFlag ∧ js'.op = js.op ∧ js'.scopedRegs = js.scopedRegs ∧
      js'.fixupBranches = js.fixupBranches)
    (v_rest : v'.carryFlag = v.carryFlag ∧ v'.op = v.op ∧ v'.scopedRegs = v.scopedRegs ∧
      v'.fixupBranches = v.fixupBranches)
    (v_host : v'.toHostState = { v with x := Function.update v.x (.guest g) u })
    (cache : ∀ h, h ≠ g → js'.inHostRegister h = js.inHostRegister h ∧
      js'.inPPCState h = js.inPPCState h ∧ js'.imm h = js.imm h)
    (view : ∀ h, h ≠ g → (v'.tainted h ↔ v.tainted h) ∧ (v'.resident h → v.resident h) ∧
      (v'.writable h → v.writable h)) :
    OnlyAt g js js' m { m with x := Function.update m.x (.guest g) w } v v' where
  carryFlag := ⟨v_rest.1, js_rest.1⟩
  op := ⟨v_rest.2.1, js_rest.2.1⟩
  scopedRegs := ⟨v_rest.2.2.1, js_rest.2.2.1⟩
  fixupBranches := ⟨v_rest.2.2.2, js_rest.2.2.2⟩
  flags := by simp [v_host]
  xer := by simp [v_host]
  pending := by simp [v_host]
  x r ne := by simp [v_host, ne]
  memory h := by cases h <;> rfl
  cache := cache
  view := view

theorem coherent_load (old : Coherent js m g) (out : js.inHostRegister g = false) :
    Coherent (js.afterLoad g)
      { m with x := Function.update m.x (.guest g) (js.valueOf m g) } g := by
  have memory : ∀ x, ({ m with x := x } : Machine).load g = m.load g := by
    intro x
    cases g <;> rfl
  cases imm : js.imm g with
  | none =>
      have := old.somewhere out imm
      constructor <;> simp [memory, JitState.valueOf, out, imm]
  | some value =>
      have inPPC : (js.afterLoad g).inPPCState g = js.inPPCState g := by
        simp [JitState.afterLoad, imm]
      constructor
      · intro _ clean
        rw [inPPC] at clean
        simpa [memory, JitState.valueOf, out, imm] using old.memory value imm clean
      · intro imm' eq _
        simp only [JitState.afterLoad_imm, imm, Option.some.injEq] at eq
        simp [JitState.valueOf, out, imm, eq]
      · intro imm' eq clean
        rw [inPPC] at clean
        rw [memory]
        exact old.memory imm' (by simpa using eq) clean
      · simp

theorem load (s : Shows js m v) (out : js.inHostRegister g = false) (running : m.pending = none) :
    Shows (js.afterLoad g) (m.step (js.loadCode g)) (v.loaded g) := by
  rw [m.step_loadCode js g running out]
  refine s.of_onlyAt (g := g) (onlyAt_of_write (u := v.x (.guest g)) ⟨rfl, rfl, rfl, rfl⟩
    ⟨rfl, rfl, rfl, rfl⟩ (by simp [View.loaded]) ?_ ?_) s.constProp ?_ ?_ ?_ ?_
  · intro h ne
    simp [ne, JitState.afterLoad_inPPCState]
  · intro h ne
    simp [View.loaded, ne]
  · simp [View.loaded, JitState.valueOf, s.value]
  · exact fun untainted => coherent_load (s.coherent g untainted) out
  · simp
  · intro writable
    exact absurd (s.writable g writable).1 (by simp [out])

/-- A load that is jumped over leaves the host register as it was, though the cache now reads
the guest register from it. -/
theorem load_jumped (s : Shows js m v) (out : js.inHostRegister g = false)
    (jumped : m.pending ≠ none) :
    Shows (js.afterLoad g) (m.step (js.loadCode g)) (v.spoiled g (m.x (.guest g))) := by
  have same : m = { m with x := Function.update m.x (.guest g) (m.x (.guest g)) } := by simp
  rw [m.step_loadCode_jumped js g jumped]
  refine s.of_onlyAt (g := g) ?_ s.constProp ?_ ?_ ?_ ?_
  · nth_rewrite 2 [same]
    refine onlyAt_of_write ⟨rfl, rfl, rfl, rfl⟩ ⟨rfl, rfl, rfl, rfl⟩ rfl ?_ ?_
    · intro h ne
      simp [ne, JitState.afterLoad_inPPCState]
    · intro h ne
      simp [View.spoiled, ne]
  · simp [View.spoiled, JitState.valueOf]
  · simp [View.spoiled]
  · simp
  · intro writable
    exact absurd (s.writable g writable).1 (by simp [out])

/-- A register already in its host register, seen as one that may hold anything. -/
theorem spoil_in_place (s : Shows js m v) (inHost : js.inHostRegister g = true) :
    Shows js m (v.spoiled g (m.x (.guest g))) := by
  have same : m = { m with x := Function.update m.x (.guest g) (m.x (.guest g)) } := by simp
  refine s.of_onlyAt (g := g) ?_ s.constProp ?_ ?_ ?_ ?_
  · nth_rewrite 2 [same]
    refine onlyAt_of_write ⟨rfl, rfl, rfl, rfl⟩ ⟨rfl, rfl, rfl, rfl⟩ rfl ?_ ?_
    · exact fun h _ => ⟨rfl, rfl, rfl⟩
    · intro h ne
      simp [View.spoiled, ne]
  · simp [View.spoiled, JitState.valueOf, inHost]
  · simp [View.spoiled]
  · exact fun _ => inHost
  · exact s.writable g

theorem bind (s : Shows js m v) (w : BitVec 64) :
    Shows (js.afterBind g) { m with x := Function.update m.x (.guest g) w } (v.bound g w) := by
  refine s.of_onlyAt (g := g) (onlyAt_of_write (u := w) ⟨rfl, rfl, rfl, rfl⟩
    ⟨rfl, rfl, rfl, rfl⟩ rfl ?_ ?_) (congrArg g.clear s.constProp) ?_ ?_ ?_ ?_
  · intro h ne
    simp [ne]
  · intro h ne
    simp [View.bound, ne]
  · simp [View.bound, JitState.valueOf]
  · intro _
    constructor <;> simp
  · simp
  · simp

theorem known (s : Shows js m v) (i : BitVec 5) (value : BitVec 32) :
    Shows (js.setImmediate i value) m (v.known i value) := by
  have same : m = { m with x := Function.update m.x (.guest (.gpr i)) (m.x (.guest (.gpr i))) } := by
    simp
  refine s.of_onlyAt (g := .gpr i) ?_ (congrArg (·.setGPR i value) s.constProp) ?_ ?_ ?_ ?_
  · nth_rewrite 2 [same]
    refine onlyAt_of_write ⟨rfl, rfl, rfl, rfl⟩ ⟨rfl, rfl, rfl, rfl⟩ rfl ?_ ?_
    · intro h ne
      simp [ne]
    · intro h ne
      simp [View.known, ne]
  · simp [View.known, JitState.valueOf]
  · intro _
    constructor <;> simp
  · simp [View.known]
  · simp [View.known]

/-- An instruction of the compiled program. It writes temporaries and registers whose only copy
is the host register. -/
theorem emit (s : Shows js m v) {i : HostInst} (noLoad : ∀ g, i ≠ .ldr g)
    (reads : ∀ r ∈ i.sources, v.readable r) (write : v.assignable i.dest) :
    Shows js (m.step i) { v with toHostState := v.toHostState.step i } := by
  obtain ⟨flags, xer, pending, agree⟩ := HostState.step_agree i s.flags s.xer s.pending
    fun r member => s.get_readable (reads r member)
  rw [Machine.step_data m i noLoad]
  have frame : ∀ g, ¬ v.writable g →
      (m.toHostState.step i).x (.guest g) = m.x (.guest g) ∧
        (v.toHostState.step i).x (.guest g) = v.x (.guest g) := by
    intro g notWritable
    have ne : Reg.name (.guest g) ≠ i.dest := by
      intro eq
      rw [← eq] at write
      exact notWritable write
    exact ⟨HostState.step_frame i ne, HostState.step_frame i ne⟩
  have memory : ∀ h : GuestReg, ({ m with toHostState := m.toHostState.step i } : Machine).load h =
      m.load h := by
    intro h
    cases h <;> rfl
  refine { s with
    flags := flags, xer := xer, pending := pending
    temp := fun n => agree _ (s.temp n), value := ?_, coherent := ?_ }
  · intro g
    by_cases wr : v.writable g
    · have inHost := (s.writable g wr).1
      simpa [JitState.valueOf, inHost] using agree _ (s.resident_value inHost)
    · simp only [JitState.valueOf, frame g wr, memory]
      exact s.value g
  · intro g untainted
    have old := s.coherent g untainted
    by_cases wr : v.writable g
    · obtain ⟨inHost, dirty, unknown⟩ := s.writable g wr
      constructor <;> simp [inHost, dirty, unknown]
    · constructor
      · simpa only [frame g wr, memory] using old.copy
      · simpa only [frame g wr] using old.host
      · simpa only [memory] using old.memory
      · exact old.somewhere

end Shows

/-- The operations, compiled and executed, do to the machine what they do to its view. -/
theorem compileOp_implements :
    Program.Implements compileOp Machine.step (fun i => i.encodable = true) View.spec Shows := by
  intro o Q js m v s pre
  cases o with
  | constProp =>
      have post : Q v.constProp v := pre
      rw [s.constProp] at post
      exact ⟨by simp [compileOp], v, s, post⟩
  | carryFlag =>
      have post : Q v.carryFlag v := pre
      rw [s.carryFlag] at post
      exact ⟨by simp [compileOp], v, s, post⟩
  | setCarryFlag c =>
      refine ⟨by simp [compileOp], { v with carryFlag := c }, ?_, pre⟩
      exact { s with carryFlag := rfl, coherent := fun g h => (s.coherent g h).same_cache rfl rfl rfl }
  | codeOp =>
      have post : Q v.op v := pre
      rw [s.op] at post
      exact ⟨by simp [compileOp], v, s, post⟩
  | movi2r2 imm₁ imm₂ => exact ⟨by simp [compileOp], v, s, pre _⟩
  | getScopedReg =>
      have post : Q (.name (.temp v.scopedRegs)) v.taken := pre
      rw [s.scopedRegs] at post
      refine ⟨by simp [compileOp], _, ?_, post⟩
      exact { s with
        scopedRegs := congrArg (· + 1) s.scopedRegs
        coherent := fun g h => (s.coherent g h).same_cache rfl rfl rfl }
  | fixupBranch =>
      have post : Q v.fixupBranches { v with fixupBranches := v.fixupBranches + 1 } := pre
      rw [s.fixupBranches] at post
      refine ⟨by simp [compileOp], _, ?_, post⟩
      exact { s with fixupBranches := rfl, coherent := fun g h => (s.coherent g h).same_cache rfl rfl rfl }
  | bindForRead g =>
      have pending := s.pending
      cases inHost : js.inHostRegister g with
      | true =>
          have code : compileOp (.bindForRead g) js = (.name (.guest g), js, []) := by
            simp [compileOp, JitState.bindForRead, inHost]
          rw [code]
          refine ⟨by simp, ?_⟩
          rcases pre with ⟨-, post⟩ | ⟨-, post⟩
          · exact ⟨v.loaded g, s.read_in_place inHost, post⟩
          · exact ⟨_, s.spoil_in_place inHost, post _⟩
      | false =>
          have code : compileOp (.bindForRead g) js = _ := js.bindForRead_out g inHost
          rw [code]
          refine ⟨by simp [js.loadCode_encodable], ?_⟩
          rcases pre with ⟨running | resident, post⟩ | ⟨jumped, post⟩
          · exact ⟨v.loaded g, s.load inHost (by rw [← pending, running]), post⟩
          · rw [s.resident g resident] at inHost
            cases inHost
          · exact ⟨_, s.load_jumped inHost (by rwa [← pending]), post _⟩
  | bindForWrite g willRead =>
      obtain ⟨running, pre⟩ := pre
      rw [s.pending] at running
      cases inHost : js.inHostRegister g with
      | true =>
          have code : compileOp (.bindForWrite g willRead) js = ((), js.afterBind g, []) := by
            simp [compileOp, JitState.bindForWrite, inHost, JitState.afterBind]
          have bound := s.bind (g := g) (m.x (.guest g))
          rw [Function.update_eq_self] at bound
          rw [code]
          exact ⟨by simp, _, bound, pre _ fun _ => (s.resident_value inHost).symm⟩
      | false =>
          cases willRead with
          | true =>
              have code : compileOp (.bindForWrite g true) js =
                  ((), js.afterBind g, [js.loadCode g]) := by
                simp [compileOp, JitState.bindForWrite, inHost, JitState.afterBind]
              rw [code, Program.execute_cons, Program.execute_nil,
                m.step_loadCode js g running inHost]
              exact ⟨by simp [js.loadCode_encodable], _, s.bind _, pre _ fun _ => (s.value g).symm⟩
          | false =>
              have code : compileOp (.bindForWrite g false) js = ((), js.afterBind g, []) := by
                simp [compileOp, JitState.bindForWrite, inHost, JitState.afterBind]
              have bound := s.bind (g := g) (m.x (.guest g))
              rw [Function.update_eq_self] at bound
              rw [code]
              exact ⟨by simp, _, bound, pre _ (by simp)⟩
  | setImmediate i imm => exact ⟨by simp [compileOp], _, s.known i imm, pre⟩
  | emit i =>
      obtain ⟨noLoad, encodable, reads, write, post⟩ := pre
      exact ⟨by simpa [compileOp] using encodable, _, s.emit noLoad reads write, post⟩

end

end Phocoena.JitArm64
