import Phocoena.Gekko.Machine
import Mathlib.Data.List.Induction

/-! # What an integer instruction reads and writes

Every integer handler computes, from the registers and the carry that the instruction's flags say
it reads, an effect that writes just what the flags say it writes. The one thing a handler looks at
beyond its flags is the summary overflow bit, which goes into the condition register fields.
-/

namespace Phocoena.Gekko.Interpreter

/-- Sets registers one after the other. -/
def setGPRs (writes : List (BitVec 5 × BitVec 32)) (s : PowerPCState) : PowerPCState :=
  writes.foldl (fun s w => s.setGPR w.1 w.2) s

/-- What an integer instruction does to the state. A condition register field depends on the
summary overflow bit that the instruction leaves. -/
structure Effect where
  gprs : List (BitVec 5 × BitVec 32) := []
  ca : Option Bool := none
  ov : Option Bool := none
  cr : Option (BitVec 3 × (Bool → BitVec 64)) := none

namespace Effect

def applyCA (ca : Option Bool) (s : PowerPCState) : PowerPCState := ca.elim s s.setCarry

def applyOV (ov : Option Bool) (s : PowerPCState) : PowerPCState := ov.elim s s.setXEROV

def applyCR (cr : Option (BitVec 3 × (Bool → BitVec 64))) (s : PowerPCState) : PowerPCState :=
  cr.elim s fun field => { s with cr := Function.update s.cr field.1 (field.2 s.xerSO) }

def apply (e : Effect) (s : PowerPCState) : PowerPCState :=
  applyCR e.cr (applyOV e.ov (applyCA e.ca (setGPRs e.gprs s)))

end Effect

section
variable {writes : List (BitVec 5 × BitVec 32)} {r : BitVec 5} (s t : PowerPCState)

theorem setGPRs_gpr (mem : r ∈ writes.map Prod.fst) :
    (setGPRs writes s).gpr r = (setGPRs writes t).gpr r := by
  induction writes using List.reverseRecOn with
  | nil => cases mem
  | append_singleton writes w ih =>
      simp only [setGPRs, List.foldl_append, List.foldl_cons, List.foldl_nil]
      by_cases eq : r = w.1
      · rw [eq, PowerPCState.setGPR_gpr_self, PowerPCState.setGPR_gpr_self]
      · rw [PowerPCState.setGPR_gpr_of_ne _ _ _ _ eq, PowerPCState.setGPR_gpr_of_ne _ _ _ _ eq]
        apply ih
        simpa [eq] using mem

theorem setGPRs_gpr_of_notMem (mem : r ∉ writes.map Prod.fst) :
    (setGPRs writes s).gpr r = s.gpr r := by
  induction writes generalizing s with
  | nil => rfl
  | cons w writes ih =>
      rw [List.map_cons, List.mem_cons, not_or] at mem
      exact (ih (s.setGPR w.1 w.2) mem.2).trans (PowerPCState.setGPR_gpr_of_ne _ _ _ _ mem.1)

/-- Setting registers sets nothing else. -/
theorem setGPRs_eq (writes : List (BitVec 5 × BitVec 32)) :
    setGPRs writes s = { s with gpr := (setGPRs writes s).gpr } := by
  induction writes generalizing s with
  | nil => rfl
  | cons w writes ih => exact ih (s.setGPR w.1 w.2)

variable (e : Effect)

theorem Effect.apply_gpr : (e.apply s).gpr = (setGPRs e.gprs s).gpr := by
  unfold apply applyCR applyOV applyCA
  cases e.cr <;> cases e.ov <;> cases e.ca <;> rfl

theorem Effect.apply_xerCA : (e.apply s).xerCA = e.ca.getD s.xerCA := by
  unfold apply applyCR applyOV applyCA
  rw [setGPRs_eq]
  cases e.cr <;> cases e.ov <;> cases e.ca <;> rfl

theorem Effect.apply_xerOV : (e.apply s).xerOV = e.ov.getD s.xerOV := by
  unfold apply applyCR applyOV applyCA
  rw [setGPRs_eq]
  cases e.cr <;> cases e.ov <;> cases e.ca <;> rfl

theorem Effect.apply_xerSO : (e.apply s).xerSO = (s.xerSO || e.ov.getD false) := by
  unfold apply applyCR applyOV applyCA
  rw [setGPRs_eq]
  cases e.cr <;> cases e.ov <;> cases e.ca <;> simp

theorem Effect.apply_cr : (e.apply s).cr = e.cr.elim s.cr fun field =>
    Function.update s.cr field.1 (field.2 (e.apply s).xerSO) := by
  rw [apply_xerSO]
  unfold apply applyCR applyOV applyCA
  rw [setGPRs_eq]
  cases e.cr <;> cases e.ov <;> cases e.ca <;> simp

end

/-- The operands that the flags name; the others read as zero. -/
structure Inputs where
  a : BitVec 32
  b : BitVec 32
  s : BitVec 32
  ca : Bool

section
variable (inst : UGeckoInstruction) (flags : InstructionFlags)

def inputs (s : PowerPCState) : Inputs where
  a := if flags.has flInA || flags.has flInA0 && inst.ra != 0 then s.gpr inst.ra else 0
  b := if flags.has flInB then s.gpr inst.rb else 0
  s := if flags.has flInS then s.gpr inst.rs else 0
  ca := flags.has flReadCA && s.xerCA

/-- The registers written. -/
def outs : List (BitVec 5) :=
  (if flags.has flOutD then [inst.rd] else []) ++ if flags.has flOutA then [inst.ra] else []

/-- The condition register field written. -/
def crDest : Option (BitVec 3) :=
  if flags.has flSetCRn then some inst.crfd
  else if flags.has flSetCR0 || flags.has flRcBit && inst.rc then some 0
  else none

end

/-- An effect writes what the flags say. -/
structure Fits (e : Effect) (inst : UGeckoInstruction) (flags : InstructionFlags) : Prop where
  gprs : e.gprs.map Prod.fst = outs inst flags
  ca : e.ca.isSome = flags.has flSetCA
  ov : e.ov.isSome = flags.has flSetOE
  cr : e.cr.map Prod.fst = crDest inst flags

/-- A handler does what the flags say. -/
def Acts (fn : Instruction) (inst : UGeckoInstruction) (flags : InstructionFlags) : Prop :=
  ∃ effect : Inputs → Effect, (∀ s, fn inst s = (effect (inputs inst flags s)).apply s) ∧
    ∀ x, Fits (effect x) inst flags

/-! ## The shapes of the handlers -/

section
variable {inst : UGeckoInstruction} {flags : InstructionFlags} {fn : Instruction}

/-- A handler that stores a result in one register, with the carry, the overflow and the
comparison with zero that go with it. -/
theorem acts_result (r : BitVec 5) (rc : Bool) (value : Inputs → BitVec 32)
    (carry : Option (Inputs → Bool)) (overflow : Inputs → Bool)
    (reg : outs inst flags = [r]) (ca : carry.isSome = flags.has flSetCA)
    (cr : (if rc then some 0 else none) = crDest inst flags)
    (eq : ∀ s, fn inst s =
      let x := inputs inst flags s
      let s := carry.elim (s.setGPR r (value x)) fun c => (s.setGPR r (value x)).setCarry (c x)
      let s := if flags.has flSetOE then s.setXEROV (overflow x) else s
      if rc then helperUpdateCR0 s (value x) else s) : Acts fn inst flags := by
  refine ⟨fun x =>
    { gprs := [(r, value x)]
      ca := carry.map fun c => c x
      ov := if flags.has flSetOE then some (overflow x) else none
      cr := if rc then some (0, fun so => cr0Value so (value x)) else none }, ?_, ?_⟩
  · intro s
    rw [eq s]
    cases carry <;> cases rc <;> cases flags.has flSetOE <;> rfl
  · intro x
    refine ⟨reg.symm, ?_, ?_, ?_⟩
    · rw [← ca, Option.isSome_map]
    · cases flags.has flSetOE <;> rfl
    · rw [← cr]
      cases rc <;> rfl

/-- A comparison. -/
theorem acts_compare (lt gt : Inputs → Bool) (reg : outs inst flags = [])
    (ca : flags.has flSetCA = false) (ov : flags.has flSetOE = false)
    (cr : crDest inst flags = some inst.crfd)
    (eq : ∀ s, fn inst s =
      helperIntCompare s inst (lt (inputs inst flags s)) (gt (inputs inst flags s))) :
    Acts fn inst flags := by
  let field (x : Inputs) : BitVec 4 := if lt x then crLT else if gt x then crGT else crEQ
  refine ⟨fun x =>
    { cr := some (inst.crfd, fun so => ppcToInternal (if so then field x ||| crSO else field x)) },
    ?_, ?_⟩
  · intro s
    exact eq s
  · intro x
    exact ⟨reg.symm, ca.symm, ov.symm, cr.symm⟩

/-! ## Immediate forms -/

theorem inputs_a0 (s : PowerPCState) : (inputs inst (flOutD ||| flInA0) s).a =
    if inst.ra ≠ 0 then s.gpr inst.ra else 0 := by
  simp [inputs, InstructionFlags.has, flOutD, flInA0, flInA]

theorem addi_acts : Acts addi inst (flOutD ||| flInA0) := by
  refine acts_result inst.rd false (fun x => x.a + inst.simm) none (fun _ => false) rfl rfl rfl ?_
  intro s
  simp only [addi, inputs_a0]
  split
  · rfl
  · simp only [BitVec.ofNat_eq_ofNat, BitVec.zero_add]
    rfl

theorem addis_acts : Acts addis inst (flOutD ||| flInA0) := by
  refine acts_result inst.rd false (fun x => x.a + inst.simm <<< 16) none (fun _ => false)
    rfl rfl rfl ?_
  intro s
  simp only [addis, inputs_a0]
  split
  · rfl
  · simp only [BitVec.ofNat_eq_ofNat, BitVec.zero_add]
    rfl

theorem addic_acts : Acts addic inst (flOutD ||| flInA ||| flSetCA) :=
  acts_result inst.rd false (fun x => x.a + inst.simm) (some fun x => helperCarry x.a inst.simm)
    (fun _ => false) rfl rfl rfl fun _ => rfl

theorem addicRc_acts : Acts addicRc inst (flOutD ||| flInA ||| flSetCA ||| flSetCR0) := by
  refine acts_result inst.rd true (fun x => x.a + inst.simm)
    (some fun x => helperCarry x.a inst.simm) (fun _ => false) rfl rfl rfl ?_
  intro s
  simp only [addicRc, addic, PowerPCState.setCarry_gpr, PowerPCState.setGPR_gpr_self]
  rfl

theorem mulli_acts : Acts mulli inst (flOutD ||| flInA) :=
  acts_result inst.rd false (fun x => x.a * inst.simm) none (fun _ => false) rfl rfl rfl
    fun _ => rfl

theorem subfic_acts : Acts subfic inst (flOutD ||| flInA ||| flSetCA) :=
  acts_result inst.rd false (fun x => inst.simm - x.a)
    (some fun x => x.a == 0 || helperCarry (0 - x.a) inst.simm) (fun _ => false) rfl rfl rfl
    fun _ => rfl

theorem cmpi_acts : Acts cmpi inst (flInA ||| flSetCRn) :=
  acts_compare (fun x => x.a.slt inst.simm) (fun x => inst.simm.slt x.a) rfl rfl rfl rfl
    fun _ => rfl

theorem cmpli_acts : Acts cmpli inst (flInA ||| flSetCRn) :=
  acts_compare (fun x => x.a.ult inst.uimm32) (fun x => inst.uimm32.ult x.a) rfl rfl rfl rfl
    fun _ => rfl

/-- A logical operation with an immediate. -/
theorem logicalImmediate_acts (op : BitVec 32 → BitVec 32)
    (eq : ∀ s, fn inst s = s.setGPR inst.ra (op (s.gpr inst.rs))) :
    Acts fn inst (flOutA ||| flInS) :=
  acts_result inst.ra false (fun x => op x.s) none (fun _ => false) rfl rfl rfl eq

theorem andImmediate_acts (op : BitVec 32 → BitVec 32)
    (eq : ∀ s, fn inst s = helperUpdateCR0 (s.setGPR inst.ra (op (s.gpr inst.rs)))
      ((s.setGPR inst.ra (op (s.gpr inst.rs))).gpr inst.ra)) :
    Acts fn inst (flOutA ||| flInS ||| flSetCR0) := by
  refine acts_result inst.ra true (fun x => op x.s) none (fun _ => false) rfl rfl rfl ?_
  intro s
  rw [eq s, PowerPCState.setGPR_gpr_self]
  rfl

/-! ## Rotates, logical operations, shifts and extensions -/

/-- A result in `rA` that the instruction compares with zero if its `Rc` bit is set. -/
theorem resultA_acts (value : Inputs → BitVec 32) (reg : outs inst flags = [inst.ra])
    (ca : flags.has flSetCA = false) (ov : flags.has flSetOE = false)
    (cr : (if inst.rc then some 0 else none) = crDest inst flags)
    (eq : ∀ s, fn inst s = updateRc inst (s.setGPR inst.ra (value (inputs inst flags s)))
      ((s.setGPR inst.ra (value (inputs inst flags s))).gpr inst.ra)) : Acts fn inst flags := by
  refine acts_result inst.ra inst.rc value none (fun _ => false) reg ca.symm cr ?_
  intro s
  rw [eq s, PowerPCState.setGPR_gpr_self, ov]
  rfl

theorem rlwimix_acts : Acts rlwimix inst (flOutA ||| flInA ||| flInS ||| flRcBit) :=
  resultA_acts (fun x => (x.a &&& ~~~makeRotationMask inst.mb inst.me) |||
    (x.s.rotateLeft inst.sh.toNat &&& makeRotationMask inst.mb inst.me)) rfl rfl rfl rfl
    fun _ => rfl

theorem rlwinmx_acts : Acts rlwinmx inst (flOutA ||| flInS ||| flRcBit) :=
  resultA_acts (fun x => x.s.rotateLeft inst.sh.toNat &&& makeRotationMask inst.mb inst.me)
    rfl rfl rfl rfl fun _ => rfl

theorem rlwnmx_acts : Acts rlwnmx inst (flOutA ||| flInSB ||| flRcBit) :=
  resultA_acts (fun x => x.s.rotateLeft (x.b &&& 0x1F).toNat &&&
    makeRotationMask inst.mb inst.me) rfl rfl rfl rfl fun _ => rfl

theorem logical_acts (op : BitVec 32 → BitVec 32 → BitVec 32) (eq : fn = logical op) :
    Acts fn inst (flOutA ||| flInSB ||| flRcBit) := by
  subst eq
  exact resultA_acts (fun x => op x.s x.b) rfl rfl rfl rfl fun _ => rfl

theorem unary_acts (op : BitVec 32 → BitVec 32) (eq : fn = unary op) :
    Acts fn inst (flOutA ||| flInS ||| flRcBit) := by
  subst eq
  exact resultA_acts (fun x => op x.s) rfl rfl rfl rfl fun _ => rfl

theorem cmp_acts : Acts cmp inst (flInAB ||| flSetCRn) :=
  acts_compare (fun x => x.a.slt x.b) (fun x => x.b.slt x.a) rfl rfl rfl rfl fun _ => rfl

theorem cmpl_acts : Acts cmpl inst (flInAB ||| flSetCRn) :=
  acts_compare (fun x => x.a.ult x.b) (fun x => x.b.ult x.a) rfl rfl rfl rfl fun _ => rfl

theorem srawix_acts : Acts srawix inst (flOutA ||| flInS ||| flSetCA ||| flRcBit) := by
  refine acts_result inst.ra inst.rc (fun x => x.s.sshiftRight inst.sh.toNat)
    (some fun x => shiftCarry x.s inst.sh.toNat) (fun _ => false) rfl rfl rfl ?_
  intro s
  simp only [srawix, PowerPCState.setCarry_gpr, PowerPCState.setGPR_gpr_self]
  rfl

theorem srawx_acts : Acts srawx inst (flOutA ||| flInSB ||| flSetCA ||| flRcBit) := by
  refine acts_result inst.ra inst.rc
    (fun x => if x.b &&& 0x20 ≠ 0 then if x.s &&& 0x80000000 ≠ 0 then 0xFFFFFFFF else 0
      else x.s.sshiftRight (x.b &&& 0x1f).toNat)
    (some fun x => if x.b &&& 0x20 ≠ 0 then x.s &&& 0x80000000 != 0
      else shiftCarry x.s (x.b &&& 0x1f).toNat) (fun _ => false) rfl rfl rfl ?_
  intro s
  have inB : (inputs inst (flOutA ||| flInSB ||| flSetCA ||| flRcBit) s).b = s.gpr inst.rb := rfl
  have inS : (inputs inst (flOutA ||| flInSB ||| flSetCA ||| flRcBit) s).s = s.gpr inst.rs := rfl
  simp only [inB, inS, srawx, Option.elim_some]
  by_cases large : s.gpr inst.rb &&& 0x20 ≠ 0
  · by_cases neg : s.gpr inst.rs &&& 0x80000000 ≠ 0
    · simp only [if_pos large, if_pos neg, bne_iff_ne.mpr neg, PowerPCState.setCarry_gpr,
        PowerPCState.setGPR_gpr_self]
      rfl
    · have zero : (s.gpr inst.rs &&& 0x80000000 != 0) = false := by simpa using neg
      simp only [if_pos large, if_neg neg, zero, PowerPCState.setCarry_gpr,
        PowerPCState.setGPR_gpr_self]
      rfl
  · simp only [if_neg large, PowerPCState.setCarry_gpr, PowerPCState.setGPR_gpr_self]
    rfl

/-! ## Arithmetic -/

/-- The flags of a row, or of the row for the same instruction with `OE` set. -/
def MaybeOE (base flags : InstructionFlags) : Prop := flags = base ∨ flags = base ||| flSetOE

/-- A result in `rD`, with the carry, OV and CR0 as the instruction asks for them. -/
theorem arithmetic_acts (value : Inputs → BitVec 32) (carry : Option (Inputs → Bool))
    (overflow : Inputs → Bool) (oe : inst.oe = flags.has flSetOE)
    (reg : outs inst flags = [inst.rd]) (ca : carry.isSome = flags.has flSetCA)
    (cr : (if inst.rc then some 0 else none) = crDest inst flags)
    (eq : ∀ s, fn inst s =
      let x := inputs inst flags s
      let r := s.setGPR inst.rd (value x)
      updateRc inst (updateOE inst (carry.elim r fun c => r.setCarry (c x)) (overflow x))
        (value x)) : Acts fn inst flags := by
  refine acts_result inst.rd inst.rc value carry overflow reg ca cr ?_
  intro s
  rw [eq s, ← oe]
  rfl

section
variable (oe : inst.oe = flags.has flSetOE)
include oe

theorem addx_acts (row : MaybeOE (flOutD ||| flInAB ||| flRcBit) flags) :
    Acts addx inst flags := by
  have acts := @arithmetic_acts inst flags addx (fun x => x.a + x.b) none
    (fun x => hasAddOverflowed x.a x.b (x.a + x.b)) oe
  rcases row with rfl | rfl
  · exact acts rfl rfl rfl fun _ => rfl
  · exact acts rfl rfl rfl fun _ => rfl

theorem subfx_acts (row : MaybeOE (flOutD ||| flInAB ||| flRcBit) flags) :
    Acts subfx inst flags := by
  have acts := @arithmetic_acts inst flags subfx (fun x => ~~~x.a + x.b + 1) none
    (fun x => hasAddOverflowed (~~~x.a) x.b (~~~x.a + x.b + 1)) oe
  rcases row with rfl | rfl
  · exact acts rfl rfl rfl fun _ => rfl
  · exact acts rfl rfl rfl fun _ => rfl

theorem divwx_acts (row : MaybeOE (flOutD ||| flInAB ||| flRcBit) flags) :
    Acts divwx inst flags := by
  have acts := @arithmetic_acts inst flags divwx (fun x => divwQuotient x.a x.b) none
    (fun x => x.b = 0 ∨ (x.a = 0x80000000 ∧ x.b = 0xFFFFFFFF)) oe
  simp only [divwx, updateOE_gpr, PowerPCState.setGPR_gpr_self] at acts
  rcases row with rfl | rfl
  · exact acts rfl rfl rfl fun _ => rfl
  · exact acts rfl rfl rfl fun _ => rfl

theorem divwux_acts (row : MaybeOE (flOutD ||| flInAB ||| flRcBit) flags) :
    Acts divwux inst flags := by
  have acts := @arithmetic_acts inst flags divwux (fun x => divwuQuotient x.a x.b) none
    (fun x => x.b = 0) oe
  simp only [divwux, updateOE_gpr, PowerPCState.setGPR_gpr_self] at acts
  rcases row with rfl | rfl
  · exact acts rfl rfl rfl fun _ => rfl
  · exact acts rfl rfl rfl fun _ => rfl

theorem mullwx_acts (row : MaybeOE (flOutD ||| flInAB ||| flRcBit) flags) :
    Acts mullwx inst flags := by
  let product (x : Inputs) := x.a.signExtend 64 * x.b.signExtend 64
  have acts := @arithmetic_acts inst flags mullwx (fun x => (product x).setWidth 32) none
    (fun x => (product x).slt (-0x80000000#64) || (0x7FFFFFFF#64).slt (product x)) oe
  simp only [mullwx, updateOE_gpr, PowerPCState.setGPR_gpr_self] at acts
  rcases row with rfl | rfl
  · exact acts rfl rfl rfl fun _ => rfl
  · exact acts rfl rfl rfl fun _ => rfl

theorem negx_acts (row : MaybeOE (flOutD ||| flInA ||| flRcBit) flags) :
    Acts negx inst flags := by
  have acts := @arithmetic_acts inst flags negx (fun x => ~~~x.a + 1) none
    (fun x => x.a == 0x80000000) oe
  simp only [negx, updateOE_gpr, PowerPCState.setGPR_gpr_self] at acts
  rcases row with rfl | rfl
  · exact acts rfl rfl rfl fun _ => rfl
  · exact acts rfl rfl rfl fun _ => rfl

/-- The carry, as the handlers add it. -/
def Inputs.carry (x : Inputs) : BitVec 32 := (BitVec.ofBool x.ca).setWidth 32

/-- The handlers that end in `carrying`. -/
theorem carrying_acts (x y result : Inputs → BitVec 32) (carry : Inputs → Bool)
    (reg : outs inst flags = [inst.rd]) (ca : true = flags.has flSetCA)
    (cr : (if inst.rc then some 0 else none) = crDest inst flags)
    (eq : ∀ s, fn inst s = carrying inst s (x (inputs inst flags s)) (y (inputs inst flags s))
      (result (inputs inst flags s)) (carry (inputs inst flags s))) : Acts fn inst flags :=
  arithmetic_acts result (some carry) (fun i => hasAddOverflowed (x i) (y i) (result i)) oe reg ca
    cr eq

theorem addcx_acts (row : MaybeOE (flOutD ||| flInAB ||| flSetCA ||| flRcBit) flags) :
    Acts addcx inst flags := by
  have acts := @carrying_acts inst flags addcx oe (fun x => x.a) (fun x => x.b)
    (fun x => x.a + x.b) (fun x => helperCarry x.a x.b)
  rcases row with rfl | rfl
  · exact acts rfl rfl rfl fun _ => rfl
  · exact acts rfl rfl rfl fun _ => rfl

theorem addex_acts
    (row : MaybeOE (flOutD ||| flInAB ||| flReadCA ||| flSetCA ||| flRcBit) flags) :
    Acts addex inst flags := by
  have acts := @carrying_acts inst flags addex oe (fun x => x.a) (fun x => x.b)
    (fun x => x.a + x.b + x.carry)
    (fun x => helperCarry x.a x.b || (x.carry != 0 && helperCarry (x.a + x.b) x.carry))
  rcases row with rfl | rfl
  · exact acts rfl rfl rfl fun _ => rfl
  · exact acts rfl rfl rfl fun _ => rfl

theorem addmex_acts
    (row : MaybeOE (flOutD ||| flInA ||| flReadCA ||| flSetCA ||| flRcBit) flags) :
    Acts addmex inst flags := by
  have acts := @carrying_acts inst flags addmex oe (fun x => x.a) (fun _ => 0xFFFFFFFF#32)
    (fun x => x.a + 0xFFFFFFFF#32 + x.carry) (fun x => helperCarry x.a (x.carry - 1))
  rcases row with rfl | rfl
  · exact acts rfl rfl rfl fun _ => rfl
  · exact acts rfl rfl rfl fun _ => rfl

theorem addzex_acts
    (row : MaybeOE (flOutD ||| flInA ||| flReadCA ||| flSetCA ||| flRcBit) flags) :
    Acts addzex inst flags := by
  have acts := @carrying_acts inst flags addzex oe (fun x => x.a) (fun _ => 0)
    (fun x => x.a + x.carry) (fun x => helperCarry x.a x.carry)
  rcases row with rfl | rfl
  · exact acts rfl rfl rfl fun _ => rfl
  · exact acts rfl rfl rfl fun _ => rfl

theorem subfcx_acts (row : MaybeOE (flOutD ||| flInAB ||| flSetCA ||| flRcBit) flags) :
    Acts subfcx inst flags := by
  have acts := @carrying_acts inst flags subfcx oe (fun x => ~~~x.a) (fun x => x.b)
    (fun x => ~~~x.a + x.b + 1) (fun x => ~~~x.a == 0xFFFFFFFF || helperCarry x.b (~~~x.a + 1))
  rcases row with rfl | rfl
  · exact acts rfl rfl rfl fun _ => rfl
  · exact acts rfl rfl rfl fun _ => rfl

theorem subfex_acts
    (row : MaybeOE (flOutD ||| flInAB ||| flReadCA ||| flSetCA ||| flRcBit) flags) :
    Acts subfex inst flags := by
  have acts := @carrying_acts inst flags subfex oe (fun x => ~~~x.a) (fun x => x.b)
    (fun x => ~~~x.a + x.b + x.carry)
    (fun x => helperCarry (~~~x.a) x.b || helperCarry (~~~x.a + x.b) x.carry)
  rcases row with rfl | rfl
  · exact acts rfl rfl rfl fun _ => rfl
  · exact acts rfl rfl rfl fun _ => rfl

theorem subfmex_acts
    (row : MaybeOE (flOutD ||| flInA ||| flReadCA ||| flSetCA ||| flRcBit) flags) :
    Acts subfmex inst flags := by
  have acts := @carrying_acts inst flags subfmex oe (fun x => ~~~x.a) (fun _ => 0xFFFFFFFF#32)
    (fun x => ~~~x.a + 0xFFFFFFFF#32 + x.carry) (fun x => helperCarry (~~~x.a) (x.carry - 1))
  rcases row with rfl | rfl
  · exact acts rfl rfl rfl fun _ => rfl
  · exact acts rfl rfl rfl fun _ => rfl

theorem subfzex_acts
    (row : MaybeOE (flOutD ||| flInA ||| flReadCA ||| flSetCA ||| flRcBit) flags) :
    Acts subfzex inst flags := by
  have acts := @carrying_acts inst flags subfzex oe (fun x => ~~~x.a) (fun _ => 0)
    (fun x => ~~~x.a + x.carry) (fun x => helperCarry (~~~x.a) x.carry)
  rcases row with rfl | rfl
  · exact acts rfl rfl rfl fun _ => rfl
  · exact acts rfl rfl rfl fun _ => rfl

end

theorem mulhwx_acts : Acts mulhwx inst (flOutD ||| flInAB ||| flRcBit) :=
  acts_result inst.rd inst.rc
    (fun x => ((x.a.signExtend 64 * x.b.signExtend 64).sshiftRight 32).setWidth 32) none
    (fun _ => false) rfl rfl rfl fun _ => rfl

theorem mulhwux_acts : Acts mulhwux inst (flOutD ||| flInAB ||| flRcBit) :=
  acts_result inst.rd inst.rc
    (fun x => ((x.a.setWidth 64 * x.b.setWidth 64) >>> 32).setWidth 32) none
    (fun _ => false) rfl rfl rfl fun _ => rfl

end

/-! ## String loads -/

section
variable {memory : Memory} {rd : BitVec 5}

theorem stringRegister_succ (k : Nat) (inside : (k + 1) % 4 ≠ 0) :
    stringRegister rd (k + 1) = stringRegister rd k := by
  have word : (k + 1) / 4 = k / 4 := by omega
  rw [stringRegister, stringRegister, word]

/-- Byte `k` of a string load, put into its register. -/
def loadByte (rd : BitVec 5) (k : Nat) (temp : BitVec 8) (s : PowerPCState) : PowerPCState :=
  let reg := stringRegister rd k
  let s := if k % 4 = 0 then s.setGPR reg 0 else s
  s.setGPR reg (s.gpr reg ||| temp.setWidth 32 <<< (24 - 8 * (k % 4)))

theorem loadString_succ (left k : Nat) (ea : BitVec 32) (s : PowerPCState) :
    loadString memory rd (left + 1) k ea s = (memory.readU8 ea).bind fun temp =>
      loadString memory rd left (k + 1) (ea + 1) (loadByte rd k temp s) := rfl

theorem loadByte_eq (k : Nat) (temp : BitVec 8) (s : PowerPCState) :
    loadByte rd k temp s = { s with gpr := (loadByte rd k temp s).gpr } := by
  dsimp only [loadByte]
  split
  · rfl
  · rfl

theorem loadByte_gpr_of_ne {k : Nat} {temp : BitVec 8} {s : PowerPCState} {r : BitVec 5}
    (ne : r ≠ stringRegister rd k) : (loadByte rd k temp s).gpr r = s.gpr r := by
  dsimp only [loadByte]
  rw [PowerPCState.setGPR_gpr_of_ne _ _ _ _ ne]
  split
  · rw [PowerPCState.setGPR_gpr_of_ne _ _ _ _ ne]
  · rfl

/-- The first byte of a register makes its old value irrelevant. -/
theorem loadByte_gpr_congr {k : Nat} {temp : BitVec 8} {s t : PowerPCState}
    (agree : k % 4 ≠ 0 → s.gpr (stringRegister rd k) = t.gpr (stringRegister rd k)) :
    (loadByte rd k temp s).gpr (stringRegister rd k) =
      (loadByte rd k temp t).gpr (stringRegister rd k) := by
  dsimp only [loadByte]
  rw [PowerPCState.setGPR_gpr_self, PowerPCState.setGPR_gpr_self]
  by_cases first : k % 4 = 0
  · rw [if_pos first, if_pos first, PowerPCState.setGPR_gpr_self, PowerPCState.setGPR_gpr_self]
  · rw [if_neg first, if_neg first, agree first]

theorem loadString_frame {left k : Nat} {ea : BitVec 32} {s s' : PowerPCState}
    (run : loadString memory rd left k ea s = some s') : s' = { s with gpr := s'.gpr } ∧
      ∀ r, (∀ j, k ≤ j → j < k + left → r ≠ stringRegister rd j) → s'.gpr r = s.gpr r := by
  induction left generalizing k ea s with
  | zero =>
      cases run
      exact ⟨rfl, fun _ _ => rfl⟩
  | succ left ih =>
      rw [loadString_succ] at run
      obtain ⟨temp, -, run⟩ := Option.bind_eq_some_iff.mp run
      obtain ⟨others, kept⟩ := ih run
      rw [loadByte_eq] at others
      refine ⟨others, ?_⟩
      intro r outside
      have now := outside k (Nat.le_refl k) (by omega)
      exact (kept r fun j low high => outside j (by omega) (by omega)).trans
        (loadByte_gpr_of_ne now)

/-- From a state that agrees in the register under way, a string load sets the same registers to
the same values. -/
theorem loadString_again {left k : Nat} {ea : BitVec 32} {s s' : PowerPCState}
    (run : loadString memory rd left k ea s = some s') (t : PowerPCState)
    (agree : k % 4 ≠ 0 → s.gpr (stringRegister rd k) = t.gpr (stringRegister rd k)) :
    ∃ t', loadString memory rd left k ea t = some t' ∧
      ∀ j, k ≤ j → j < k + left →
        s'.gpr (stringRegister rd j) = t'.gpr (stringRegister rd j) := by
  induction left generalizing k ea s t with
  | zero => exact ⟨t, rfl, fun j low high => by omega⟩
  | succ left ih =>
      rw [loadString_succ] at run
      obtain ⟨temp, byte, run⟩ := Option.bind_eq_some_iff.mp run
      have same := @loadByte_gpr_congr rd k temp s t agree
      obtain ⟨t', run', later⟩ := ih run (loadByte rd k temp t) fun inside => by
        rw [stringRegister_succ k inside]
        exact same
      refine ⟨t', by rw [loadString_succ, byte, Option.bind_some, run'], ?_⟩
      intro j low high
      by_cases again : ∃ i, k + 1 ≤ i ∧ i < k + 1 + left ∧
          stringRegister rd j = stringRegister rd i
      · obtain ⟨i, low', high', eq⟩ := again
        rw [eq]
        exact later i low' high'
      · have first : j = k := by
          by_contra ne
          exact again ⟨j, by omega, by omega, rfl⟩
        have untouched : ∀ i, k + 1 ≤ i → i < k + 1 + left →
            stringRegister rd j ≠ stringRegister rd i :=
          fun i low' high' eq => again ⟨i, low', high', eq⟩
        rw [(loadString_frame run).2 _ untouched, (loadString_frame run').2 _ untouched, first]
        exact same

end

end Phocoena.Gekko.Interpreter
