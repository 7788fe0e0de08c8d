import Phocoena.Gekko.Effects
import Phocoena.Gekko.PPCTables
import Mathlib.Data.List.Forall2

/-! # The two sets of tables agree

The analyzer's tables name a type and flags for each opcode, the interpreter's a handler. Where the
type is that of an integer instruction, a load or a branch, the interpreter has a handler, and the
handler does what the flags say.
-/

namespace Phocoena.Gekko

section Lookup
variable {α β γ : Type*} [BEq α] [LawfulBEq α]

/-- In two tables that go together row by row, the same keys are found in rows that go together. -/
theorem lookup_forall₂ {R : α × β → α × γ → Prop} {l : List (α × β)} {m : List (α × γ)}
    (rows : List.Forall₂ (fun x y => x.1 = y.1 ∧ R x y) l m) {k : α} {v : β}
    (found : l.lookup k = some v) : ∃ w, m.lookup k = some w ∧ R (k, v) (k, w) := by
  induction rows with
  | nil => cases found
  | @cons x y l m row _ ih =>
      obtain ⟨k', v'⟩ := x
      obtain ⟨key, w⟩ := y
      obtain ⟨rfl, holds⟩ := row
      cases eq : k == k' with
      | true =>
          rw [List.lookup_cons, eq] at found
          cases found
          cases eq_of_beq eq
          exact ⟨w, by rw [List.lookup_cons, eq], holds⟩
      | false =>
          rw [List.lookup_cons, eq] at found
          obtain ⟨w', found', holds'⟩ := ih found
          exact ⟨w', by rw [List.lookup_cons, eq, found'], holds'⟩

theorem mem_of_lookup {l : List (α × β)} {k : α} {v : β}
    (found : l.lookup k = some v) : (k, v) ∈ l := by
  obtain ⟨_, _, eq, -⟩ := List.lookup_eq_some_iff.mp found
  simp [eq]

end Lookup

/-- The types of the instructions that the interpreter's model runs. -/
def isModelled (type : OpType) : Bool := type == .integer || type == .load || type == .branch

/-- Where a modelled instruction's row stands. -/
theorem getOpInfo_found {inst : UGeckoInstruction}
    (modelled : isModelled (getOpInfo inst).type = true) :
    (inst.opcd = 31 ∧ table31Ops.lookup inst.subop10 = some (getOpInfo inst)) ∨
    (inst.opcd = 19 ∧ table19.lookup inst.subop10 = some (getOpInfo inst)) ∨
    (inst.opcd ≠ 31 ∧ inst.opcd ≠ 19 ∧ primaryOps.lookup inst.opcd = some (getOpInfo inst)) := by
  have absent : ∀ {w : Nat} {table : List (GekkoOPTemplate w)} (op : BitVec w),
      (∀ row ∈ table, isModelled row.2.type = false) →
        ∀ info, lookUp table op = some info → isModelled info.type = false := by
    intro w table op all info eq
    obtain ⟨_, _, eq, -⟩ := List.lookup_eq_some_iff.mp eq
    exact all (op, info) (by simp [eq])
  have nothing : ∀ {found : Option GekkoOPInfo},
      (∀ info, found = some info → isModelled info.type = false) →
        isModelled (found.getD unknownOpInfo).type = false := by
    intro found all
    cases found with
    | none => rfl
    | some info => exact all info rfl
  have either : ∀ {x y : Option GekkoOPInfo},
      (∀ info, x = some info → isModelled info.type = false) →
        (∀ info, y = some info → isModelled info.type = false) →
          ∀ info, x.or y = some info → isModelled info.type = false := by
    intro x y hx hy info eq
    cases x with
    | none => exact hy info (by simpa using eq)
    | some z => exact hx info (by simpa using eq)
  have present : ∀ {found : Option GekkoOPInfo},
      isModelled (found.getD unknownOpInfo).type = true →
        found = some (found.getD unknownOpInfo) := by
    intro found modelled
    cases found with
    | none => cases modelled
    | some info => rfl
  unfold getOpInfo at modelled ⊢
  dsimp only at modelled ⊢
  by_cases op4 : inst.opcd = 4
  · rw [if_pos op4, nothing (either (absent _ (by decide +kernel))
      (either (absent _ (by decide +kernel)) (absent _ (by decide +kernel))))] at modelled
    cases modelled
  · rw [if_neg op4] at modelled ⊢
    by_cases op19 : inst.opcd = 19
    · rw [if_pos op19] at modelled ⊢
      exact .inr (.inl ⟨op19, present modelled⟩)
    · rw [if_neg op19] at modelled ⊢
      by_cases op31 : inst.opcd = 31
      · rw [if_pos op31] at modelled ⊢
        exact .inl ⟨op31, present modelled⟩
      · rw [if_neg op31] at modelled ⊢
        by_cases op59 : inst.opcd = 59
        · rw [if_pos op59, nothing (absent _ (by decide +kernel))] at modelled
          cases modelled
        · rw [if_neg op59] at modelled ⊢
          by_cases op63 : inst.opcd = 63
          · rw [if_pos op63, nothing (either (absent _ (by decide +kernel))
              (absent _ (by decide +kernel)))] at modelled
            cases modelled
          · rw [if_neg op63] at modelled ⊢
            exact .inr (.inr ⟨op31, op19, present modelled⟩)

/-- A property of the rows of modelled instructions is one of all modelled instructions. -/
theorem getOpInfo_of_modelled {P : GekkoOPInfo → Prop}
    (rows : (∀ row ∈ table31Ops, isModelled row.2.type = true → P row.2) ∧
      (∀ row ∈ table19, isModelled row.2.type = true → P row.2) ∧
      ∀ row ∈ primaryOps, isModelled row.2.type = true → P row.2)
    {inst : UGeckoInstruction} (modelled : isModelled (getOpInfo inst).type = true) :
    P (getOpInfo inst) := by
  obtain ⟨rows31, rows19, rows⟩ := rows
  rcases getOpInfo_found modelled with ⟨_, row⟩ | ⟨_, row⟩ | ⟨_, _, row⟩
  · exact rows31 _ (mem_of_lookup row) modelled
  · exact rows19 _ (mem_of_lookup row) modelled
  · exact rows _ (mem_of_lookup row) modelled

/-- The flags that only some types of modelled instructions have. -/
theorem getOpInfo_flags {inst : UGeckoInstruction}
    (modelled : isModelled (getOpInfo inst).type = true) :
    let info := getOpInfo inst
    (info.type ≠ .integer → info.flags.has flSetCA = false ∧ info.flags.has flSetOE = false) ∧
      info.flags.has flSetAllCR = false ∧ info.flags.has flSetCR1 = false ∧
      info.flags.has flRcBitF = false ∧ info.flags.has flInC = false :=
  getOpInfo_of_modelled (P := fun info =>
    (info.type ≠ .integer → info.flags.has flSetCA = false ∧ info.flags.has flSetOE = false) ∧
      info.flags.has flSetAllCR = false ∧ info.flags.has flSetCR1 = false ∧
      info.flags.has flRcBitF = false ∧ info.flags.has flInC = false) (by decide +kernel) modelled

/-- The instructions that load or store several registers are not modelled. -/
theorem opcd_of_modelled {inst : UGeckoInstruction}
    (modelled : isModelled (getOpInfo inst).type = true) : inst.opcd ≠ 46 ∧ inst.opcd ≠ 47 := by
  constructor
  · intro op
    have info : getOpInfo inst = ⟨"lmw", .system, flInA0 ||| flLoadStore⟩ := by
      unfold getOpInfo
      rw [op]
      rfl
    rw [info] at modelled
    cases modelled
  · intro op
    have info : getOpInfo inst = ⟨"stmw", .system, flInA0 ||| flLoadStore⟩ := by
      unfold getOpInfo
      rw [op]
      rfl
    rw [info] at modelled
    cases modelled

/-- The loads that are not like the others. -/
theorem type_of_load31 {inst : UGeckoInstruction} (op : inst.opcd = 31)
    (sub : inst.subop10 = 20 ∨ inst.subop10 = 533 ∨ inst.subop10 = 597) :
    (getOpInfo inst).type = .load := by
  unfold getOpInfo
  rcases sub with sub | sub | sub
  · rw [op, sub]
    rfl
  · rw [op, sub]
    rfl
  · rw [op, sub]
    rfl

end Phocoena.Gekko

namespace Phocoena.Gekko.Interpreter

/-! ## Integer instructions -/

theorem integer_rows : List.Forall₂ (fun row op => row.1 = op.1 ∧
    ∀ inst, Acts op.2 inst row.2) Gekko.primaryTable primaryTable := by
  refine .cons ⟨rfl, fun _ => mulli_acts⟩ ?_
  refine .cons ⟨rfl, fun _ => subfic_acts⟩ ?_
  refine .cons ⟨rfl, fun _ => cmpli_acts⟩ ?_
  refine .cons ⟨rfl, fun _ => cmpi_acts⟩ ?_
  refine .cons ⟨rfl, fun _ => addic_acts⟩ ?_
  refine .cons ⟨rfl, fun _ => addicRc_acts⟩ ?_
  refine .cons ⟨rfl, fun _ => addi_acts⟩ ?_
  refine .cons ⟨rfl, fun _ => addis_acts⟩ ?_
  refine .cons ⟨rfl, fun _ => rlwimix_acts⟩ ?_
  refine .cons ⟨rfl, fun _ => rlwinmx_acts⟩ ?_
  refine .cons ⟨rfl, fun _ => rlwnmx_acts⟩ ?_
  refine .cons ⟨rfl, fun inst => logicalImmediate_acts (fun s => s ||| inst.uimm32) fun _ => rfl⟩ ?_
  refine .cons ⟨rfl, fun inst =>
    logicalImmediate_acts (fun s => s ||| inst.uimm32 <<< 16) fun _ => rfl⟩ ?_
  refine .cons ⟨rfl, fun inst => logicalImmediate_acts (fun s => s ^^^ inst.uimm32) fun _ => rfl⟩ ?_
  refine .cons ⟨rfl, fun inst =>
    logicalImmediate_acts (fun s => s ^^^ inst.uimm32 <<< 16) fun _ => rfl⟩ ?_
  refine .cons ⟨rfl, fun inst => andImmediate_acts (fun s => s &&& inst.uimm32) fun _ => rfl⟩ ?_
  refine .cons ⟨rfl, fun inst =>
    andImmediate_acts (fun s => s &&& inst.uimm32 <<< 16) fun _ => rfl⟩ ?_
  exact .nil

/-- The highest bit of an opcode of table 31 is the `OE` bit. -/
theorem integer_rows31 : List.Forall₂ (fun row op => row.1 = op.1 ∧
    ∀ inst : UGeckoInstruction, inst.oe = row.1.getLsbD 9 → Acts op.2 inst row.2)
    Gekko.table31 table31 := by
  refine .cons ⟨rfl, fun _ oe => addx_acts oe (.inl rfl)⟩ ?_
  refine .cons ⟨rfl, fun _ oe => addx_acts oe (.inr rfl)⟩ ?_
  refine .cons ⟨rfl, fun _ oe => addcx_acts oe (.inl rfl)⟩ ?_
  refine .cons ⟨rfl, fun _ oe => addcx_acts oe (.inr rfl)⟩ ?_
  refine .cons ⟨rfl, fun _ oe => addex_acts oe (.inl rfl)⟩ ?_
  refine .cons ⟨rfl, fun _ oe => addex_acts oe (.inr rfl)⟩ ?_
  refine .cons ⟨rfl, fun _ oe => addmex_acts oe (.inl rfl)⟩ ?_
  refine .cons ⟨rfl, fun _ oe => addmex_acts oe (.inr rfl)⟩ ?_
  refine .cons ⟨rfl, fun _ oe => addzex_acts oe (.inl rfl)⟩ ?_
  refine .cons ⟨rfl, fun _ oe => addzex_acts oe (.inr rfl)⟩ ?_
  refine .cons ⟨rfl, fun _ oe => divwx_acts oe (.inl rfl)⟩ ?_
  refine .cons ⟨rfl, fun _ oe => divwx_acts oe (.inr rfl)⟩ ?_
  refine .cons ⟨rfl, fun _ oe => divwux_acts oe (.inl rfl)⟩ ?_
  refine .cons ⟨rfl, fun _ oe => divwux_acts oe (.inr rfl)⟩ ?_
  refine .cons ⟨rfl, fun _ _ => mulhwx_acts⟩ ?_
  refine .cons ⟨rfl, fun _ _ => mulhwux_acts⟩ ?_
  refine .cons ⟨rfl, fun _ oe => mullwx_acts oe (.inl rfl)⟩ ?_
  refine .cons ⟨rfl, fun _ oe => mullwx_acts oe (.inr rfl)⟩ ?_
  refine .cons ⟨rfl, fun _ oe => negx_acts oe (.inl rfl)⟩ ?_
  refine .cons ⟨rfl, fun _ oe => negx_acts oe (.inr rfl)⟩ ?_
  refine .cons ⟨rfl, fun _ oe => subfx_acts oe (.inl rfl)⟩ ?_
  refine .cons ⟨rfl, fun _ oe => subfx_acts oe (.inr rfl)⟩ ?_
  refine .cons ⟨rfl, fun _ oe => subfcx_acts oe (.inl rfl)⟩ ?_
  refine .cons ⟨rfl, fun _ oe => subfcx_acts oe (.inr rfl)⟩ ?_
  refine .cons ⟨rfl, fun _ oe => subfex_acts oe (.inl rfl)⟩ ?_
  refine .cons ⟨rfl, fun _ oe => subfex_acts oe (.inr rfl)⟩ ?_
  refine .cons ⟨rfl, fun _ oe => subfmex_acts oe (.inl rfl)⟩ ?_
  refine .cons ⟨rfl, fun _ oe => subfmex_acts oe (.inr rfl)⟩ ?_
  refine .cons ⟨rfl, fun _ oe => subfzex_acts oe (.inl rfl)⟩ ?_
  refine .cons ⟨rfl, fun _ oe => subfzex_acts oe (.inr rfl)⟩ ?_
  refine .cons ⟨rfl, fun _ _ => logical_acts (fun s b => s &&& b) rfl⟩ ?_
  refine .cons ⟨rfl, fun _ _ => logical_acts (fun s b => s &&& ~~~b) rfl⟩ ?_
  refine .cons ⟨rfl, fun _ _ => logical_acts (fun s b => s ||| b) rfl⟩ ?_
  refine .cons ⟨rfl, fun _ _ => logical_acts (fun s b => ~~~(s ||| b)) rfl⟩ ?_
  refine .cons ⟨rfl, fun _ _ => logical_acts (fun s b => s ^^^ b) rfl⟩ ?_
  refine .cons ⟨rfl, fun _ _ => logical_acts (fun s b => s ||| ~~~b) rfl⟩ ?_
  refine .cons ⟨rfl, fun _ _ => logical_acts (fun s b => ~~~(s &&& b)) rfl⟩ ?_
  refine .cons ⟨rfl, fun _ _ => logical_acts (fun s b => ~~~(s ^^^ b)) rfl⟩ ?_
  refine .cons ⟨rfl, fun _ _ => cmp_acts⟩ ?_
  refine .cons ⟨rfl, fun _ _ => cmpl_acts⟩ ?_
  refine .cons ⟨rfl, fun _ _ => unary_acts (fun s => s.clz) rfl⟩ ?_
  refine .cons ⟨rfl, fun _ _ => unary_acts (fun s => (s.setWidth 16).signExtend 32) rfl⟩ ?_
  refine .cons ⟨rfl, fun _ _ => unary_acts (fun s => (s.setWidth 8).signExtend 32) rfl⟩ ?_
  refine .cons ⟨rfl, fun _ _ => logical_acts (fun s amount =>
    if amount &&& 0x20 ≠ 0 then 0 else s >>> (amount &&& 0x1f).toNat) rfl⟩ ?_
  refine .cons ⟨rfl, fun _ _ => srawx_acts⟩ ?_
  refine .cons ⟨rfl, fun _ _ => srawix_acts⟩ ?_
  refine .cons ⟨rfl, fun _ _ => logical_acts (fun s amount =>
    if amount &&& 0x20 ≠ 0 then 0 else s <<< (amount &&& 0x1f).toNat) rfl⟩ ?_
  exact .nil

theorem integer_acts {inst : UGeckoInstruction} (type : (getOpInfo inst).type = .integer) :
    ∃ fn, getInterpreterOp inst = some fn ∧ Acts fn inst (getOpInfo inst).flags := by
  rcases getOpInfo_found (by rw [type]; rfl) with ⟨op, row⟩ | ⟨_, row⟩ | ⟨op, _, row⟩
  · have flags : ∀ row ∈ table31Ops, row.2.type = .integer →
        Gekko.table31.lookup row.1 = some row.2.flags := by decide +kernel
    obtain ⟨fn, found, acts⟩ :=
      lookup_forall₂ integer_rows31 (flags _ (mem_of_lookup row) type)
    refine ⟨fn, ?_, acts inst inst.oe_eq_subop10⟩
    rw [getInterpreterOp, if_pos op, found]
  · have none : ∀ row ∈ table19, row.2.type ≠ .integer := by decide +kernel
    exact absurd type (none _ (mem_of_lookup row))
  · have flags : ∀ row ∈ primaryOps, row.2.type = .integer →
        Gekko.primaryTable.lookup row.1 = some row.2.flags := by decide +kernel
    obtain ⟨fn, found, acts⟩ := lookup_forall₂ integer_rows (flags _ (mem_of_lookup row) type)
    refine ⟨fn, ?_, acts inst⟩
    rw [getInterpreterOp, if_neg op, found]

/-! ## Loads -/

/-- The `OpType::Load` rows of `s_primary_table`. -/
def loadFlags : List (BitVec 6 × InstructionFlags) :=
  [(32, flOutD ||| flInA0 ||| flLoadStore),
   (33, flOutD ||| flOutA ||| flInA ||| flLoadStore),
   (34, flOutD ||| flInA0 ||| flLoadStore),
   (35, flOutD ||| flOutA ||| flInA ||| flLoadStore),
   (40, flOutD ||| flInA0 ||| flLoadStore),
   (41, flOutD ||| flOutA ||| flInA ||| flLoadStore),
   (42, flOutD ||| flInA0 ||| flLoadStore),
   (43, flOutD ||| flOutA ||| flInA ||| flLoadStore)]

/-- The `OpType::Load` rows of `s_table31`. -/
def loadFlags31 : List (BitVec 10 × InstructionFlags) :=
  [(23, flOutD ||| flInA0B ||| flLoadStore),
   (55, flOutD ||| flOutA ||| flInAB ||| flLoadStore),
   (279, flOutD ||| flInA0B ||| flLoadStore),
   (311, flOutD ||| flOutA ||| flInAB ||| flLoadStore),
   (343, flOutD ||| flInA0B ||| flLoadStore),
   (375, flOutD ||| flOutA ||| flInAB ||| flLoadStore),
   (87, flOutD ||| flInA0B ||| flLoadStore),
   (119, flOutD ||| flOutA ||| flInAB ||| flLoadStore),
   (534, flOutD ||| flInA0B ||| flLoadStore),
   (790, flOutD ||| flInA0B ||| flLoadStore),
   (20, flOutD ||| flInA0B ||| flSetCR0 ||| flLoadStore),
   (533, flInA0B ||| flOutD ||| flLoadStore),
   (597, flInA0 ||| flOutD ||| flLoadStore)]

/-- The registers a load writes, and the reservation that `lwarx` makes. -/
structure LoadEffect where
  gprs : List (BitVec 5 × BitVec 32)
  reserve : Option (BitVec 32) := none

def LoadEffect.apply (e : LoadEffect) (m : Machine) : Machine :=
  { m with
    ppc := setGPRs e.gprs m.ppc
    reserve := m.reserve || e.reserve.isSome
    reserveAddress := e.reserve.getD m.reserveAddress }.advance

/-- A load does what the flags say. -/
def LoadActs (fn : Handler) (inst : UGeckoInstruction) (flags : InstructionFlags)
    (reserves : Bool) : Prop :=
  ∃ effect : Memory → Inputs → Option LoadEffect,
    (∀ m, fn inst m = (effect m.memory (inputs inst flags m.ppc)).map fun e => e.apply m) ∧
    ∀ memory x e, effect memory x = some e →
      e.gprs.map Prod.fst = outs inst flags ∧ e.reserve.isSome = reserves

section
variable {inst : UGeckoInstruction} {flags : InstructionFlags}

theorem loadAt_acts {ea : UGeckoInstruction → PowerPCState → BitVec 32}
    {read : Memory → BitVec 32 → Option (BitVec 32)} (address : Inputs → BitVec 32)
    (reg : outs inst flags = [inst.rd])
    (eq : ∀ s, ea inst s = address (inputs inst flags s)) :
    LoadActs (loadAt ea read) inst flags false := by
  refine ⟨fun memory x => (read memory (address x)).map fun temp =>
    { gprs := [(inst.rd, temp)] }, ?_, ?_⟩
  · intro m
    rw [loadAt, eq, Option.map_map]
    congr 1
    funext temp
    simp [LoadEffect.apply, Machine.setGPR, setGPRs]
  · intro memory x e eq
    obtain ⟨temp, -, rfl⟩ := Option.map_eq_some_iff.mp eq
    exact ⟨reg.symm, rfl⟩

theorem loadUpdate_acts {ea : UGeckoInstruction → PowerPCState → BitVec 32}
    {read : Memory → BitVec 32 → Option (BitVec 32)} (address : Inputs → BitVec 32)
    (reg : outs inst flags = [inst.rd, inst.ra])
    (eq : ∀ s, ea inst s = address (inputs inst flags s)) :
    LoadActs (loadUpdate ea read) inst flags false := by
  refine ⟨fun memory x => (read memory (address x)).map fun temp =>
    { gprs := [(inst.rd, temp), (inst.ra, address x)] }, ?_, ?_⟩
  · intro m
    dsimp only [loadUpdate]
    rw [eq, Option.map_map]
    congr 1
    funext temp
    simp [LoadEffect.apply, Machine.setGPR, setGPRs]
  · intro memory x e eq
    obtain ⟨temp, -, rfl⟩ := Option.map_eq_some_iff.mp eq
    exact ⟨reg.symm, rfl⟩

theorem helperGetEA_eq (s : PowerPCState) (a : flags.has flInA = false)
    (a0 : flags.has flInA0 = true) :
    helperGetEA inst s = (inputs inst flags s).a + inst.simm := by
  simp only [helperGetEA, inputs, a, a0, Bool.false_or, Bool.true_and, bne_iff_ne]
  split
  · rfl
  · rw [BitVec.ofNat_eq_ofNat, BitVec.zero_add]

theorem helperGetEAX_eq (s : PowerPCState) (a : flags.has flInA = false)
    (a0 : flags.has flInA0 = true) (b : flags.has flInB = true) :
    helperGetEAX inst s = (inputs inst flags s).a + (inputs inst flags s).b := by
  simp only [helperGetEAX, inputs, a, a0, b, Bool.false_or, Bool.true_and, bne_iff_ne, if_true]
  split
  · rfl
  · rw [BitVec.ofNat_eq_ofNat, BitVec.zero_add]

variable {read : Memory → BitVec 32 → Option (BitVec 32)}

theorem loadAt_immediate :
    LoadActs (loadAt helperGetEA read) inst (flOutD ||| flInA0 ||| flLoadStore) false :=
  loadAt_acts (fun x => x.a + inst.simm) rfl fun s => helperGetEA_eq s rfl rfl

theorem loadAt_indexed :
    LoadActs (loadAt helperGetEAX read) inst (flOutD ||| flInA0B ||| flLoadStore) false :=
  loadAt_acts (fun x => x.a + x.b) rfl fun s => helperGetEAX_eq s rfl rfl rfl

theorem loadUpdate_immediate :
    LoadActs (loadUpdate helperGetEAU read) inst (flOutD ||| flOutA ||| flInA ||| flLoadStore)
      false :=
  loadUpdate_acts (fun x => x.a + inst.simm) rfl fun _ => rfl

theorem loadUpdate_indexed :
    LoadActs (loadUpdate helperGetEAUX read) inst (flOutD ||| flOutA ||| flInAB ||| flLoadStore)
      false :=
  loadUpdate_acts (fun x => x.a + x.b) rfl fun _ => rfl

theorem lwarx_acts :
    LoadActs lwarx inst (flOutD ||| flInA0B ||| flSetCR0 ||| flLoadStore) true := by
  let address (x : Inputs) : BitVec 32 := x.a + x.b
  refine ⟨fun memory x => if address x &&& 3 ≠ 0 then none
    else (memory.readU32 (address x)).map fun temp =>
      { gprs := [(inst.rd, temp)], reserve := some (address x) }, ?_, ?_⟩
  · intro m
    have ea := @helperGetEAX_eq inst (flOutD ||| flInA0B ||| flSetCR0 ||| flLoadStore) m.ppc
      rfl rfl rfl
    dsimp only [lwarx]
    rw [ea]
    split
    · rfl
    · rw [Option.map_map]
      congr 1
      funext temp
      simp [LoadEffect.apply, Machine.setGPR, setGPRs, address]
  · intro memory x e eq
    dsimp only at eq
    split at eq
    · cases eq
    · obtain ⟨temp, -, rfl⟩ := Option.map_eq_some_iff.mp eq
      exact ⟨rfl, rfl⟩

end

theorem load_rows : List.Forall₂ (fun row op => row.1 = op.1 ∧
    ∀ inst, LoadActs op.2 inst row.2 false) loadFlags loadPrimaryTable := by
  refine .cons ⟨rfl, fun _ => loadAt_immediate⟩ ?_
  refine .cons ⟨rfl, fun _ => loadUpdate_immediate⟩ ?_
  refine .cons ⟨rfl, fun _ => loadAt_immediate⟩ ?_
  refine .cons ⟨rfl, fun _ => loadUpdate_immediate⟩ ?_
  refine .cons ⟨rfl, fun _ => loadAt_immediate⟩ ?_
  refine .cons ⟨rfl, fun _ => loadUpdate_immediate⟩ ?_
  refine .cons ⟨rfl, fun _ => loadAt_immediate⟩ ?_
  exact .cons ⟨rfl, fun _ => loadUpdate_immediate⟩ .nil

/-- The loads of table 31; the string loads are left for themselves. -/
def LoadCase (key : BitVec 10) (fn : Handler) (inst : UGeckoInstruction)
    (flags : InstructionFlags) : Prop :=
  (key ≠ 533 ∧ key ≠ 597 ∧ LoadActs fn inst flags (key == 20)) ∨
    (key = 533 ∧ fn = lswx) ∨ key = 597 ∧ fn = lswi

theorem load_rows31 : List.Forall₂ (fun row op => row.1 = op.1 ∧
    ∀ inst, LoadCase row.1 op.2 inst row.2) loadFlags31 loadTable31 := by
  refine .cons ⟨rfl, fun _ => .inl ⟨by decide, by decide, loadAt_indexed⟩⟩ ?_
  refine .cons ⟨rfl, fun _ => .inl ⟨by decide, by decide, loadUpdate_indexed⟩⟩ ?_
  refine .cons ⟨rfl, fun _ => .inl ⟨by decide, by decide, loadAt_indexed⟩⟩ ?_
  refine .cons ⟨rfl, fun _ => .inl ⟨by decide, by decide, loadUpdate_indexed⟩⟩ ?_
  refine .cons ⟨rfl, fun _ => .inl ⟨by decide, by decide, loadAt_indexed⟩⟩ ?_
  refine .cons ⟨rfl, fun _ => .inl ⟨by decide, by decide, loadUpdate_indexed⟩⟩ ?_
  refine .cons ⟨rfl, fun _ => .inl ⟨by decide, by decide, loadAt_indexed⟩⟩ ?_
  refine .cons ⟨rfl, fun _ => .inl ⟨by decide, by decide, loadUpdate_indexed⟩⟩ ?_
  refine .cons ⟨rfl, fun _ => .inl ⟨by decide, by decide, loadAt_indexed⟩⟩ ?_
  refine .cons ⟨rfl, fun _ => .inl ⟨by decide, by decide, loadAt_indexed⟩⟩ ?_
  refine .cons ⟨rfl, fun _ => .inl ⟨by decide, by decide, lwarx_acts⟩⟩ ?_
  refine .cons ⟨rfl, fun _ => .inr (.inl ⟨rfl, rfl⟩)⟩ ?_
  exact .cons ⟨rfl, fun _ => .inr (.inr ⟨rfl, rfl⟩)⟩ .nil

theorem load_runs {inst : UGeckoInstruction} (type : (getOpInfo inst).type = .load)
    (other : Handler) : ∃ fn, runInterpreterOp other inst = fn inst ∧
      ((inst.opcd ≠ 31 ∧ LoadActs fn inst (getOpInfo inst).flags false) ∨
        inst.opcd = 31 ∧ LoadCase inst.subop10 fn inst (getOpInfo inst).flags) := by
  rcases getOpInfo_found (by rw [type]; rfl) with ⟨op, row⟩ | ⟨_, row⟩ | ⟨op, _, row⟩
  · have flags : ∀ row ∈ table31Ops, row.2.type = .load →
        loadFlags31.lookup row.1 = some row.2.flags ∧ (table31.lookup row.1).isNone = true := by
      decide +kernel
    obtain ⟨found, integer⟩ := flags _ (mem_of_lookup row) type
    obtain ⟨fn, found, acts⟩ := lookup_forall₂ load_rows31 found
    refine ⟨fn, ?_, .inr ⟨op, acts inst⟩⟩
    have load : getLoadOp inst = some fn := by rw [getLoadOp, if_pos op, found]
    have none : getInterpreterOp inst = none := by
      rw [getInterpreterOp, if_pos op, Option.isNone_iff_eq_none.mp integer]
    simp only [runInterpreterOp, none, load]
  · have none : ∀ row ∈ table19, row.2.type ≠ .load := by decide +kernel
    exact absurd type (none _ (mem_of_lookup row))
  · have flags : ∀ row ∈ primaryOps, row.2.type = .load →
        loadFlags.lookup row.1 = some row.2.flags ∧ (primaryTable.lookup row.1).isNone = true := by
      decide +kernel
    obtain ⟨found, integer⟩ := flags _ (mem_of_lookup row) type
    obtain ⟨fn, found, acts⟩ := lookup_forall₂ load_rows found
    refine ⟨fn, ?_, .inl ⟨op, acts inst⟩⟩
    have load : getLoadOp inst = some fn := by rw [getLoadOp, if_neg op, found]
    have none : getInterpreterOp inst = none := by
      rw [getInterpreterOp, if_neg op, Option.isNone_iff_eq_none.mp integer]
    simp only [runInterpreterOp, none, load]

theorem integer_runs {inst : UGeckoInstruction} (type : (getOpInfo inst).type = .integer)
    (other : Handler) : ∃ fn, runInterpreterOp other inst = runInteger fn inst ∧
      Acts fn inst (getOpInfo inst).flags := by
  obtain ⟨fn, found, acts⟩ := integer_acts type
  exact ⟨fn, by simp only [runInterpreterOp, found], acts⟩

/-! ## Branches -/

/-- The branches, with the flags that say whether they look at the condition register. -/
inductive BranchCase (inst : UGeckoInstruction) (flags : InstructionFlags) : Handler → Prop
  | bx (opcd : inst.opcd = 18) (unread : flags = flEndBlock) : BranchCase inst flags bx
  | bcx (opcd : inst.opcd = 16) (read : flags = flEndBlock ||| flReadCRBI) :
      BranchCase inst flags bcx
  | bclrx (opcd : inst.opcd = 19) (subop10 : inst.subop10 = 16)
      (read : flags = flEndBlock ||| flReadCRBI) : BranchCase inst flags bclrx
  | bcctrx (opcd : inst.opcd = 19) (subop10 : inst.subop10 = 528)
      (read : flags = flEndBlock ||| flReadCRBI) : BranchCase inst flags bcctrx

theorem branch_runs {inst : UGeckoInstruction} (type : (getOpInfo inst).type = .branch)
    (other : Handler) : ∃ fn, runInterpreterOp other inst = fn inst ∧
      BranchCase inst (getOpInfo inst).flags fn := by
  have op : (inst.opcd = 18 ∧ (getOpInfo inst).flags = flEndBlock) ∨
      (inst.opcd = 16 ∧ (getOpInfo inst).flags = flEndBlock ||| flReadCRBI) ∨
      inst.opcd = 19 ∧ (inst.subop10 = 16 ∨ inst.subop10 = 528) ∧
        (getOpInfo inst).flags = flEndBlock ||| flReadCRBI := by
    rcases getOpInfo_found (by rw [type]; rfl) with ⟨_, row⟩ | ⟨op, row⟩ | ⟨_, _, row⟩
    · have none : ∀ row ∈ table31Ops, row.2.type ≠ .branch := by decide +kernel
      exact absurd type (none _ (mem_of_lookup row))
    · have rows : ∀ row ∈ table19, row.2.type = .branch →
          (row.1 = 16 ∨ row.1 = 528) ∧ row.2.flags = flEndBlock ||| flReadCRBI := by
        decide +kernel
      exact .inr (.inr ⟨op, rows _ (mem_of_lookup row) type⟩)
    · have rows : ∀ row ∈ primaryOps, row.2.type = .branch →
          (row.1 = 18 ∧ row.2.flags = flEndBlock) ∨
            row.1 = 16 ∧ row.2.flags = flEndBlock ||| flReadCRBI := by
        decide +kernel
      rcases rows _ (mem_of_lookup row) type with always | read
      · exact .inl always
      · exact .inr (.inl read)
  rcases op with ⟨op, unread⟩ | ⟨op, read⟩ | ⟨op, sub | sub, read⟩
  · refine ⟨bx, ?_, .bx op unread⟩
    simp only [runInterpreterOp, getInterpreterOp, getLoadOp, getBranchOp, op]
    rfl
  · refine ⟨bcx, ?_, .bcx op read⟩
    simp only [runInterpreterOp, getInterpreterOp, getLoadOp, getBranchOp, op]
    rfl
  · refine ⟨bclrx, ?_, .bclrx op sub read⟩
    simp only [runInterpreterOp, getInterpreterOp, getLoadOp, getBranchOp, op, sub]
    rfl
  · refine ⟨bcctrx, ?_, .bcctrx op sub read⟩
    simp only [runInterpreterOp, getInterpreterOp, getLoadOp, getBranchOp, op, sub]
    rfl

end Phocoena.Gekko.Interpreter
