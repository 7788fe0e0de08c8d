import Phocoena.Common.MoveImmediate

/-! # Constants are synthesized exactly

Every candidate's base can be loaded by one instruction, and replacing the parts that differ from
the constant gives the constant.
-/

namespace Phocoena.Arm64Emitter

open BitParts (part patch differing getLsbD_part getLsbD_patch)

/-! ## Addresses -/

theorem sext_21_bit_eq (x : BitVec 64) : sext_21_bit x = Emitted.addressOffset x := by
  have low : ∀ i < 64, (0x1FFFFF : BitVec 64).getLsbD i = decide (i < 21) := by decide
  have high : ∀ i < 64, (~~~0x1FFFFF : BitVec 64).getLsbD i = decide (¬ i < 21) := by decide
  have sign : x &&& 0x100000 ≠ 0 ↔ x.getLsbD 20 = true := by
    have bit : ∀ i < 64, (0x100000 : BitVec 64).getLsbD i = decide (i = 20) := by decide
    constructor
    · intro ne
      by_contra clear
      refine ne (BitVec.eq_of_getLsbD_eq fun i lt => ?_)
      rw [BitVec.getLsbD_and, bit i lt]
      by_cases here : i = 20 <;> simp_all
    · intro set zero
      have here := congrArg (BitVec.getLsbD · 20) zero
      simp only [BitVec.getLsbD_and, bit 20 (by decide), set] at here
      exact absurd here (by decide)
  refine BitVec.eq_of_getLsbD_eq fun i lt => ?_
  rw [sext_21_bit, Emitted.addressOffset, BitVec.getLsbD_or, BitVec.getLsbD_and, low i lt,
    BitVec.getLsbD_signExtend, BitVec.getLsbD_setWidth, BitVec.msb_eq_getLsbD_last,
    BitVec.getLsbD_setWidth]
  by_cases neg : x.getLsbD 20 = true
  · rw [if_pos (sign.mpr neg), high i lt]
    by_cases small : i < 21 <;> simp [small, neg, lt]
  · rw [if_neg (mt sign.mp neg)]
    rw [Bool.not_eq_true] at neg
    rw [neg]
    by_cases small : i < 21 <;> simp [small, lt]

theorem setWidth_addressOffset (x : BitVec 64) :
    (Emitted.addressOffset x).setWidth 21 = x.setWidth 21 := by
  refine BitVec.eq_of_getLsbD_eq fun i lt => ?_
  rw [BitVec.getLsbD_setWidth, Emitted.addressOffset, BitVec.getLsbD_signExtend, if_pos lt,
    decide_eq_true lt, decide_eq_true (show i < 64 by omega)]
  rfl

/-- `ADRP` reads the offset in pages it is given. -/
theorem addressOffset_pages (x : BitVec 64) :
    Emitted.addressOffset ((sext_21_bit x <<< 12).sshiftRight 12) = sext_21_bit x := by
  have cut : ((Emitted.addressOffset x <<< 12).sshiftRight 12).setWidth 21 = x.setWidth 21 := by
    refine BitVec.eq_of_getLsbD_eq fun i lt => ?_
    rw [BitVec.getLsbD_setWidth, BitVec.getLsbD_sshiftRight, BitVec.getLsbD_shiftLeft,
      Emitted.addressOffset, BitVec.getLsbD_signExtend]
    have : i < 64 := by omega
    have : 12 + i < 64 := by omega
    have : ¬ 64 ≤ i := by omega
    simp [*]
  rw [sext_21_bit_eq, Emitted.addressOffset, cut]
  rfl

section
variable (pc imm : BitVec 64)

theorem pages_toNat : (adrp_base pc imm).toNat % 2 ^ 12 = 0 ∧
    (adrp_base pc imm).toNat / 2 ^ 12 % 2 ^ 21 = imm.toNat / 2 ^ 12 % 2 ^ 21 := by
  have page : (pc &&& ~~~(0xFFF : BitVec 64)).toNat = 2 ^ 12 * (pc.toNat / 2 ^ 12) := by
    have split : pc &&& ~~~(0xFFF : BitVec 64) = pc >>> 12 <<< 12 := by
      have mask : ∀ i < 64, (~~~(0xFFF : BitVec 64)).getLsbD i = decide (¬ i < 12) := by decide
      refine BitVec.eq_of_getLsbD_eq fun i lt => ?_
      rw [BitVec.getLsbD_and, mask i lt, BitVec.getLsbD_shiftLeft, BitVec.getLsbD_ushiftRight]
      by_cases low : i < 12
      · simp [low]
      · simp [low, lt, show 12 + (i - 12) = i by omega]
    rw [split, BitVec.toNat_shiftLeft, BitVec.toNat_ushiftRight, Nat.shiftRight_eq_div_pow,
      Nat.shiftLeft_eq]
    omega
  have cut : (sext_21_bit (imm >>> 12 - pc >>> 12)).toNat % 2 ^ 21 =
      (imm >>> 12 - pc >>> 12).toNat % 2 ^ 21 := by
    have low : (sext_21_bit (imm >>> 12 - pc >>> 12)).setWidth 21 =
        (imm >>> 12 - pc >>> 12).setWidth 21 := by
      rw [sext_21_bit_eq]
      exact setWidth_addressOffset _
    have := congrArg BitVec.toNat low
    rwa [BitVec.toNat_setWidth, BitVec.toNat_setWidth] at this
  rw [BitVec.toNat_sub, BitVec.toNat_ushiftRight, BitVec.toNat_ushiftRight,
    Nat.shiftRight_eq_div_pow, Nat.shiftRight_eq_div_pow] at cut
  rw [adrp_base, adrp_offset, BitVec.toNat_add, page, BitVec.toNat_shiftLeft, Nat.shiftLeft_eq]
  omega

/-- The page has no bits below bit 12, and the bits of the constant up to bit 32. -/
theorem getLsbD_adrp_base {i : Nat} (low : i < 33) :
    (adrp_base pc imm).getLsbD i = (decide (12 ≤ i) && imm.getLsbD i) := by
  obtain ⟨zero, same⟩ := pages_toNat pc imm
  by_cases offset : i < 12
  · have bit := congrArg (Nat.testBit · i) zero
    simp only [Nat.testBit_mod_two_pow, Nat.zero_testBit, offset, decide_true, Bool.true_and] at bit
    rw [decide_eq_false (by omega), Bool.false_and]
    exact bit
  · have bit := congrArg (Nat.testBit · (i - 12)) same
    simp only [Nat.testBit_mod_two_pow, Nat.testBit_div_two_pow, show i - 12 < 21 by omega,
      decide_true, Bool.true_and, show i - 12 + 12 = i by omega] at bit
    rw [decide_eq_true (by omega), Bool.true_and]
    exact bit

end

/-! ## Candidates -/

/-- What is left to be replaced is where the base differs, and one instruction can load the
base. -/
structure Candidate.Sound (pc : BitVec 64) {size : GPRSize} (imm : BitVec size.bits)
    (c : Candidate size.bits) : Prop where
  parts : c.parts = partsOf imm c.base
  zeros : c.approach = .MOVZBase → c.base = 0
  ones : c.approach = .MOVNBase → c.base = BitVec.allOnes _
  near : c.approach = .ADRBase → size = .B64 ∧ c.base.setWidth 64 = adr_base pc (imm.setWidth 64)
  page : c.approach = .ADRPBase → size = .B64 ∧ c.base.setWidth 64 = adrp_base pc (imm.setWidth 64)
  logical : c.approach = .ORRBase → (LogicalImm.ofValue (c.base.setWidth 64) size).valid = true

section
variable {pc : BitVec 64} {size : GPRSize} {imm : BitVec size.bits} {best : Candidate size.bits}

theorem sound_try_base (sound : best.Sound pc imm) {base : BitVec size.bits} {approach : Approach}
    (new : Candidate.Sound pc imm ⟨partsOf imm base, approach, base⟩) :
    (try_base imm base approach best).Sound pc imm := by
  unfold try_base
  dsimp only
  split
  · exact new
  · exact sound

theorem sound_try_orr (sound : best.Sound pc imm) {base : BitVec size.bits}
    (valid : (LogicalImm.ofValue (base.setWidth 64) size).valid = true) :
    (try_base imm base .ORRBase best).Sound pc imm :=
  sound_try_base sound ⟨rfl, nofun, nofun, nofun, nofun, fun _ => valid⟩

end

section
variable {pc : BitVec 64}

/-- At 64 bits the base is the word itself. -/
theorem setWidth_bits (x : BitVec GPRSize.B64.bits) : x.setWidth 64 = x := BitVec.setWidth_eq x

theorem sound_tryOrrs {imm : BitVec 64} {best : Candidate 64}
    (sound : @Candidate.Sound pc .B64 imm best) (bases : List (BitVec 64)) :
    @Candidate.Sound pc .B64 imm (tryOrrs imm best bases) := by
  induction bases generalizing best with
  | nil => exact sound
  | cons orr_imm rest ih =>
      unfold tryOrrs
      split
      · next valid =>
        have valid' : (LogicalImm.ofValue ((orr_imm : BitVec 64).setWidth 64) .B64).valid = true :=
          by rwa [BitVec.setWidth_eq]
        have better := @sound_try_orr pc .B64 imm best sound orr_imm valid'
        dsimp only
        split
        · exact better
        · exact ih better
      · exact ih sound

theorem sound_tryOrr : ∀ {size : GPRSize} {imm : BitVec size.bits} {best : Candidate size.bits},
    best.Sound pc imm → (tryOrr size imm best).Sound pc imm
  | .B64, _, _, sound => sound_tryOrrs sound _
  | .B32, imm, best, sound => by
      show Candidate.Sound pc imm (if _ then _ else _)
      by_cases valid : (LogicalImm.ofValue (imm.setWidth 64) .B32).valid = true
      · rw [if_pos valid]
        exact sound_try_orr sound valid
      · rw [if_neg valid]
        exact sound

theorem sound_tryAddresses :
    ∀ {size : GPRSize} {imm : BitVec size.bits} {best : Candidate size.bits},
      best.Sound pc imm → (tryAddresses pc size imm best).Sound pc imm
  | .B64, imm, best, sound => by
      have page := @sound_try_base pc .B64 imm best sound (adrp_base pc imm) .ADRPBase
        ⟨rfl, nofun, nofun, nofun, fun _ => ⟨rfl, by
          show BitVec.setWidth 64 (adrp_base pc imm) = adrp_base pc (BitVec.setWidth 64 imm)
          rw [setWidth_bits imm, BitVec.setWidth_eq]⟩, nofun⟩
      exact @sound_try_base pc .B64 imm _ page (adr_base pc imm) .ADRBase
        ⟨rfl, nofun, nofun, fun _ => ⟨rfl, by
          show BitVec.setWidth 64 (adr_base pc imm) = adr_base pc (BitVec.setWidth 64 imm)
          rw [setWidth_bits imm, BitVec.setWidth_eq]⟩, nofun, nofun⟩
  | .B32, _, _, sound => sound

theorem sound_bestCandidate (pc : BitVec 64) (size : GPRSize) (imm : BitVec size.bits) :
    (bestCandidate pc size imm).Sound pc imm := by
  have zeros : Candidate.Sound pc imm ⟨partsOf imm 0, .MOVZBase, 0⟩ :=
    ⟨rfl, fun _ => rfl, nofun, nofun, nofun, nofun⟩
  have ones : (try_base imm (BitVec.allOnes size.bits) .MOVNBase
      ⟨partsOf imm 0, .MOVZBase, 0⟩).Sound pc imm :=
    sound_try_base zeros ⟨rfl, nofun, fun _ => rfl, nofun, nofun, nofun⟩
  have near := sound_tryAddresses ones
  unfold bestCandidate
  dsimp only
  split
  · exact sound_tryOrr near
  · exact near

end

/-! ## Running the code -/

namespace Machine

/-- The machine after `n` instructions that have changed one register. -/
def moved (m : Machine) (Rd : Fin 31) (v : BitVec 64) (n : Nat) : Machine where
  x := Function.update m.x Rd v
  nzcv := m.nzcv
  pc := m.pc + BitVec.ofNat 64 (4 * n)

theorem moved_zero (m : Machine) (Rd : Fin 31) : m.moved Rd (m.x Rd) 0 = m := by
  ext1
  · exact Function.update_eq_self Rd m.x
  · rfl
  · exact BitVec.add_zero m.pc

variable {m : Machine} {Rd : Fin 31} {v v' : BitVec 64} {n : Nat} {i : Emitted}

theorem get_moved : (m.moved Rd v n).get (.name Rd) = v := by
  show Function.update m.x Rd v Rd = v
  rw [Function.update_self]

theorem get_moved_of_ne {r : Fin 31} (ne : Rd ≠ r) :
    (m.moved Rd v n).get (.name r) = m.get (.name r) :=
  Function.update_of_ne ne.symm _ _

theorem step_moved (dest : i.dest = .name Rd)
    (eval : i.eval (m.moved Rd v n) = some (v', m.nzcv)) :
    (m.moved Rd v n).step i = some (m.moved Rd v' (n + 1)) := by
  rw [step, eval, dest, Option.map_some]
  refine congrArg some (Machine.ext (funext fun r => ?_) rfl ?_)
  · show (if A64.Reg.name r = .name Rd then v' else Function.update m.x Rd v r) =
      Function.update m.x Rd v' r
    by_cases same : r = Rd
    · rw [same, if_pos rfl, Function.update_self]
    · rw [if_neg fun h => same (A64.Reg.name.inj h), Function.update_of_ne same,
        Function.update_of_ne same]
  · show m.pc + BitVec.ofNat 64 (4 * n) + 4 = m.pc + BitVec.ofNat 64 (4 * (n + 1))
    rw [BitVec.add_assoc, Nat.mul_succ, BitVec.ofNat_add]
    rfl

theorem run_append (m : Machine) (code code' : List Emitted) :
    m.run (code ++ code') = (m.run code).bind fun m' => m'.run code' :=
  List.foldlM_append

theorem run_singleton (m : Machine) (i : Emitted) : m.run [i] = m.step i := by
  rw [run, List.foldlM_cons]
  exact Option.bind_fun_some (m.step i)

end Machine

theorem GPRSize.bits_le (size : GPRSize) : size.bits ≤ 64 := by cases size <;> decide

theorem GPRSize.whole (size : GPRSize) : 16 ∣ size.bits := by cases size <;> decide

theorem setWidth_back {size : GPRSize} (v : BitVec size.bits) :
    (v.setWidth 64).setWidth size.bits = v := by
  rw [BitVec.setWidth_setWidth_of_le v size.bits_le, BitVec.setWidth_eq]

theorem mapM_some {f : Part → Option Emitted} {g : Part → Emitted} :
    ∀ {ps : List Part}, (∀ p ∈ ps, f p = some (g p)) → ps.mapM f = some (ps.map g)
  | [], _ => rfl
  | p :: ps, h => by
      rw [List.mapM_cons, h p List.mem_cons_self,
        mapM_some fun q member => h q (List.mem_cons_of_mem p member)]
      rfl

section
variable {m : Machine} {size : GPRSize} {Rd : Fin 31} {imm : BitVec size.bits}

/-- The code that replaces the parts at these positions. -/
def movks (size : GPRSize) (Rd : Fin 31) (imm : BitVec size.bits) (is : List Nat) : List Emitted :=
  is.map fun i => .MOVK size (.name Rd) (part imm i) i

theorem run_movks (is : List Nat) (v : BitVec size.bits) (n : Nat) :
    (m.moved Rd (v.setWidth 64) n).run (movks size Rd imm is) =
      some (m.moved Rd ((is.foldl (fun v i => patch v i (part imm i)) v).setWidth 64)
        (n + is.length)) := by
  induction is generalizing v n with
  | nil => rfl
  | cons i is ih =>
      have eval : (Emitted.MOVK size (.name Rd) (part imm i) i).eval
          (m.moved Rd (v.setWidth 64) n) =
          some ((patch v i (part imm i)).setWidth 64, m.nzcv) := by
        rw [Emitted.eval, Machine.get_moved, setWidth_back]
        rfl
      rw [movks, List.map_cons, Machine.run, List.foldlM_cons, Machine.step_moved rfl eval]
      have rest := ih (patch v i (part imm i)) (n + 1)
      rw [List.foldl_cons, List.length_cons, show n + (is.length + 1) = n + 1 + is.length by omega]
      exact rest

/-- The emitter meets its assertions, and what it emits loads the constant. -/
def Loads (m : Machine) (size : GPRSize) (Rd : Fin 31) (imm : BitVec size.bits)
    (emitted : Option (List Emitted)) : Prop :=
  ∃ code, emitted = some code ∧ code ≠ [] ∧ (∀ i ∈ code, i.encodable = true) ∧
    m.run code = some (m.moved Rd (imm.setWidth 64) code.length)

theorem mapM_emitPart {pc : BitVec 64} {approach : Approach} {is : List Nat}
    (left : approach = .ADRPBase → 0 ∉ is) :
    (is.map fun i => (⟨part imm i, i⟩ : Part)).mapM (emitPart pc size (.name Rd) imm approach) =
      some (movks size Rd imm is) := by
  have each := @mapM_some (emitPart pc size (.name Rd) imm approach)
    (fun p => .MOVK size (.name Rd) p.imm p.shift) (is.map fun i => ⟨part imm i, i⟩) ?_
  · rw [each, List.map_map]
    rfl
  · rintro p member
    obtain ⟨i, member, rfl⟩ := List.mem_map.mp member
    refine if_neg fun h => left h.1 ?_
    rwa [← h.2]

/-- A prefix that loads a value from which the parts at these positions lead to the constant. -/
theorem loads_behind {first : List Emitted} {v : BitVec size.bits} {is : List Nat}
    (some_ : first ≠ []) (encodable : ∀ i ∈ first, i.encodable = true)
    (run : m.run first = some (m.moved Rd (v.setWidth 64) first.length))
    (inside : ∀ i ∈ is, i < size.bits / 16)
    (all : is.foldl (fun v i => patch v i (part imm i)) v = imm) :
    Loads m size Rd imm (some (first ++ movks size Rd imm is)) := by
  refine ⟨_, rfl, by simp [some_], fun i member => ?_, ?_⟩
  · rcases List.mem_append.mp member with here | later
    · exact encodable i here
    · obtain ⟨j, among, rfl⟩ := List.mem_map.mp later
      exact decide_eq_true (inside j among)
  · rw [Machine.run_append, run, Option.bind_some, run_movks, all, List.length_append, movks,
      List.length_map]

theorem run_first {first : Emitted} {v : BitVec 64} (dest : first.dest = .name Rd)
    (eval : first.eval m = some (v, m.nzcv)) : m.run [first] = some (m.moved Rd v 1) := by
  have step := @Machine.step_moved m Rd (m.x Rd) v 0 first dest (by rwa [Machine.moved_zero])
  rwa [Machine.moved_zero, ← Machine.run_singleton] at step

theorem inside_differing (imm base : BitVec size.bits) :
    ∀ i ∈ differing imm base, i < size.bits / 16 :=
  fun _ member => List.mem_range.mp (List.mem_filter.mp member).1

/-- One instruction loads the base, and the parts left are replaced. -/
theorem loads_of_base (approach : Approach) {first : Emitted} (is : List Nat)
    (v : BitVec size.bits) (dest : first.dest = .name Rd)
    (encodable : first.encodable = true) (eval : first.eval m = some (v.setWidth 64, m.nzcv))
    (inside : ∀ i ∈ is, i < size.bits / 16) (left : approach = .ADRPBase → 0 ∉ is)
    (all : is.foldl (fun v i => patch v i (part imm i)) v = imm) :
    Loads m size Rd imm (((is.map fun i => (⟨part imm i, i⟩ : Part)).mapM
      (emitPart m.pc size (.name Rd) imm approach)).map (first :: ·)) := by
  rw [mapM_emitPart left]
  exact loads_behind (List.cons_ne_nil first []) (by simpa using encodable) (run_first dest eval)
    inside all

end

section
variable {m : Machine} {size : GPRSize} {Rd : Fin 31} {imm : BitVec size.bits}

/-- The code for a candidate, as `MOVI2RImpl` emits it for the best one. -/
def emitCandidate (pc : BitVec 64) (size : GPRSize) (Rd : GPR) (imm : BitVec size.bits)
    (c : Candidate size.bits) : Option (List Emitted) :=
  (emitBase pc size Rd imm c).bind fun (first, parts) =>
    (parts.mapM (emitPart pc size Rd imm c.approach)).map (first :: ·)

theorem first_encodable (size : GPRSize) (Rd : GPR) (imm : BitVec 16) :
    (Emitted.MOVZ size Rd imm 0).encodable = true ∧
      (Emitted.MOVN size Rd imm 0).encodable = true := by
  cases size <;> exact ⟨rfl, rfl⟩

theorem loads_zeros : Loads m size Rd imm (emitCandidate m.pc size (.name Rd) imm
    ⟨partsOf imm 0, .MOVZBase, 0⟩) := by
  have all := BitParts.foldl_patch_differing size.whole imm 0
  have inside := inside_differing imm 0
  rw [partsOf]
  generalize differing imm 0 = is at all inside ⊢
  cases is with
  | nil =>
      refine loads_of_base .MOVZBase [] 0 rfl (first_encodable size _ 0).1 ?_ nofun nofun all
      rw [Emitted.eval, Nat.mul_zero, BitVec.shiftLeft_zero, BitVec.ofNat_eq_ofNat,
        BitVec.setWidth_zero]
      rfl
  | cons i is =>
      refine loads_of_base .MOVZBase is (patch 0 i (part imm i)) rfl
        (decide_eq_true (inside i List.mem_cons_self)) ?_
        (fun j member => inside j (List.mem_cons_of_mem i member)) nofun all
      rw [Emitted.eval, BitVec.ofNat_eq_ofNat, BitParts.patch_zero]

theorem loads_ones : Loads m size Rd imm (emitCandidate m.pc size (.name Rd) imm
    ⟨partsOf imm (BitVec.allOnes _), .MOVNBase, BitVec.allOnes _⟩) := by
  have all := BitParts.foldl_patch_differing size.whole imm (BitVec.allOnes _)
  have inside := inside_differing imm (BitVec.allOnes _)
  rw [partsOf]
  generalize differing imm (BitVec.allOnes _) = is at all inside ⊢
  cases is with
  | nil =>
      refine loads_of_base .MOVNBase [] (BitVec.allOnes _) rfl (first_encodable size _ _).2 ?_
        nofun nofun all
      rw [Emitted.eval, Nat.mul_zero, BitVec.shiftLeft_zero,
        show ~~~(0xFFFF : BitVec 16) = 0#16 from rfl, BitVec.setWidth_zero, BitVec.not_zero]
  | cons i is =>
      refine loads_of_base .MOVNBase is (patch (BitVec.allOnes _) i (part imm i)) rfl
        (decide_eq_true (inside i List.mem_cons_self)) ?_
        (fun j member => inside j (List.mem_cons_of_mem i member)) nofun all
      rw [Emitted.eval, BitParts.patch_allOnes]

theorem addressOffset_idem (x : BitVec 64) :
    Emitted.addressOffset (Emitted.addressOffset x) = Emitted.addressOffset x := by
  rw [Emitted.addressOffset, setWidth_addressOffset]
  rfl

theorem loads_near {base : BitVec size.bits}
    (near : base.setWidth 64 = adr_base m.pc (imm.setWidth 64)) :
    Loads m size Rd imm (emitCandidate m.pc size (.name Rd) imm
      ⟨partsOf imm base, .ADRBase, base⟩) := by
  refine loads_of_base .ADRBase _ base rfl rfl ?_ (inside_differing imm base) nofun
    (BitParts.foldl_patch_differing size.whole imm base)
  rw [Emitted.eval, near, adr_base, adr_offset, sext_21_bit_eq, addressOffset_idem]

/-- Fields with the bit for 64-bit elements mean nothing at 32 bits. -/
theorem decodeBitMasks_narrow (imms immr : BitVec 6) :
    A64.decodeBitMasks 32 true imms immr = none := by
  have wide : ∀ i : Fin (2 ^ 6), (BitVec.ofBool true ++ ~~~BitVec.ofFin i).toNat.log2 = 6 := by
    decide
  exact if_pos (.inr (by rw [wide imms.toFin]; decide))

theorem logical_narrow {value : BitVec 64} (valid : (LogicalImm.ofValue value size).valid = true) :
    size = .B64 ∨ (LogicalImm.ofValue value size).n = false := by
  obtain ⟨-, -, decoded⟩ := (LogicalImm.ofValue_exact value size).2 valid
  cases size with
  | B64 => exact .inl rfl
  | B32 =>
      refine .inr (Bool.eq_false_iff.mpr fun wide => ?_)
      rw [wide] at decoded
      cases (decodeBitMasks_narrow _ _).symm.trans decoded

theorem loads_logical {base : BitVec size.bits}
    (valid : (LogicalImm.ofValue (base.setWidth 64) size).valid = true) :
    Loads m size Rd imm (emitCandidate m.pc size (.name Rd) imm
      ⟨partsOf imm base, .ORRBase, base⟩) := by
  obtain ⟨r, s, decoded⟩ := (LogicalImm.ofValue_exact (base.setWidth 64) size).2 valid
  have narrow := logical_narrow valid
  have emitted : emitBase m.pc size (.name Rd) imm ⟨partsOf imm base, .ORRBase, base⟩ =
      some (.logicalImm .orr false size (.name Rd) .zr
        (LogicalImm.ofValue (base.setWidth 64) size), partsOf imm base) := by
    show (TryORRI2R size (.name Rd) .zr (base.setWidth 64)).map _ = _
    rw [TryORRI2R, if_pos valid, Option.map_some]
  rw [emitCandidate, emitted]
  refine loads_of_base .ORRBase _ base rfl ?_ ?_ (inside_differing imm base) nofun
    (BitParts.foldl_patch_differing size.whole imm base)
  · rw [Emitted.encodable, valid, decide_eq_true (And.intro r s)]
    rcases narrow with rfl | narrow
    · rfl
    · rw [narrow]
      simp
  · rw [Emitted.eval, decoded, setWidth_back]
    simp [A64.Inst.eval, A64.LogicalOp.apply, A64.Operand.eval, Machine.get, setWidth_back]

end

section
variable (pc imm : BitVec 64)

theorem getLsbD_low {i : Nat} (lt : i < 64) :
    ((part imm 0).setWidth 64 &&& 0xFFF).getLsbD i = (decide (i < 12) && imm.getLsbD i) := by
  have mask : ∀ i < 64, (0xFFF : BitVec 64).getLsbD i = decide (i < 12) := by decide
  rw [BitVec.getLsbD_and, mask i lt, BitVec.getLsbD_setWidth, decide_eq_true lt, Bool.true_and,
    Bool.and_comm]
  by_cases low : i < 12
  · rw [getLsbD_part _ _ (by omega), Nat.mul_zero, Nat.zero_add]
  · rw [decide_eq_false low]
    rfl

/-- What the code asserts: bits 12 to 15 are in place. -/
theorem part_zero_eq : (part imm 0).setWidth 64 =
    (adrp_base pc imm &&& 0xF000) + ((part imm 0).setWidth 64 &&& 0xFFF) := by
  have mask : ∀ i < 64, (0xF000 : BitVec 64).getLsbD i = decide (12 ≤ i ∧ i < 16) := by decide
  rw [BitVec.add_eq_or_of_and_eq_zero]
  · refine BitVec.eq_of_getLsbD_eq fun i lt => ?_
    rw [BitVec.getLsbD_or, BitVec.getLsbD_and, mask i lt, getLsbD_low imm lt,
      BitVec.getLsbD_setWidth, decide_eq_true lt, Bool.true_and]
    by_cases inside : i < 16
    · rw [getLsbD_part _ _ inside, Nat.mul_zero, Nat.zero_add, getLsbD_adrp_base pc imm (by omega)]
      by_cases low : i < 12
      · simp [low, show ¬ 12 ≤ i by omega]
      · simp [low, show 12 ≤ i by omega, inside]
    · rw [BitVec.getLsbD_of_ge _ _ (by omega)]
      simp [inside, show ¬ i < 12 by omega]
  · refine BitVec.eq_of_getLsbD_eq fun i lt => ?_
    rw [BitVec.getLsbD_and, BitVec.getLsbD_and, mask i lt, getLsbD_low imm lt]
    by_cases low : i < 12
    · simp [show ¬ 12 ≤ i by omega]
    · simp [low]

/-- Adding the bits below bit 12 to a page replaces its lowest part. -/
theorem add_low : adrp_base pc imm + ((part imm 0).setWidth 64 &&& 0xFFF) =
    patch (adrp_base pc imm) 0 (part imm 0) := by
  rw [BitVec.add_eq_or_of_and_eq_zero]
  · refine BitVec.eq_of_getLsbD_eq fun i lt => ?_
    rw [BitVec.getLsbD_or, getLsbD_low imm lt, getLsbD_patch _ _ _ lt]
    by_cases inside : i < 16
    · rw [if_pos (by omega), getLsbD_part _ _ (Nat.mod_lt _ (by decide)), Nat.mul_zero,
        Nat.zero_add, Nat.mod_eq_of_lt inside, getLsbD_adrp_base pc imm (by omega)]
      by_cases low : i < 12
      · simp [low, show ¬ 12 ≤ i by omega]
      · simp [low, show 12 ≤ i by omega]
    · rw [if_neg (by omega), decide_eq_false (show ¬ i < 12 by omega), Bool.false_and,
        Bool.or_false]
  · refine BitVec.eq_of_getLsbD_eq fun i lt => ?_
    rw [BitVec.getLsbD_and, getLsbD_low imm lt]
    by_cases low : i < 12
    · rw [getLsbD_adrp_base pc imm (by omega)]
      simp [show ¬ 12 ≤ i by omega]
    · simp [low]

end

section
variable {m : Machine} {Rd : Fin 31}

theorem eval_adrp (imm : BitVec 64) :
    (Emitted.ADRP (.name Rd) (adrp_offset m.pc imm)).eval m =
      some (adrp_base m.pc imm, m.nzcv) := by
  rw [Emitted.eval, adrp_offset, addressOffset_pages]
  rfl

/-- The addition behind `ADRP`. -/
def addLow (Rd : Fin 31) (imm : BitVec 64) : Emitted :=
  .data (.arith 64 .add false (.name Rd) (.name Rd) (.imm ((part imm 0).setWidth 64 &&& 0xFFF)))

theorem addLow_encodable (imm : BitVec 64) : (addLow Rd imm).encodable = true := by
  have small : ((part imm 0).setWidth 64 &&& 0xFFF).toNat ≤ 0xFFF := by
    rw [BitVec.toNat_and]
    exact Nat.and_le_right
  have fits : A64.arithImm ((part imm 0).setWidth 64 &&& 0xFFF) = true := by
    simp only [A64.arithImm, decide_eq_true_eq]
    omega
  show ((A64.widthOk 64 && A64.arithImm _) && true) = true
  rw [fits]
  rfl

theorem run_addLow (imm : BitVec 64) :
    (m.moved Rd (adrp_base m.pc imm) 1).run [addLow Rd imm] =
      some (m.moved Rd (patch (adrp_base m.pc imm) 0 (part imm 0)) 2) := by
  rw [Machine.run_singleton]
  refine Machine.step_moved rfl ?_
  rw [addLow, Emitted.eval, ← add_low]
  simp only [A64.Inst.eval, A64.Operand.eval, A64.ArithOp.apply, A64.addWithCarry_false_fst,
    Machine.get_moved, BitVec.setWidth_eq, Bool.false_eq_true, if_false]
  rfl

/-- Behind `ADRP` the lowest part is added, and the others are replaced. -/
theorem loads_page (imm : BitVec GPRSize.B64.bits) :
    @Loads m .B64 Rd imm (emitCandidate m.pc .B64 (.name Rd) imm
      ⟨partsOf imm (adrp_base m.pc imm), .ADRPBase, adrp_base m.pc imm⟩) := by
  have all := @BitParts.foldl_patch_differing GPRSize.B64.bits (by decide) imm (adrp_base m.pc imm)
  have inside := @inside_differing .B64 imm (adrp_base m.pc imm)
  have adrp : (Emitted.ADRP (.name Rd) (adrp_offset m.pc (imm.setWidth 64))).eval m =
      some ((adrp_base m.pc imm).setWidth 64, m.nzcv) := by
    rw [setWidth_bits imm, BitVec.setWidth_eq]
    exact eval_adrp imm
  obtain ⟨is, other, shape⟩ :=
    @BitParts.differing_zero_first GPRSize.B64.bits imm (adrp_base m.pc imm)
  show Loads m .B64 Rd imm (emitCandidate m.pc .B64 (.name Rd) imm
    ⟨(@differing GPRSize.B64.bits imm (adrp_base m.pc imm)).map fun i => ⟨part imm i, i⟩,
      .ADRPBase, adrp_base m.pc imm⟩)
  generalize @differing GPRSize.B64.bits imm (adrp_base m.pc imm) = all_is at all inside shape ⊢
  rcases shape with rfl | rfl
  · exact @loads_of_base m .B64 Rd imm .ADRPBase _ _ (adrp_base m.pc imm) rfl rfl adrp inside
      (fun _ => other) all
  · have low : emitPart m.pc .B64 (.name Rd) imm .ADRPBase ⟨part imm 0, 0⟩ =
        some (addLow Rd imm) := by
      have asserted := part_zero_eq m.pc imm
      rw [emitPart, if_pos ⟨rfl, rfl⟩, if_pos (by rwa [setWidth_bits imm])]
      rfl
    have rest := @mapM_emitPart .B64 Rd imm m.pc .ADRPBase is fun _ => other
    have code : emitCandidate m.pc .B64 (.name Rd) imm
        ⟨(0 :: is).map fun i => ⟨part imm i, i⟩, .ADRPBase, adrp_base m.pc imm⟩ =
        some ([.ADRP (.name Rd) (adrp_offset m.pc (imm.setWidth 64)), addLow Rd imm] ++
          movks .B64 Rd imm is) := by
      show (((0 :: is).map fun i => (⟨part imm i, i⟩ : Part)).mapM
        (emitPart m.pc .B64 (.name Rd) imm .ADRPBase)).map _ = _
      rw [List.map_cons, List.mapM_cons, low, rest]
      rfl
    rw [code]
    refine @loads_behind m .B64 Rd imm _ (patch (adrp_base m.pc imm) 0 (part imm 0)) is
      (List.cons_ne_nil _ _) ?_ ?_ (fun i member => inside i (List.mem_cons_of_mem 0 member))
      (List.foldl_cons.symm.trans all)
    · intro i member
      rcases List.mem_cons.mp member with rfl | member
      · rfl
      · rw [List.mem_singleton.mp member]
        exact addLow_encodable imm
    · have first := @run_first m Rd _ _ rfl adrp
      rw [BitVec.setWidth_eq] at first
      have both := Machine.run_append m [.ADRP (.name Rd) (adrp_offset m.pc (imm.setWidth 64))]
        [addLow Rd imm]
      rw [first, Option.bind_some] at both
      refine (both.trans (run_addLow imm)).trans ?_
      exact congrArg (fun v => some (m.moved Rd v 2)) (BitVec.setWidth_eq _).symm

/-- Whichever base is chosen, the code loads the constant, and no assertion fails. -/
theorem loads_candidate {size : GPRSize} {imm : BitVec size.bits} {c : Candidate size.bits}
    (sound : c.Sound m.pc imm) :
    Loads m size Rd imm (emitCandidate m.pc size (.name Rd) imm c) := by
  obtain ⟨parts, approach, base⟩ := c
  obtain rfl : parts = partsOf imm base := sound.parts
  cases approach with
  | MOVZBase =>
      obtain rfl : base = 0 := sound.zeros rfl
      exact loads_zeros
  | MOVNBase =>
      obtain rfl : base = BitVec.allOnes _ := sound.ones rfl
      exact loads_ones
  | ADRBase => exact loads_near (sound.near rfl).2
  | ADRPBase =>
      obtain ⟨rfl, page⟩ := sound.page rfl
      obtain rfl : base = adrp_base m.pc imm := by
        rwa [setWidth_bits, setWidth_bits] at page
      exact loads_page imm
  | ORRBase => exact loads_logical (sound.logical rfl)

theorem MOVI2R_loads (m : Machine) (size : GPRSize) (Rd : Fin 31) (imm : BitVec 64) :
    Loads m size Rd (imm.setWidth size.bits) (MOVI2R m.pc size (.name Rd) imm) :=
  loads_candidate (sound_bestCandidate m.pc size _)

end

end Phocoena.Arm64Emitter
