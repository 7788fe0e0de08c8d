import Phocoena.Common.StackRegisters
import Mathlib.Data.List.Perm.Basic

/-! # Restoring is the inverse of saving

What a stack frame holds after the registers have been pushed, and what is in the registers when
it has been popped. Both vector layouts are followed address by address: in one the frame grows
downwards with the pairs, in the other it is reserved at once and filled upwards.
-/

namespace Phocoena.Arm64Emitter

open ByteMemory

/-! ## Transfers -/

section
variable {s : State} {bank : Bank}

theorem State.readX_setBase_SP (s : State) (r : Nat) (v : BitVec 64) :
    (s.setBase SP v).readX r = s.readX r := by
  by_cases zr : r = 31 <;> simp [readX, setBase, SP, zr]

theorem State.read_setBase_SP (s : State) (bank : Bank) (r : Nat) (v : BitVec 64) :
    (s.setBase SP v).read bank r = s.read bank r := by
  cases bank with
  | X => exact s.readX_setBase_SP r v
  | Q => rfl

theorem State.writeX_mem (s : State) (r : Nat) (v : BitVec 64) : (s.writeX r v).mem = s.mem := by
  by_cases zr : r = 31 <;> simp [writeX, zr]

theorem State.writeX_sp (s : State) (r : Nat) (v : BitVec 64) : (s.writeX r v).sp = s.sp := by
  by_cases zr : r = 31 <;> simp [writeX, sp, SP, zr, Ne.symm]

theorem State.readX_writeX (s : State) (r i : Nat) (v : BitVec 64) :
    (s.writeX r v).readX i = if i = r ∧ r ≠ 31 then v else s.readX i := by
  by_cases zr : r = 31
  · simp [writeX, zr]
  · by_cases same : i = r <;> simp [writeX, readX, zr, same]

theorem State.write_mem (s : State) (bank : Bank) (r : Nat) (v : BitVec bank.width) :
    (s.write bank r v).mem = s.mem := by
  cases bank with
  | X => exact s.writeX_mem r v
  | Q => rfl

theorem State.write_sp (s : State) (bank : Bank) (r : Nat) (v : BitVec bank.width) :
    (s.write bank r v).sp = s.sp := by
  cases bank with
  | X => exact s.writeX_sp r v
  | Q => rfl

/-- The values of registers that transfers can restore: the zero register has no other. -/
def Readable (bank : Bank) (f : Nat → BitVec bank.width) : Prop := bank = .X → f 31 = 0

theorem State.readable (s : State) (bank : Bank) : Readable bank (s.read bank) := by
  rintro rfl
  rfl

/-- Writing the value that a register is to have. -/
theorem State.read_write {f : Nat → BitVec bank.width} (readable : Readable bank f) (s : State)
    {r i : Nat} (has : i = r ∨ s.read bank i = f i) : (s.write bank r (f r)).read bank i = f i := by
  cases bank with
  | X =>
      have value := s.readX_writeX r i (f r)
      refine value.trans ?_
      by_cases here : i = r ∧ r ≠ 31
      · exact (if_pos here).trans (by rw [here.1])
      · refine (if_neg here).trans ?_
        rcases has with rfl | before
        · have zr : i = 31 := by
            by_contra ne
            exact here ⟨rfl, ne⟩
          rw [zr]
          exact (readable rfl).symm
        · exact before
  | Q =>
      by_cases here : i = r
      · exact (if_pos here).trans (by rw [here])
      · exact (if_neg here).trans (has.resolve_left here)

/-- Loading values that stand in memory gives them to their registers, and takes them from none. -/
theorem State.loadAll_spec {a : BitVec 64} {regs : List Nat} {f : Nat → BitVec bank.width}
    (readable : Readable bank f) (holds : Holds s.mem a (regs.map f)) :
    (s.loadAll bank a regs).mem = s.mem ∧ (s.loadAll bank a regs).sp = s.sp ∧
      ∀ r, r ∈ regs ∨ s.read bank r = f r → (s.loadAll bank a regs).read bank r = f r := by
  induction regs generalizing s a with
  | nil => exact ⟨rfl, rfl, fun r h => h.elim (fun m => by cases m) id⟩
  | cons r regs ih =>
      obtain ⟨first, rest⟩ := holds
      have mem := s.write_mem bank r (f r)
      obtain ⟨mem', sp', restored⟩ := @ih (s.write bank r (f r)) (skip bank.width a 1)
        (by rwa [mem])
      rw [loadAll, first]
      refine ⟨mem'.trans mem, sp'.trans (s.write_sp bank r _), fun i h => restored i ?_⟩
      by_cases later : i ∈ regs
      · exact .inl later
      · refine .inr (State.read_write readable s ?_)
        exact h.imp_left fun m => (List.mem_cons.mp m).resolve_right later

end

/-! ## Offsets -/

theorem indexedOffset_neg :
    ∀ k < 17, indexedOffset (-(16 * k : Nat)) = -BitVec.ofNat 64 (16 * k) := by
  decide

theorem indexedOffset_pos : ∀ k < 16, indexedOffset (16 * k : Nat) = BitVec.ofNat 64 (16 * k) := by
  decide

theorem pairOffset_neg : ∀ k < 17, pairOffset .X (-(16 * k : Nat)) = -BitVec.ofNat 64 (16 * k) := by
  decide

theorem pairOffset_pos : ∀ k < 17, pairOffset .X (16 * k : Nat) = BitVec.ofNat 64 (16 * k) := by
  decide

/-! ## Safe steps -/

def Aligned (a : BitVec 64) : Prop := a.toNat % 16 = 0

theorem aligned_skip {a : BitVec 64} (h : Aligned a) {w n : Nat} (whole : w / 8 * n % 16 = 0) :
    Aligned (skip w a n) := by
  unfold Aligned at *
  rw [skip, BitVec.toNat_add, BitVec.toNat_ofNat]
  omega

theorem aligned_sub {a : BitVec 64} (h : Aligned a) {n : Nat} (whole : n % 16 = 0) :
    Aligned (a - BitVec.ofNat 64 n) := by
  unfold Aligned at *
  rw [BitVec.toNat_sub, BitVec.toNat_ofNat]
  omega

theorem skip_sub (w : Nat) {a : BitVec 64} {k m : Nat} (le : k ≤ m) (fits : w / 8 * m < 2 ^ 64) :
    (skip w a m - skip w a k).toNat = w / 8 * (m - k) := by
  rw [show m = k + (m - k) by omega, ← skip_add, show k + (m - k) - k = m - k by omega, skip,
    add_sub_toNat]
  have := Nat.mul_le_mul_left (w / 8) (show m - k ≤ m by omega)
  omega

/-- After the instruction the stack pointer is aligned; what it wrote is not below the stack
pointer, and between the last value of the stack pointer and the first. -/
structure SafeStep (top low : BitVec 64) (s : State) (i : Inst) : Prop where
  aligned : Aligned (i.exec s).sp
  above : ∀ b, i.Writes s b → Among (i.exec s).sp (top - (i.exec s).sp).toNat b ∧
    Among low (top - low).toNat b

/-- Every instruction of the code is taken in a state that meets the property. -/
def Along (P : State → Inst → Prop) : List Inst → State → Prop
  | [], _ => True
  | i :: code, s => P s i ∧ Along P code (i.exec s)

theorem along_append {P : State → Inst → Prop} {code code' : List Inst} {s : State} :
    Along P (code ++ code') s ↔ Along P code s ∧ Along P code' (run code s) := by
  induction code generalizing s with
  | nil => exact ⟨fun h => ⟨trivial, h⟩, fun h => h.2⟩
  | cons i code ih => rw [List.cons_append, Along, Along, run, ih, and_assoc]

theorem run_append (code code' : List Inst) (s : State) :
    run (code ++ code') s = run code' (run code s) := by
  induction code generalizing s with
  | nil => rfl
  | cons i code ih => exact ih _

section
variable {t : Transfer} {s : State} {top low : BitVec 64} {bank : Bank} {regs : List Nat}
  {offset writeback : BitVec 64}

theorem Bank.width_div (bank : Bank) : bank.width / 8 = bank.bytes := by cases bank <;> rfl

/-- A store through the stack pointer. -/
theorem exec_store (access : t.access = ⟨true, bank, regs, SP, offset, writeback⟩) :
    (Inst.transfer t).exec s =
      { s with mem := storeAll s.mem (s.sp + offset) (regs.map (s.read bank)) }.setBase SP
        (s.sp + writeback) := by
  rw [Inst.exec, access]
  rfl

theorem exec_load (access : t.access = ⟨false, bank, regs, SP, offset, writeback⟩) :
    (Inst.transfer t).exec s =
      (s.loadAll bank (s.sp + offset) regs).setBase SP (s.sp + writeback) := by
  rw [Inst.exec, access]
  rfl

theorem setBase_sp (s : State) (v : BitVec 64) : (s.setBase SP v).sp = v := by
  simp [State.sp, State.setBase]

/-- A store at `k` values above the lowest address, which leaves the stack pointer at or below
it. -/
theorem safe_store {k j total : Nat} (aligned : Aligned low)
    (access : t.access = ⟨true, bank, regs, SP, offset, writeback⟩)
    (address : s.sp + offset = skip bank.width low k)
    (sp : s.sp + writeback = skip bank.width low j) (whole : bank.bytes * j % 16 = 0)
    (below : j ≤ k) (inside : k + regs.length ≤ total) (fits : bank.bytes * total < 2 ^ 64)
    (is_top : top = skip bank.width low total) : SafeStep top low s (.transfer t) := by
  have after : ((Inst.transfer t).exec s).sp = skip bank.width low j := by
    rw [exec_store access, setBase_sp, sp]
  refine ⟨by rw [after]; exact aligned_skip aligned (by rw [bank.width_div]; exact whole), ?_⟩
  rintro b ⟨-, writes⟩
  rw [access] at writes
  have writes : Among (s.sp + offset) (bank.bytes * regs.length) b := writes
  rw [address, ← bank.width_div] at writes
  have zero : top - low = skip bank.width low total - skip bank.width low 0 := by
    rw [skip_zero, is_top]
  rw [after, zero, is_top, skip_sub _ (by omega) (by rwa [bank.width_div]),
    skip_sub _ (by omega) (by rwa [bank.width_div])]
  have room : bank.width / 8 * total ≤ 2 ^ 64 := by
    rw [bank.width_div]
    omega
  have le : bank.width / 8 * (total - j) ≤ bank.width / 8 * total :=
    Nat.mul_le_mul_left _ (Nat.sub_le _ _)
  refine ⟨among_skip (m := k - j) (by omega) (show k - j + regs.length ≤ total - j by omega) ?_,
    among_skip room (by omega) writes⟩
  rw [skip_add, show j + (k - j) = k by omega]
  exact writes

theorem safe_load (access : t.access = ⟨false, bank, regs, SP, offset, writeback⟩)
    (aligned : Aligned (s.sp + writeback)) : SafeStep top low s (.transfer t) := by
  refine ⟨by rw [exec_load access, setBase_sp]; exact aligned, ?_⟩
  rintro b ⟨store, -⟩
  rw [access] at store
  cases store

end

/-! ## The general purpose registers -/

/-- One more store behind the values that are in memory already keeps them. -/
theorem holds_storeAll_append {w : Nat} {m : ByteMemory} {a : BitVec 64} {vs us : List (BitVec w)}
    (small : w ≤ 8 * 2 ^ 64) (whole : w % 8 = 0) (fits : w / 8 * (vs.length + us.length) ≤ 2 ^ 64)
    (holds : Holds m a vs) : Holds (storeAll m (skip w a vs.length) us) a (vs ++ us) := by
  have parts := Nat.mul_add (w / 8) vs.length us.length
  refine holds_append.mpr ⟨holds.congr small whole (by omega) fun b among => ?_,
    holds_storeAll m _ small whole (by omega)⟩
  exact (storeAll_of_not_among (by omega)
    fun later => not_among_skip fits (Nat.le_refl _) later among).symm

theorem access_pair (store : Bool) {i : Nat} (few : i < 16) (r r' : Nat) :
    (Transfer.pair store .X .Signed r r' SP (16 * ((i : Int) + 1))).access =
      ⟨store, .X, [r, r'], SP, BitVec.ofNat 64 (16 * (i + 1)), 0⟩ := by
  have amount : pairOffset .X (16 * ((i : Int) + 1)) = BitVec.ofNat 64 (16 * (i + 1)) := by
    rw [← pairOffset_pos (i + 1) (by omega)]
    push_cast
    rfl
  rw [Transfer.access, amount]
  rfl

theorem add_pair (low : BitVec 64) (i : Nat) :
    low + BitVec.ofNat 64 (16 * (i + 1)) = skip 64 low (2 * (i + 1)) := by
  rw [skip, show 64 / 8 * (2 * (i + 1)) = 16 * (i + 1) by omega]

/-- The pairs behind the first store fill the frame upwards. -/
theorem pushPairs_spec {s : State} {top low : BitVec 64} {it : List Nat} {vs : List (BitVec 64)}
    {f : Nat → BitVec 64} {i : Nat}
    (behind : vs.length = 2 * (i + 1)) (aligned : Aligned low) (even : it.length % 2 = 0)
    (room : 2 * (i + 1) + it.length ≤ 32) (values : ∀ r, s.readX r = f r) (sp : s.sp = low)
    (is_top : top = skip 64 low (2 * (i + 1) + it.length)) (holds : Holds s.mem low vs) :
    Along (SafeStep top low) (pushPairs i it) s ∧ (run (pushPairs i it) s).sp = low ∧
      Holds (run (pushPairs i it) s).mem low (vs ++ it.map f) := by
  match it with
  | [] => exact ⟨trivial, sp, by rw [List.map_nil, List.append_nil]; exact holds⟩
  | [_] => simp at even
  | r :: r' :: it =>
      simp only [List.length_cons] at even room is_top
      have access := access_pair true (show i < 16 by omega) r r'
      have zero : low + 0 = low := BitVec.add_zero low
      have safe : SafeStep top low s (.transfer _) :=
        safe_store aligned access (by rw [sp, add_pair]; rfl)
          (show s.sp + 0 = skip 64 low 0 by rw [skip_zero, sp, zero]) rfl (Nat.zero_le _)
          (show 2 * (i + 1) + 2 ≤ 2 * (i + 1) + (it.length + 1 + 1) by omega)
          (by simp only [Bank.bytes]; omega) is_top
      have step := exec_store (s := s) access
      rw [sp, add_pair, zero] at step
      have stored := @holds_storeAll_append 64 _ _ _ [f r, f r'] (by decide) rfl
        (by rw [behind, List.length_cons, List.length_cons, List.length_nil]; omega) holds
      rw [behind] at stored
      obtain ⟨along, sp', holds'⟩ := @pushPairs_spec
        ((Inst.transfer (.pair true .X .Signed r r' SP (16 * ((i : Int) + 1)))).exec s) top low it
        (vs ++ [f r, f r']) f (i + 1) (by rw [List.length_append, behind]; rfl) aligned (by omega)
        (by omega) (fun j => by rw [step, State.readX_setBase_SP]; exact values j)
        (by rw [step, setBase_sp])
        (by rw [is_top]; congr 1; omega)
        (by
          rw [step]
          show Holds (storeAll s.mem _ [s.readX r, s.readX r']) low _
          rw [values, values]
          exact stored)
      refine ⟨⟨safe, along⟩, sp', ?_⟩
      rw [List.append_assoc] at holds'
      exact holds'

/-- The loads before the last one read the frame upwards. -/
theorem popPairs_spec {s : State} {top low : BitVec 64} {it : List Nat} {vs : List (BitVec 64)}
    {f : Nat → BitVec 64} {i : Nat}
    (readable : f 31 = 0) (behind : vs.length = 2 * (i + 1)) (aligned : Aligned low)
    (even : it.length % 2 = 0) (room : 2 * (i + 1) + it.length ≤ 32) (sp : s.sp = low)
    (holds : Holds s.mem low (vs ++ it.map f)) :
    Along (SafeStep top low) (popPairs i it) s ∧ (run (popPairs i it) s).sp = low ∧
      (run (popPairs i it) s).mem = s.mem ∧
      ∀ r, r ∈ it ∨ s.readX r = f r → (run (popPairs i it) s).readX r = f r := by
  match it with
  | [] => exact ⟨trivial, sp, rfl, fun r h => h.resolve_left (by simp)⟩
  | [_] => simp at even
  | r :: r' :: it =>
      simp only [List.length_cons] at even room
      have access := access_pair false (show i < 16 by omega) r r'
      have zero : low + 0 = low := BitVec.add_zero low
      have safe : SafeStep top low s (.transfer _) :=
        safe_load access (by rw [sp, zero]; exact aligned)
      have step := exec_load (s := s) access
      rw [sp, add_pair, zero] at step
      rw [List.map_cons, List.map_cons,
        show vs ++ f r :: f r' :: it.map f = vs ++ [f r, f r'] ++ it.map f by simp] at holds
      have here := (holds_append.mp (holds_append.mp holds).1).2
      rw [behind] at here
      obtain ⟨mem, -, loaded⟩ := @State.loadAll_spec s .X (skip 64 low (2 * (i + 1))) [r, r'] f
        (fun _ => readable) here
      obtain ⟨along, sp', mem', restored⟩ := @popPairs_spec
        ((Inst.transfer (.pair false .X .Signed r r' SP (16 * ((i : Int) + 1)))).exec s) top low it
        (vs ++ [f r, f r']) f (i + 1) readable (by rw [List.length_append, behind]; rfl) aligned
        (by omega) (by omega) (by rw [step, setBase_sp])
        (by
          rw [step]
          show Holds (s.loadAll .X _ _).mem low _
          rw [mem]
          exact holds)
      refine ⟨⟨safe, along⟩, sp', mem'.trans ?_, fun j h => restored j ?_⟩
      · rw [step]
        exact mem
      · rw [step, State.readX_setBase_SP]
        by_cases later : j ∈ it
        · exact .inl later
        · refine .inr (loaded j (h.imp_left fun m => ?_))
          simpa [later] using m

/-- Whatever code runs in between, if it keeps the stack pointer and the memory between there and
where the stack pointer was before, `pop` restores the registers and the stack pointer; and every
instruction of both is a safe step. -/
def Restores (push pop : List Inst) (bank : Bank) (regs : List Nat) : Prop :=
  ∀ s s' : State, Aligned s.sp → s'.sp = (run push s).sp →
    (∀ b, Among (run push s).sp (s.sp - (run push s).sp).toNat b →
      s'.mem b = (run push s).mem b) →
    Along (SafeStep s.sp (run push s).sp) push s ∧ Along (SafeStep s.sp (run push s).sp) pop s' ∧
      (∀ r ∈ regs, (run pop s').read bank r = s.read bank r) ∧ (run pop s').sp = s.sp

section
variable {t : Transfer} {first it : List Nat} {m : Nat} {s : State}

/-- A frame of `16 * m` bytes that begins with one or two registers, and then has pairs. -/
theorem push_frame (access : t.access = ⟨true, .X, first, SP, -BitVec.ofNat 64 (16 * m),
      -BitVec.ofNat 64 (16 * m)⟩) (some : 0 < first.length) (few : first.length ≤ 2)
    (even : it.length % 2 = 0) (size : 2 + it.length = 2 * m) (small : m ≤ 16)
    (aligned : Aligned s.sp) :
    Along (SafeStep s.sp (s.sp - BitVec.ofNat 64 (16 * m))) (.transfer t :: pushPairs 0 it) s ∧
      (run (.transfer t :: pushPairs 0 it) s).sp = s.sp - BitVec.ofNat 64 (16 * m) ∧
      ∃ pad, pad.length + first.length = 2 ∧ Holds (run (.transfer t :: pushPairs 0 it) s).mem
        (s.sp - BitVec.ofNat 64 (16 * m)) (first.map s.readX ++ pad ++ it.map s.readX) := by
  have low : s.sp + -BitVec.ofNat 64 (16 * m) = s.sp - BitVec.ofNat 64 (16 * m) :=
    (BitVec.sub_eq_add_neg _ _).symm
  have top : s.sp = skip 64 (s.sp - BitVec.ofNat 64 (16 * m)) (2 * (0 + 1) + it.length) := by
    rw [skip, show 64 / 8 * (2 * (0 + 1) + it.length) = 16 * m by omega, BitVec.sub_add_cancel]
  have aligned' := aligned_sub aligned (show 16 * m % 16 = 0 by omega)
  have step := exec_store (s := s) access
  rw [low] at step
  generalize s.sp - BitVec.ofNat 64 (16 * m) = a at *
  have safe : SafeStep s.sp a s (.transfer t) :=
    safe_store aligned' access (by rw [low, skip_zero]) (by rw [low, skip_zero]) rfl
      (Nat.le_refl 0) (show 0 + first.length ≤ 2 * (0 + 1) + it.length by omega)
      (by simp only [Bank.bytes]; omega) top
  -- Where one register comes first, the place behind it holds what was there.
  obtain ⟨pad, length, holds⟩ : ∃ pad, pad.length + first.length = 2 ∧
      Holds ((Inst.transfer t).exec s).mem a (first.map s.readX ++ pad) := by
    have stored : Holds ((Inst.transfer t).exec s).mem a (first.map s.readX) := by
      rw [step]
      exact @holds_storeAll 64 s.mem a (first.map s.readX) (by decide) rfl
        (by rw [List.length_map]; omega)
    rcases Nat.lt_or_eq_of_le few with one | two
    · refine ⟨[load ((Inst.transfer t).exec s).mem 64 (skip 64 a first.length)], ?_, ?_⟩
      · rw [List.length_singleton]
        omega
      · refine holds_append.mpr ⟨stored, ?_⟩
        rw [List.length_map]
        exact ⟨rfl, trivial⟩
    · refine ⟨[], ?_, ?_⟩
      · rw [List.length_nil, Nat.zero_add, two]
      · rw [List.append_nil]
        exact stored
  obtain ⟨along, sp, holds'⟩ := pushPairs_spec (i := 0)
    (by rw [List.length_append, List.length_map]; omega) aligned' even (by omega)
    (fun r => by rw [step, State.readX_setBase_SP]) (by rw [step, setBase_sp]) top holds
  exact ⟨⟨safe, along⟩, sp, pad, length, holds'⟩

/-- The loads up to the last one. -/
theorem pop_frame {s' : State} {a : BitVec 64} {pad : List (BitVec 64)} {f : Nat → BitVec 64}
    (readable : f 31 = 0) (length : pad.length + first.length = 2) (even : it.length % 2 = 0)
    (size : 2 + it.length = 2 * m) (small : m ≤ 16) (aligned : Aligned a) (sp : s'.sp = a)
    (holds : Holds s'.mem a (first.map f ++ pad ++ it.map f)) {top : BitVec 64} :
    Along (SafeStep top a) (popPairs 0 it) s' ∧ (run (popPairs 0 it) s').sp = a ∧
      Holds (run (popPairs 0 it) s').mem a (first.map f) ∧
      ∀ r ∈ it, (run (popPairs 0 it) s').readX r = f r := by
  obtain ⟨along, sp', mem, restored⟩ := popPairs_spec (i := 0) readable
    (by rw [List.length_append, List.length_map]; omega) aligned even (by omega) sp holds
  refine ⟨along, sp', ?_, fun r h => restored r (.inl h)⟩
  rw [mem]
  exact (holds_append.mp (holds_append.mp holds).1).1

theorem restores_frame {t' : Transfer}
    (access : t.access = ⟨true, .X, first, SP, -BitVec.ofNat 64 (16 * m),
      -BitVec.ofNat 64 (16 * m)⟩)
    (access' : t'.access = ⟨false, .X, first, SP, 0, BitVec.ofNat 64 (16 * m)⟩)
    (some : 0 < first.length) (few : first.length ≤ 2) (even : it.length % 2 = 0)
    (size : 2 + it.length = 2 * m) (small : m ≤ 16) :
    Restores (.transfer t :: pushPairs 0 it) (popPairs 0 it ++ [Inst.transfer t']) .X
      (first ++ it) := by
  intro s s' aligned sp kept
  obtain ⟨along, low, pad, length, holds⟩ := push_frame access some few even size small aligned
  rw [low] at sp kept ⊢
  have height : (s.sp - (s.sp - BitVec.ofNat 64 (16 * m))).toNat = 16 * m := by
    rw [BitVec.toNat_sub, BitVec.toNat_sub, BitVec.toNat_ofNat]
    have := s.sp.isLt
    omega
  rw [height] at kept
  have holds := holds.congr (by decide) rfl
    (by simp only [List.length_append, List.length_map]; omega) fun b among => (kept b (by
      simp only [List.length_append, List.length_map] at among
      rwa [show 64 / 8 * (first.length + pad.length + it.length) = 16 * m by omega] at among)).symm
  have aligned' := aligned_sub aligned (show 16 * m % 16 = 0 by omega)
  obtain ⟨along', sp', last, restored⟩ := @pop_frame first it m s' _ pad s.readX
    (s.readable .X rfl) length even size small aligned' sp holds s.sp
  have back : s.sp - BitVec.ofNat 64 (16 * m) + BitVec.ofNat 64 (16 * m) = s.sp :=
    BitVec.sub_add_cancel _ _
  have zero : s.sp - BitVec.ofNat 64 (16 * m) + 0 = s.sp - BitVec.ofNat 64 (16 * m) :=
    BitVec.add_zero _
  have step := exec_load (s := run (popPairs 0 it) s') access'
  rw [sp', back, zero] at step
  refine ⟨along, along_append.mpr ⟨along', safe_load access' (by rw [sp', back]; exact aligned),
    trivial⟩, fun r member => ?_, ?_⟩
  · obtain ⟨-, -, loaded⟩ := @State.loadAll_spec (run (popPairs 0 it) s') .X _ first s.readX
      (s.readable .X) last
    rw [run_append, run, run, step, State.read_setBase_SP]
    exact loaded r ((List.mem_append.mp member).imp_right (restored r))
  · rw [run_append, run, run, step, setBase_sp]

end

theorem bits_length (registers : BitVec 32) : (bits registers).length ≤ 32 :=
  (List.length_filter_le _ _).trans (Nat.le_of_eq List.length_range)

/-- The fields of the first store and the last load of a frame. -/
theorem access_first (m : Nat) (small : m ≤ 16) (a b : Nat) :
    (Transfer.pair true .X .Pre a b SP (-((16 * m : Nat) : Int))).access =
      ⟨true, .X, [a, b], SP, -BitVec.ofNat 64 (16 * m), -BitVec.ofNat 64 (16 * m)⟩ ∧
    (Transfer.single true .X .Pre a SP (-((16 * m : Nat) : Int))).access =
      ⟨true, .X, [a], SP, -BitVec.ofNat 64 (16 * m), -BitVec.ofNat 64 (16 * m)⟩ ∧
    (Transfer.pair false .X .Post a b SP ((16 * m : Nat) : Int)).access =
      ⟨false, .X, [a, b], SP, 0, BitVec.ofNat 64 (16 * m)⟩ := by
  have pair := pairOffset_neg m (by omega)
  have post := pairOffset_pos m (by omega)
  have indexed := indexedOffset_neg m (by omega)
  refine ⟨?_, ?_, ?_⟩
  · rw [Transfer.access, pair]
    rfl
  · rw [Transfer.access, indexed]
    rfl
  · rw [Transfer.access, post]
    rfl

/-- A frame for 31 registers is as large as no post-index is: the last load reads it as its
negative. -/
theorem restores_general_iff (registers : BitVec 32) :
    Restores (ABI_PushRegisters registers) (ABI_PopRegisters registers) .X (bits registers) ↔
      (bits registers).length ≠ 31 := by
  have le := bits_length registers
  unfold ABI_PushRegisters ABI_PopRegisters stackSize
  generalize bits registers = regs at *
  dsimp only
  rcases Nat.mod_two_eq_zero_or_one regs.length with even | odd
  · match regs with
    | [] =>
        refine iff_of_true (fun s s' aligned sp _ => ⟨trivial, trivial, ?_, sp⟩) (by decide)
        simp
    | [_] => cases even
    | a :: b :: it =>
        rw [even]
        simp only [List.length_cons] at even le ⊢
        obtain ⟨m, size⟩ : ∃ m, 2 + it.length = 2 * m := ⟨(2 + it.length) / 2, by omega⟩
        rw [show (it.length + 1 + 1 + 0) * 8 = 16 * m by omega]
        obtain ⟨push, -, pop⟩ := access_first m (by omega) a b
        exact iff_of_true (restores_frame push pop (Nat.succ_pos 1) (Nat.le_refl 2) (by omega) size
          (by omega)) (by omega)
  · match regs with
    | [] => cases odd
    | a :: it =>
        rw [odd]
        simp only [List.length_cons] at odd le ⊢
        obtain ⟨m, size⟩ : ∃ m, 2 + it.length = 2 * m := ⟨(2 + it.length) / 2, by omega⟩
        rw [show (it.length + 1 + 1) * 8 = 16 * m by omega]
        obtain ⟨-, push, -⟩ := access_first m (by omega) a a
        constructor
        · intro restores all
          obtain rfl : m = 16 := by omega
          let s : State := ⟨fun _ => 0, fun _ => 0, fun _ => 0⟩
          have aligned : Aligned s.sp := rfl
          obtain ⟨-, low, pad, length, holds⟩ :=
            push_frame push (Nat.succ_pos 0) (Nat.le_succ 1) (by omega) size (by omega) aligned
          obtain ⟨-, -, -, sp⟩ := restores s _ aligned rfl fun _ _ => rfl
          obtain ⟨-, sp', -, -⟩ := @pop_frame [a] it 16 _ _ pad s.readX rfl length (by omega) size
            (by omega) (aligned_sub aligned rfl) low holds s.sp
          have last : (Transfer.single false .X .Post a SP ((16 * 16 : Nat) : Int)).access =
              ⟨false, .X, [a], SP, 0, -BitVec.ofNat 64 256⟩ := by
            rw [Transfer.access, show indexedOffset ((16 * 16 : Nat) : Int) =
              -BitVec.ofNat 64 256 by decide]
            rfl
          rw [run_append, run, run, LDR, exec_load last, setBase_sp] at sp
          have wrong : s.sp - BitVec.ofNat 64 (16 * 16) + -BitVec.ofNat 64 256 = s.sp := by
            rw [← sp']
            exact sp
          exact absurd wrong (by decide)
        · intro few
          refine restores_frame push ?_ (Nat.succ_pos 0) (Nat.le_succ 1) (by omega) size (by omega)
          rw [Transfer.access, indexedOffset_pos m (by omega)]
          rfl

/-! ## The vector registers in pairs -/

namespace FloatEmitter

/-- The pairs in the order they stand in memory: the last one is stored lowest. -/
def memoryOrder : List Nat → List Nat
  | a :: b :: it => memoryOrder it ++ [a, b]
  | [a] => [a]
  | [] => []

theorem memoryOrder_perm : ∀ regs : List Nat, (memoryOrder regs).Perm regs
  | a :: b :: it => (@List.perm_append_comm _ (memoryOrder it) [a, b]).trans
      (((memoryOrder_perm it).cons b).cons a)
  | [a] => .refl [a]
  | [] => .refl []

/-- The loads in the order in which the frame is popped. -/
def popOrdered : List Nat → List Inst
  | a :: b :: it => popOrdered it ++ [LDP .Q .Post a b SP 32]
  | [a] => [LDR .Q .Post a SP 16]
  | [] => []

theorem popPairwise_append : ∀ l m : List Nat, popPairwise (l.length % 2 = 1) [] (l ++ m) =
    popPairwise (l.length % 2 = 1) [] l ++ popPairwise false [] m := by
  have pairs : ∀ (n : Nat) (l m : List Nat), l.length = 2 * n →
      popPairwise false [] (l ++ m) = popPairwise false [] l ++ popPairwise false [] m := by
    intro n
    induction n with
    | zero =>
        intro l m none
        rw [List.eq_nil_of_length_eq_zero none]
        rfl
    | succ n ih =>
        intro l m some
        match l with
        | [] | [_] => simp at some; try omega
        | b :: a :: l =>
            simp only [List.length_cons] at some
            have rest := ih l m (by omega)
            simp only [List.cons_append, popPairwise, rest, Bool.false_eq_true, if_false]
  intro l m
  rcases Nat.mod_two_eq_zero_or_one l.length with even | odd
  · simp only [even]
    exact pairs (l.length / 2) l m (by omega)
  · match l with
    | [] => cases odd
    | c :: l =>
        simp only [odd]
        simp only [List.length_cons] at odd
        have rest := pairs (l.length / 2) l m (by omega)
        simp only [List.cons_append, popPairwise, rest, decide_true, if_true]

theorem popPairwise_eq : ∀ regs : List Nat,
    popPairwise (regs.length % 2 = 1) [] regs.reverse = popOrdered regs
  | a :: b :: it => by
      have parity : (a :: b :: it).length % 2 = it.reverse.length % 2 := by
        simp only [List.length_cons, List.length_reverse]
        omega
      have rest := popPairwise_eq it
      have both := popPairwise_append it.reverse [b, a]
      rw [List.reverse_cons, List.reverse_cons, List.append_assoc, parity]
      rw [List.length_reverse] at both ⊢
      exact both.trans (by rw [rest]; rfl)
  | [a] => rfl
  | [] => rfl

theorem access_descend (a b : Nat) :
    (Transfer.pair true .Q .Pre a b SP (-32)).access =
      ⟨true, .Q, [a, b], SP, -BitVec.ofNat 64 32, -BitVec.ofNat 64 32⟩ ∧
    (Transfer.single true .Q .Pre a SP (-16)).access =
      ⟨true, .Q, [a], SP, -BitVec.ofNat 64 16, -BitVec.ofNat 64 16⟩ := by
  have pair : pairOffset .Q (-32) = -BitVec.ofNat 64 32 := by decide
  have single : indexedOffset (-16) = -BitVec.ofNat 64 16 := by decide
  constructor
  · rw [Transfer.access, pair]
    rfl
  · rw [Transfer.access, single]
    rfl

/-- A post-indexed transfer, as both emitters of the vector registers use it. -/
theorem access_ascend (store : Bool) (a b Rn : Nat) :
    (Transfer.pair store .Q .Post a b Rn 32).access =
      ⟨store, .Q, [a, b], Rn, 0, BitVec.ofNat 64 (16 * 2)⟩ ∧
    (Transfer.single store .Q .Post a Rn 16).access =
      ⟨store, .Q, [a], Rn, 0, BitVec.ofNat 64 (16 * 1)⟩ := by
  have pair : pairOffset .Q 32 = BitVec.ofNat 64 (16 * 2) := by decide
  have single : indexedOffset 16 = BitVec.ofNat 64 (16 * 1) := by decide
  constructor
  · rw [Transfer.access, pair]
    rfl
  · rw [Transfer.access, single]
    rfl

/-- Code of post-indexed transfers, and the registers they transfer one after the other. -/
inductive Ascends (store : Bool) (base : Nat) : List Inst → List Nat → Prop
  | nil : Ascends store base [] []
  | cons {t : Transfer} {regs : List Nat} {code : List Inst} {rest : List Nat}
      (access : t.access = ⟨store, .Q, regs, base, 0, BitVec.ofNat 64 (16 * regs.length)⟩)
      (later : Ascends store base code rest) :
      Ascends store base (.transfer t :: code) (regs ++ rest)

theorem Ascends.append {store : Bool} {base : Nat} {code code' : List Inst} {regs regs' : List Nat}
    (first : Ascends store base code regs) (second : Ascends store base code' regs') :
    Ascends store base (code ++ code') (regs ++ regs') := by
  induction first with
  | nil => exact second
  | cons access later ih =>
      rw [List.append_assoc]
      exact .cons access ih

theorem ascends_popOrdered : ∀ regs, Ascends false SP (popOrdered regs) (memoryOrder regs)
  | a :: b :: it => (ascends_popOrdered it).append
      (.cons (access_ascend false a b SP).1 .nil)
  | [a] => .cons (access_ascend false a a SP).2 .nil
  | [] => .nil

theorem ascends_islands (store : Bool) (Rn : Nat) :
    ∀ regs, Ascends store Rn (islandTransfers store Rn regs) regs
  | a :: b :: it => .cons (access_ascend store a b Rn).1 (ascends_islands store Rn it)
  | [a] => .cons (access_ascend store a a Rn).2 .nil
  | [] => .nil

/-- The registers in the order the bundled transfers have them: the ones that stand alone last. -/
def bundledOrder (registers : BitVec 32) : List Nat :=
  ((groups registers 32 0).filter (·.2 ≠ 1)).flatMap (fun g => List.range' g.1 g.2) ++
    ((groups registers 32 0).filter (·.2 = 1)).map Prod.fst

theorem ascends_bundled (store : Bool) (registers : BitVec 32) (Rn : Nat) :
    Ascends store Rn (bundledTransfers store registers Rn) (bundledOrder registers) := by
  refine Ascends.append ?_ (ascends_islands store Rn _)
  generalize (groups registers 32 0).filter (·.2 ≠ 1) = gs
  induction gs with
  | nil => exact .nil
  | cons g gs ih =>
      refine @Ascends.cons store Rn _ (List.range' g.1 g.2) _ _ ?_ ih
      rw [List.length_range']
      rfl

theorem runCount_spec {registers : BitVec 32} {i : Nat} (set : registers.getLsbD i = true)
    (lt : i < 32) : 0 < runCount registers i ∧ i + runCount registers i ≤ 32 ∧
      ∀ j < runCount registers i, registers.getLsbD (i + j) = true := by
  unfold runCount
  simp only [Bool.and_eq_true, decide_eq_true_eq]
  split
  · next one =>
    split
    · next two =>
      split
      · next three =>
        refine ⟨by omega, by omega, fun j hj => ?_⟩
        obtain rfl | rfl | rfl | rfl : j = 0 ∨ j = 1 ∨ j = 2 ∨ j = 3 := by omega
        exacts [set, one.2, two.2, three.2]
      · refine ⟨by omega, by omega, fun j hj => ?_⟩
        obtain rfl | rfl | rfl : j = 0 ∨ j = 1 ∨ j = 2 := by omega
        exacts [set, one.2, two.2]
    · refine ⟨by omega, by omega, fun j hj => ?_⟩
      obtain rfl | rfl : j = 0 ∨ j = 1 := by omega
      exacts [set, one.2]
  · refine ⟨by omega, by omega, fun j hj => ?_⟩
    obtain rfl : j = 0 := by omega
    exact set

/-- The groups are the whole set, in order. -/
theorem groups_flatMap (registers : BitVec 32) {fuel i : Nat} (enough : 32 ≤ i + fuel) :
    (groups registers fuel i).flatMap (fun g => List.range' g.1 g.2) =
      (List.range' i (32 - i)).filter (registers.getLsbD ·) := by
  induction fuel generalizing i with
  | zero => rw [groups, show 32 - i = 0 by omega]; rfl
  | succ fuel ih =>
      unfold groups
      split
      · next done => rw [show 32 - i = 0 by omega]; rfl
      · next more =>
        split
        · next set =>
          obtain ⟨some, inside, run⟩ := runCount_spec set (by omega)
          have all : (List.range' i (runCount registers i)).filter (registers.getLsbD ·) =
              List.range' i (runCount registers i) := by
            refine List.filter_eq_self.mpr fun j member => ?_
            rw [List.mem_range'_1] at member
            have bit := run (j - i) (by omega)
            rwa [show i + (j - i) = j by omega] at bit
          rw [List.flatMap_cons, ih (by omega),
            show 32 - i = runCount registers i + (32 - (i + runCount registers i)) by omega,
            ← List.range'_append_1, List.filter_append, all]
        · next clear =>
          rw [ih (by omega), show 32 - i = 32 - (i + 1) + 1 by omega, List.range'_succ,
            List.filter_cons_of_neg (by simpa using clear)]

theorem bundledOrder_perm (registers : BitVec 32) :
    (bundledOrder registers).Perm (bits registers) := by
  have all := @groups_flatMap registers 32 0 (by omega)
  have alone : ((groups registers 32 0).filter (·.2 = 1)).map Prod.fst =
      ((groups registers 32 0).filter (·.2 = 1)).flatMap (fun g => List.range' g.1 g.2) := by
    generalize groups registers 32 0 = gs
    induction gs with
    | nil => rfl
    | cons g gs ih =>
        by_cases one : g.2 = 1
        · rw [List.filter_cons_of_pos (by simpa using one), List.map_cons, List.flatMap_cons,
            ih, one]
          rfl
        · rw [List.filter_cons_of_neg (by simpa using one), ih]
  have split := List.filter_append_perm (fun g : Nat × Nat => decide (g.2 ≠ 1))
    (groups registers 32 0)
  have flat := split.flatMap_right (fun g => List.range' g.1 g.2)
  rw [List.flatMap_append, all, Nat.sub_zero, ← List.range_eq_range'] at flat
  rw [bundledOrder, alone]
  have same : (groups registers 32 0).filter (fun g => !decide (g.2 ≠ 1)) =
      (groups registers 32 0).filter (·.2 = 1) :=
    List.filter_congr fun g _ => by simp
  rw [same] at flat
  exact flat

section
variable {s : State} {code : List Inst} {regs : List Nat} {f : Nat → BitVec 128}
  {top low : BitVec 64}

/-- Loads that follow each other through the stack pointer. -/
theorem run_ascends_load (ascends : Ascends false SP code regs) (aligned : Aligned s.sp)
    (holds : Holds s.mem s.sp (regs.map f)) :
    Along (SafeStep top low) code s ∧ (run code s).sp = skip 128 s.sp regs.length ∧
      ∀ r, r ∈ regs ∨ s.q r = f r → (run code s).q r = f r := by
  induction ascends generalizing s with
  | nil => exact ⟨trivial, (skip_zero s.sp).symm, fun r h => h.resolve_left (by simp)⟩
  | @cons t regs code rest access later ih =>
      have zero : s.sp + 0 = s.sp := BitVec.add_zero _
      have next : s.sp + BitVec.ofNat 64 (16 * regs.length) = skip 128 s.sp regs.length := rfl
      have step := exec_load (s := s) access
      rw [zero, next] at step
      rw [List.map_append, holds_append, List.length_map] at holds
      obtain ⟨mem, -, loaded⟩ := @State.loadAll_spec s .Q s.sp regs f nofun holds.1
      have aligned' : Aligned (skip 128 s.sp regs.length) := aligned_skip aligned (by omega)
      have sp : ((Inst.transfer t).exec s).sp = skip 128 s.sp regs.length := by
        rw [step, setBase_sp]
      obtain ⟨along, sp', restored⟩ := @ih ((Inst.transfer t).exec s) (by rw [sp]; exact aligned')
        (by
          rw [sp, step]
          show Holds (s.loadAll .Q s.sp regs).mem _ _
          rw [mem]
          exact holds.2)
      refine ⟨⟨safe_load access (by rw [next]; exact aligned'), along⟩, ?_, fun r h => ?_⟩
      · rw [run, sp', sp, skip_add, List.length_append]
      · refine restored r ?_
        by_cases member : r ∈ rest
        · exact .inl member
        · refine .inr ?_
          rw [step]
          exact loaded r (h.imp_left fun m => (List.mem_append.mp m).resolve_right member)

/-- Stores that follow each other through another register fill the frame above the stack
pointer. -/
theorem run_ascends_store {base total : Nat} (other : base ≠ SP)
    (ascends : Ascends true base code regs) (aligned : Aligned low) (values : ∀ r, s.q r = f r)
    (sp : s.sp = low) {vs : List (BitVec 128)} (at_ : s.x base = skip 128 low vs.length)
    (holds : Holds s.mem low vs)
    (room : vs.length + regs.length ≤ total) (fits : total ≤ 32)
    (is_top : top = skip 128 low total) :
    Along (SafeStep top low) code s ∧ (run code s).sp = low ∧
      Holds (run code s).mem low (vs ++ regs.map f) := by
  induction ascends generalizing s vs with
  | nil => exact ⟨trivial, sp, by rw [List.map_nil, List.append_nil]; exact holds⟩
  | @cons t regs code rest access later ih =>
      have step : (Inst.transfer t).exec s =
          { s with mem := storeAll s.mem (s.x base + 0) (regs.map s.q) }.setBase base
            (s.x base + BitVec.ofNat 64 (16 * regs.length)) := by
        rw [Inst.exec, access]
        rfl
      have zero : skip 128 low vs.length + 0 = skip 128 low vs.length := BitVec.add_zero _
      have next : skip 128 low vs.length + BitVec.ofNat 64 (16 * regs.length) =
          skip 128 (skip 128 low vs.length) regs.length := rfl
      rw [at_, zero, next, skip_add] at step
      have stays : ((Inst.transfer t).exec s).sp = low := by
        rw [step]
        exact (if_neg other.symm).trans sp
      rw [List.length_append] at room
      have values' : regs.map s.q = regs.map f := List.map_congr_left fun r _ => values r
      have stored := @holds_storeAll_append 128 _ _ _ (regs.map f) (by decide) rfl
        (by rw [List.length_map]; omega) holds
      obtain ⟨along, sp', holds'⟩ := @ih ((Inst.transfer t).exec s)
        (fun r => by rw [step]; exact values r) stays (vs ++ regs.map f)
        (by
          rw [step, List.length_append, List.length_map]
          exact if_pos rfl)
        (by
          rw [step]
          show Holds (storeAll s.mem _ (regs.map s.q)) low _
          rw [values']
          exact stored)
        (by rw [List.length_append, List.length_map]; omega)
      refine ⟨⟨⟨by rw [stays]; exact aligned, ?_⟩, along⟩, sp', ?_⟩
      · rintro b ⟨-, writes⟩
        rw [access] at writes
        have writes : Among (s.x base + 0) (16 * regs.length) b := writes
        rw [at_, zero] at writes
        have height : (top - low).toNat = 16 * total := by
          have all := @skip_sub 128 low 0 total (Nat.zero_le _) (by omega)
          rwa [skip_zero, ← is_top] at all
        have inside := @among_skip 128 low b vs.length regs.length total (by omega) (by omega)
          writes
        rw [stays, height]
        exact ⟨inside, inside⟩
      · rw [List.map_append, ← List.append_assoc]
        exact holds'

/-- One push of a register or two, below what is in the frame already. -/
theorem descend_step {t : Transfer} {acc : List (BitVec 128)} {k total : Nat}
    (access : t.access = ⟨true, .Q, regs, SP, -BitVec.ofNat 64 (16 * regs.length),
      -BitVec.ofNat 64 (16 * regs.length)⟩)
    (aligned : Aligned low) (values : ∀ r, s.q r = f r)
    (sp : s.sp = skip 128 low (k + regs.length)) (holds : Holds s.mem s.sp acc)
    (room : k + regs.length + acc.length = total) (fits : total ≤ 32) :
    SafeStep (skip 128 low total) low s (.transfer t) ∧
      ((Inst.transfer t).exec s).sp = skip 128 low k ∧
      Holds ((Inst.transfer t).exec s).mem (skip 128 low k) (regs.map f ++ acc) ∧
      ∀ r, ((Inst.transfer t).exec s).q r = f r := by
  have down : s.sp + -BitVec.ofNat 64 (16 * regs.length) = skip 128 low k := by
    rw [sp, ← skip_add, ← BitVec.sub_eq_add_neg]
    exact BitVec.add_sub_cancel _ _
  have step := exec_store (s := s) access
  rw [down] at step
  have values' : regs.map s.q = regs.map f := List.map_congr_left fun r _ => values r
  refine ⟨safe_store aligned access down down (by simp only [Bank.bytes]; omega) (Nat.le_refl k)
    (by omega) (by simp only [Bank.bytes]; omega) rfl, by rw [step, setBase_sp], ?_, fun r => ?_⟩
  · rw [step]
    show Holds (storeAll s.mem _ (regs.map s.q)) _ _
    rw [values']
    rw [sp, ← skip_add] at holds
    refine holds_append.mpr ⟨holds_storeAll _ _ (by decide) rfl
      (by rw [List.length_map]; omega), ?_⟩
    rw [List.length_map]
    refine holds.congr (by decide) rfl (by omega) fun b among => ?_
    refine (storeAll_of_not_among (by rw [List.length_map]; omega) ?_).symm
    rw [List.length_map]
    exact not_among_skip (by omega) (Nat.le_refl _) among
  · rw [step]
    exact values r

/-- Pairs that are pushed one below the other. -/
theorem run_pushPairwise {s : State} {regs : List Nat} {f : Nat → BitVec 128} {low : BitVec 64}
    {acc : List (BitVec 128)} {total : Nat} (aligned : Aligned low) (values : ∀ r, s.q r = f r)
    (sp : s.sp = skip 128 low regs.length) (holds : Holds s.mem s.sp acc)
    (room : regs.length + acc.length = total) (fits : total ≤ 32) :
    Along (SafeStep (skip 128 low total) low) (pushPairwise regs) s ∧
      (run (pushPairwise regs) s).sp = low ∧
      Holds (run (pushPairwise regs) s).mem low ((memoryOrder regs).map f ++ acc) := by
  match regs with
  | [] =>
      have sp : s.sp = low := sp.trans (skip_zero low)
      exact ⟨trivial, sp, by rw [← sp]; exact holds⟩
  | [a] =>
      obtain ⟨safe, sp', holds', -⟩ := descend_step (k := 0) (access_descend a a).2 aligned values
        sp holds (by simpa using room) fits
      rw [skip_zero] at sp' holds'
      exact ⟨⟨safe, trivial⟩, sp', holds'⟩
  | a :: b :: it =>
      obtain ⟨safe, sp', holds', values'⟩ := descend_step (k := it.length) (access_descend a b).1
        aligned values sp holds room fits
      obtain ⟨along, bottom, all⟩ := run_pushPairwise aligned values' sp'
        (by rw [sp']; exact holds') (by
          simp only [List.length_cons, List.length_append, List.length_nil, List.length_map]
            at room ⊢
          omega) fits
      refine ⟨⟨safe, along⟩, bottom, ?_⟩
      rw [memoryOrder, List.map_append, List.append_assoc]
      exact all

end

/-- Code that leaves the registers in this order in a frame of their size, and loads that follow
that order. -/
theorem restores_of_frame {push pop : List Inst} {order regs : List Nat}
    (perm : order.Perm regs) (few : regs.length ≤ 32) (loads : Ascends false SP pop order)
    (saves : ∀ (s : State) (low : BitVec 64), Aligned low → s.sp = skip 128 low order.length →
      Along (SafeStep s.sp low) push s ∧ (run push s).sp = low ∧
        Holds (run push s).mem low (order.map s.q)) :
    Restores push pop .Q regs := by
  intro s s' aligned sp kept
  rw [← perm.length_eq] at few
  have top : s.sp = skip 128 (s.sp - BitVec.ofNat 64 (16 * order.length)) order.length := by
    rw [skip, show 128 / 8 * order.length = 16 * order.length by omega, BitVec.sub_add_cancel]
  have aligned' : Aligned (s.sp - BitVec.ofNat 64 (16 * order.length)) :=
    aligned_sub aligned (by omega)
  generalize s.sp - BitVec.ofNat 64 (16 * order.length) = low at *
  obtain ⟨along, bottom, holds⟩ := saves s low aligned' top
  have height : (s.sp - low).toNat = 16 * order.length := by
    have all := @skip_sub 128 low 0 order.length (Nat.zero_le _) (by omega)
    rwa [skip_zero, ← top] at all
  rw [bottom] at sp kept ⊢
  rw [height] at kept
  have holds := holds.congr (by decide) rfl (by rw [List.length_map]; omega)
    fun b among => (kept b (by rwa [List.length_map] at among)).symm
  obtain ⟨along', sp', restored⟩ := @run_ascends_load s' pop order s.q s.sp low loads
    (by rw [sp]; exact aligned') (by rw [sp]; exact holds)
  refine ⟨along, along', fun r member => restored r (.inl (perm.mem_iff.mpr member)), ?_⟩
  rw [sp', sp, ← top]

theorem restores_pairwise (regs : List Nat) (few : regs.length ≤ 32) :
    Restores (pushPairwise regs) (popPairwise (regs.length % 2 = 1) [] regs.reverse) .Q regs := by
  rw [popPairwise_eq]
  refine restores_of_frame (memoryOrder_perm regs) few (ascends_popOrdered regs) ?_
  intro s low aligned top
  rw [(memoryOrder_perm regs).length_eq] at top
  have pushed := @run_pushPairwise s regs s.q low [] regs.length aligned (fun _ => rfl) top
    trivial (Nat.add_zero _) few
  rw [List.append_nil, ← top] at pushed
  exact pushed

theorem restores_bundled (registers : BitVec 32) (tmp : Fin 31) :
    Restores (.addSub true SP SP ((bits registers).length * 16) :: .addSub false tmp SP 0 ::
      bundledTransfers true registers tmp) (bundledTransfers false registers SP) .Q
      (bits registers) := by
  have few := bits_length registers
  refine restores_of_frame (bundledOrder_perm registers) few
    (ascends_bundled false registers SP) ?_
  intro s low aligned top
  have other : (tmp : Nat) ≠ SP := Nat.ne_of_lt tmp.isLt
  have size := (bundledOrder_perm registers).length_eq
  have imm : (BitVec.ofNat 12 ((bits registers).length * 16)).setWidth 64 =
      BitVec.ofNat 64 (16 * (bits registers).length) := by
    apply BitVec.eq_of_toNat_eq
    rw [BitVec.toNat_setWidth, BitVec.toNat_ofNat, BitVec.toNat_ofNat]
    omega
  have reserve : ((Inst.addSub true SP SP ((bits registers).length * 16)).exec s).sp = low := by
    rw [Inst.exec, if_pos rfl, setBase_sp, imm, ← size]
    exact (congrArg (· - _) top).trans (BitVec.add_sub_cancel _ _)
  generalize first : (Inst.addSub true SP SP ((bits registers).length * 16)).exec s = s1 at reserve
  have q : s1.q = s.q := by rw [← first]; rfl
  have point : ((Inst.addSub false tmp SP 0).exec s1).x tmp = low := by
    refine (if_pos rfl).trans ?_
    rw [show s1.x SP = low from reserve]
    exact BitVec.add_zero _
  have stays : ((Inst.addSub false tmp SP 0).exec s1).sp = low := (if_neg other.symm).trans reserve
  have still : ((Inst.addSub false tmp SP 0).exec s1).q = s.q := q
  obtain ⟨along, bottom, holds⟩ := @run_ascends_store
    ((Inst.addSub false tmp SP 0).exec s1) _ _ s.q s.sp low tmp (bundledOrder registers).length
    other (ascends_bundled true registers tmp) aligned (fun r => congrFun still r) stays []
    (by rw [point]; exact (skip_zero _).symm) trivial (by simp) (by omega) top
  rw [Along, Along, run, run, first]
  exact ⟨⟨⟨by rw [first, reserve]; exact aligned, nofun⟩,
    ⟨by rw [stays]; exact aligned, nofun⟩, along⟩, bottom, holds⟩

/-- Whatever the layout, both sides choose the same one. -/
theorem restores (registers : BitVec 32) (tmp : Option (Fin 31)) :
    Restores (ABI_PushRegisters registers tmp) (ABI_PopRegisters registers tmp) .Q
      (bits registers) := by
  have few := bits_length registers
  unfold ABI_PushRegisters ABI_PopRegisters
  cases bundled_loadstore registers with
  | false => exact restores_pairwise _ few
  | true =>
      cases tmp with
      | none => exact restores_pairwise _ few
      | some tmp => exact restores_bundled registers tmp

end FloatEmitter

/-- Vector registers always come back; general purpose registers do unless there are 31 of them. -/
theorem restores_exactly (registers : BitVec 32) (tmp : Option (Fin 31)) :
    (Restores (ABI_PushRegisters registers) (ABI_PopRegisters registers) .X (bits registers) ↔
      (bits registers).length ≠ 31) ∧
    Restores (FloatEmitter.ABI_PushRegisters registers tmp)
      (FloatEmitter.ABI_PopRegisters registers tmp) .Q (bits registers) :=
  ⟨restores_general_iff registers, FloatEmitter.restores registers tmp⟩

/-- `X0` to `X30`, all that there are. -/
theorem not_restores_all : ¬ Restores (ABI_PushRegisters 0x7FFFFFFF) (ABI_PopRegisters 0x7FFFFFFF)
    .X (bits 0x7FFFFFFF) :=
  fun restores => (restores_general_iff _).mp restores (by decide)

end Phocoena.Arm64Emitter
