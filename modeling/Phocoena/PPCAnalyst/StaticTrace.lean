import Phocoena.PPCAnalyst.TracedSteps
import Phocoena.Common.RangeSizeSet
import Mathlib.Tactic.SplitIfs

/-! # The static trace

The operations that the analyzer reads are the path of the interpreter, as long as it takes no
conditional branch and no exception.
-/

namespace Phocoena.PPCAnalyst

open Gekko Gekko.Interpreter

/-! ## The interpreter on a trace -/

section
variable (other : Nat → Handler)

/-- Interprets the instructions from step `k` on; there is no result when an exception is raised or
a conditional branch is taken. What `other` does at a step may depend on registers outside the
model. -/
def interpret : Nat → List UGeckoInstruction → Machine → Option Machine
  | _, [], m => some m
  | k, inst :: insts, m =>
    if takesConditional inst m then none
    else (runInterpreterOp (other k) inst m).bind (interpret (k + 1) insts)

theorem interpret_append_singleton {k : Nat} {insts : List UGeckoInstruction}
    {inst : UGeckoInstruction} {m m' : Machine}
    (run : interpret other k (insts ++ [inst]) m = some m') :
    ∃ m₁, interpret other k insts m = some m₁ ∧ takesConditional inst m₁ = false ∧
      runInterpreterOp (other (k + insts.length)) inst m₁ = some m' := by
  induction insts generalizing k m with
  | nil =>
      rw [List.nil_append, interpret] at run
      split at run
      · cases run
      · next quiet =>
        obtain ⟨m₁, step, rest⟩ := Option.bind_eq_some_iff.mp run
        cases rest
        exact ⟨m, rfl, Bool.not_eq_true _ ▸ quiet, step⟩
  | cons first insts ih =>
      rw [List.cons_append, interpret] at run
      split at run
      · cases run
      · next quiet =>
        obtain ⟨m₁, step, rest⟩ := Option.bind_eq_some_iff.mp run
        obtain ⟨m₂, before, still, last⟩ := ih rest
        refine ⟨m₂, ?_, still, ?_⟩
        · rw [interpret, if_neg quiet, step]
          exact before
        · rw [List.length_cons, Nat.add_comm insts.length 1, ← Nat.add_assoc]
          exact last

end

/-! ## The reading loop with its counts -/

/-- The reading loop ends or goes on behind an operation. -/
inductive Turn where
  | stop (st : Reading) (read : List CodeOp)
  | go (st : Reading) (read : List CodeOp)

/-- What the reading loop has when it ends. -/
structure ReadBlock where
  code : List CodeOp
  reading : Reading
  physicalAddresses : List Range

section
variable (a : PPCAnalyzer) (env : Env)

/-- One turn of the reading loop, for an instruction that it has read. -/
def PPCAnalyzer.readTurn (blockSize : Nat) (inst : UGeckoInstruction) (st : Reading)
    (code : List CodeOp) : Turn :=
  let opinfo := getOpInfo inst
  let stats := a.setInstructionStats st.fpaAny (.fresh inst opinfo st.address) opinfo
  let followed := a.follow blockSize code stats.1 { st with fpaAny := stats.2 }
  let op := followed.2.2.1
  let st := followed.2.2.2
  let read := followed.2.1 ++ [op]
  if followed.1 && st.numFollows < branchFollowingThreshold then
    .go { st with numFollows := st.numFollows + 1, address := op.branchTo } read
  else if !a.conditionalContinue inst && op.canEndBlock then .stop st read
  else
    .go { st with
      address := st.address + 4
      foundCall := st.foundCall && !a.conditionalContinue inst } read

/-- The reading loop with the addresses that it inserts; `physicalAddress` is the one that
`TryReadInstruction` returns. -/
def PPCAnalyzer.readCounted (physicalAddress : BitVec 32 → BitVec 32) (blockSize : Nat) :
    Nat → Reading → List CodeOp → List Range → ReadBlock
  | 0, st, code, addresses => ⟨code, st, addresses⟩
  | more + 1, st, code, addresses =>
    match env.tryReadInstruction st.address with
    | none => ⟨code, st, addresses⟩
    | some inst =>
      let physical := physicalAddress st.address
      let addresses := RangeSet.insert addresses physical.toNat (physical + 4).toNat
      match a.readTurn blockSize inst st code with
      | .stop st read => ⟨read, st, addresses⟩
      | .go st read => readCounted physicalAddress blockSize more st read addresses

/-- It reads the operations of `readInstructions`. -/
theorem readCounted_code (physicalAddress : BitVec 32 → BitVec 32) (blockSize more : Nat)
    (st : Reading) (code : List CodeOp) (addresses : List Range) :
    (a.readCounted env physicalAddress blockSize more st code addresses).code =
      a.readInstructions env blockSize more st code := by
  induction more generalizing st code addresses with
  | zero => rfl
  | succ more ih =>
      rw [PPCAnalyzer.readCounted, PPCAnalyzer.readInstructions]
      cases env.tryReadInstruction st.address with
      | none => rfl
      | some inst =>
          dsimp only
          rw [PPCAnalyzer.readTurn]
          split_ifs
          · exact ih _ _ _
          · rfl
          · exact ih _ _ _

end

/-! ## Following a branch -/

/-- A branch whose return address goes to LR, whatever the registers hold. -/
def isCall (inst : UGeckoInstruction) : Bool :=
  (inst.opcd == 18 || inst.opcd == 16 && always inst) && inst.lk

/-- The call at `caller` pushes no return address. -/
def markCall (code : List CodeOp) (caller : Nat) : List CodeOp :=
  code.modify caller fun c => { c with skipLRStack := true }

/-- What `follow` does with a branch. -/
inductive Followed (a : PPCAnalyzer) (code : List CodeOp) (op : CodeOp) (st : Reading) :
    Bool × List CodeOp × CodeOp × Reading → Prop where
  | branch (enabled : (a.enableBranchFollowing && a.optionBranchFollow) = true)
      (uncond : op.inst.opcd = 18 ∨ op.inst.opcd = 16 ∧ always op.inst = true) :
      Followed a code op st (true, code, op,
        if op.inst.lk then { st with foundCall := true, caller := code.length } else st)
  | ret (found : st.foundCall = true) (bclr : op.inst.opcd = 19 ∧ op.inst.subop10 = 16)
      (uncond : always op.inst = true) (no_link : op.inst.lk = false)
      (few : st.numFollows < branchFollowingThreshold) :
      Followed a code op st (true, markCall code st.caller,
        { op with
          branchTo := ((code[st.caller]?).map CodeOp.address).getD 0 + 4
          skip := true },
        { st with foundCall := false })
  | other (branchTo : BitVec 32) (foundCall : Bool)
      (kept : foundCall = true → st.foundCall = true ∧
        ((a.enableBranchFollowing && a.optionBranchFollow) = true →
          ¬(isMtspr op.inst = true ∧ getSPRIndex op.inst = sprLR))) :
      Followed a code op st
        (false, code, { op with branchTo := branchTo }, { st with foundCall := foundCall })

theorem follow_followed (a : PPCAnalyzer) (blockSize : Nat) (code : List CodeOp) (op : CodeOp)
    (st : Reading) : Followed a code op st (a.follow blockSize code op st) := by
  unfold PPCAnalyzer.follow
  dsimp only
  split
  · next off =>
    refine .other op.branchTo st.foundCall fun found => ⟨found, fun on => ?_⟩
    rw [on] at off
    cases off
  · next on =>
    have enabled : (a.enableBranchFollowing && a.optionBranchFollow) = true := by simpa using on
    split
    · next uncond =>
      simp only [Bool.and_eq_true, Bool.or_eq_true, beq_iff_eq] at uncond
      exact .branch enabled uncond.1
    · split
      · next bclr =>
        simp only [Bool.and_eq_true, beq_iff_eq, Bool.not_eq_true'] at bclr
        obtain ⟨⟨⟨op19, sub⟩, no_link⟩, found⟩ := bclr
        split
        · next uncond =>
          simp only [Bool.and_eq_true, decide_eq_true_eq] at uncond
          exact .ret found ⟨op19, sub⟩ uncond.1 no_link uncond.2
        · refine .other _ st.foundCall fun found => ⟨found, fun _ mtlr => ?_⟩
          have op31 : op.inst.opcd = 31 := by
            have mtspr := mtlr.1
            simp only [isMtspr, Bool.and_eq_true, beq_iff_eq] at mtspr
            exact mtspr.1
          rw [op31] at op19
          cases op19
      · split
        · exact .other op.branchTo false fun found => by cases found
        · next not_mtlr =>
          refine .other op.branchTo st.foundCall fun found => ⟨found, fun _ mtlr => not_mtlr ?_⟩
          rw [mtlr.1, mtlr.2]
          rfl

/-! ## Aligned addresses -/

theorem aligned_iff (x : BitVec 32) : x &&& 3 = 0 ↔ x.toNat % 4 = 0 := by
  rw [← BitVec.toNat_inj, BitVec.toNat_and]
  have low := Nat.and_two_pow_sub_one_eq_mod x.toNat 2
  exact ⟨fun same => low.symm.trans same, fun same => low.trans same⟩

theorem aligned_add {x y : BitVec 32} (hx : x &&& 3 = 0) (hy : y &&& 3 = 0) :
    (x + y) &&& 3 = 0 := by
  rw [aligned_iff] at hx hy ⊢
  rw [BitVec.toNat_add]
  omega

theorem aligned_add_four {x : BitVec 32} (hx : x &&& 3 = 0) : (x + 4) &&& 3 = 0 :=
  aligned_add hx rfl

theorem aligned_of_bits {x : BitVec 32} (bit0 : x.getLsbD 0 = false) (bit1 : x.getLsbD 1 = false) :
    x &&& 3 = 0 := by
  apply BitVec.eq_of_getLsbD_eq
  intro i bound
  rw [BitVec.getLsbD_and]
  rcases i with _ | _ | i
  · rw [bit0]
    rfl
  · rw [bit1]
    rfl
  · have high : (3 : BitVec 32).getLsbD (i + 2) = false := by
      change (BitVec.ofNat 32 3).getLsbD (i + 2) = false
      rw [BitVec.getLsbD_ofNat, Nat.testBit_lt_two_pow, Bool.and_false]
      calc 3 < 2 ^ 2 := by decide
        _ ≤ 2 ^ (i + 2) := Nat.pow_le_pow_right (by decide) (Nat.le_add_left _ _)
    rw [high, Bool.and_false]
    simp

theorem and_mask_of_aligned {x : BitVec 32} (aligned : x &&& 3 = 0) : x &&& ~~~3#32 = x := by
  ext i bound
  have bit := congrArg (·[i]) aligned
  simp only [BitVec.getElem_and, BitVec.getElem_not] at bit ⊢
  grind

/-! ## The trace so far -/

/-- The instructions of the operations. -/
def insts (code : List CodeOp) : List UGeckoInstruction := code.map CodeOp.inst

/-- A run of the first `n` operations from the start address. -/
def RunsTo (other : Nat → Handler) (start : BitVec 32) (code : List CodeOp) (n : Nat)
    (m' : Machine) : Prop :=
  ∃ m : Machine, m.pc = start ∧ interpret other 0 ((insts code).take n) m = some m'

/-- The operation at position `i` returns behind the last call before it that pushes no return
address. -/
structure Returns (other : Nat → Handler) (start : BitVec 32) (code : List CodeOp) (i j : Nat)
    (call : CodeOp) : Prop where
  before : j < i
  call_at : code[j]? = some call
  is_call : isCall call.inst = true
  marked : call.skipLRStack = true
  last : ∀ k x, j < k → k < i → code[k]? = some x → x.skipLRStack = false
  behind : ∀ m', RunsTo other start code (i + 1) m' →
    m'.pc = call.address + 4 ∧ m'.lr = call.address + 4

/-- What holds of the operations read so far. -/
structure Traced (other : Nat → Handler) (start : BitVec 32) (code : List CodeOp) : Prop where
  aligned : ∀ op ∈ code, op.address &&& 3 = 0
  first : ∀ op : CodeOp, code[0]? = some op → op.address = start
  next : ∀ i (op : CodeOp), code[i + 1]? = some op → ∀ m', RunsTo other start code (i + 1) m' →
    m'.pc = op.address
  returns : ∀ i (op : CodeOp), code[i]? = some op → op.skip = true →
    ∃ j call, Returns other start code i j call

/-- The interpreter comes to `address` behind the operations. -/
structure Comes (other : Nat → Handler) (start address : BitVec 32) (code : List CodeOp) :
    Prop where
  aligned : address &&& 3 = 0
  first : code = [] → address = start
  path : ∀ m', RunsTo other start code code.length m' → m'.pc = address

/-- What holds when the reading loop goes on. -/
structure Ready (a : PPCAnalyzer) (other : Nat → Handler) (start : BitVec 32) (st : Reading)
    (code : List CodeOp) : Prop where
  comes : Comes other start st.address code
  link : st.foundCall = true → ∃ call, code[st.caller]? = some call ∧ isCall call.inst = true ∧
    ∀ m', RunsTo other start code code.length m' → m'.lr = call.address + 4
  enabled : st.foundCall = true → (a.enableBranchFollowing && a.optionBranchFollow) = true
  unmarked : st.foundCall = true → ∀ k x, st.caller ≤ k → code[k]? = some x →
    x.skipLRStack = false ∧ x.skip = false
  follows : st.numFollows ≤ branchFollowingThreshold

section
variable {a : PPCAnalyzer} {other : Nat → Handler} {start : BitVec 32} {st : Reading}
  {code : List CodeOp} {op : CodeOp}

theorem RunsTo.of_append {n : Nat} {m' : Machine} (le : n ≤ code.length)
    (run : RunsTo other start (code ++ [op]) n m') : RunsTo other start code n m' := by
  obtain ⟨m, at_start, run⟩ := run
  rw [insts, List.map_append, List.take_append_of_le_length (by rwa [List.length_map])] at run
  exact ⟨m, at_start, run⟩

/-- The last step of a run. -/
theorem RunsTo.last {m' : Machine} (run : RunsTo other start (code ++ [op]) (code.length + 1) m') :
    ∃ m₁, RunsTo other start code code.length m₁ ∧ takesConditional op.inst m₁ = false ∧
      runInterpreterOp (other code.length) op.inst m₁ = some m' := by
  obtain ⟨m, at_start, run⟩ := run
  have all : (insts (code ++ [op])).take (code.length + 1) = insts code ++ [op.inst] := by
    rw [insts, List.map_append, List.take_of_length_le (by simp)]
    rfl
  have before : (insts code).take code.length = insts code :=
    List.take_of_length_le (by rw [insts, List.length_map])
  rw [all] at run
  obtain ⟨m₁, run, quiet, step⟩ := interpret_append_singleton other run
  rw [Nat.zero_add, insts, List.length_map] at step
  exact ⟨m₁, ⟨m, at_start, by rwa [before]⟩, quiet, step⟩

/-- Marking a call changes no instruction. -/
theorem insts_mark (code : List CodeOp) (caller : Nat) :
    insts (markCall code caller) = insts code := by
  apply List.ext_getElem?
  intro k
  simp only [insts, markCall, List.getElem?_map, List.getElem?_modify]
  cases code[k]? with
  | none => rfl
  | some x =>
      simp only [Option.map_some]
      split <;> rfl

theorem length_mark (code : List CodeOp) (caller : Nat) :
    (markCall code caller).length = code.length := List.length_modify ..

theorem runsTo_mark {caller n : Nat} {m' : Machine} :
    RunsTo other start (markCall code caller) n m' ↔ RunsTo other start code n m' := by
  rw [RunsTo, RunsTo, insts_mark]

theorem runsTo_mark_append {caller n : Nat} {m' : Machine} :
    RunsTo other start (markCall code caller ++ [op]) n m' ↔
      RunsTo other start (code ++ [op]) n m' := by
  have same : insts (markCall code caller ++ [op]) = insts (code ++ [op]) := by
    rw [insts, insts, List.map_append, List.map_append]
    exact congrArg (· ++ [op].map CodeOp.inst) (insts_mark code caller)
  rw [RunsTo, RunsTo, same]

/-- An operation follows. -/
theorem Traced.append (traced : Traced other start code)
    (comes : Comes other start op.address code)
    (returns : op.skip = true → ∃ j call, Returns other start (code ++ [op]) code.length j call) :
    Traced other start (code ++ [op]) where
  aligned x member := by
    rcases List.mem_append.mp member with old | new
    · exact traced.aligned x old
    · rw [List.mem_singleton.mp new]
      exact comes.aligned
  first x found := by
    cases code with
    | nil =>
        cases found
        exact comes.first rfl
    | cons y rest =>
        cases found
        exact traced.first _ rfl
  next i x found m' run := by
    rcases Nat.lt_or_ge (i + 1) code.length with lt | ge
    · rw [List.getElem?_append_left lt] at found
      exact traced.next i x found m' (run.of_append (Nat.le_of_lt lt))
    · rw [List.getElem?_append_right ge] at found
      obtain ⟨zero, same⟩ := List.getElem?_eq_some_iff.mp found
      have at_end : i + 1 = code.length := by
        rw [List.length_singleton] at zero
        omega
      have last : x = op := by
        simp [at_end] at found
        exact found.symm
      rw [last]
      rw [at_end] at run
      exact comes.path m' (run.of_append (Nat.le_refl _))
  returns i x found skip := by
    rcases Nat.lt_or_ge i code.length with lt | ge
    · rw [List.getElem?_append_left lt] at found
      obtain ⟨j, call, before, call_at, is_call, marked, last, behind⟩ :=
        traced.returns i x found skip
      refine ⟨j, call, before, ?_, is_call, marked, fun k y after k_lt y_at => ?_, fun m' run => ?_⟩
      · rwa [List.getElem?_append_left (Nat.lt_trans before lt)]
      · rw [List.getElem?_append_left (Nat.lt_trans k_lt lt)] at y_at
        exact last k y after k_lt y_at
      · exact behind m' (run.of_append lt)
    · rw [List.getElem?_append_right ge] at found
      obtain ⟨zero, -⟩ := List.getElem?_eq_some_iff.mp found
      have last : x = op := List.mem_singleton.mp (List.mem_of_getElem? found)
      have at_end : i = code.length := by
        rw [List.length_singleton] at zero
        omega
      rw [last] at skip
      rw [at_end]
      exact returns skip

/-- The call is marked when its return is followed; the earlier returns are before it. -/
theorem Traced.mark {caller : Nat} (traced : Traced other start code)
    (compiled : ∀ k x, caller ≤ k → code[k]? = some x → x.skip = false) :
    Traced other start (markCall code caller) := by
  have found_of : ∀ (k : Nat) (x : CodeOp), (markCall code caller)[k]? = some x →
      ∃ y, code[k]? = some y ∧ x.address = y.address ∧ x.skip = y.skip := by
    intro k x found
    rw [markCall, List.getElem?_modify] at found
    obtain ⟨y, y_at, same⟩ := Option.map_eq_some_iff.mp found
    refine ⟨y, y_at, ?_⟩
    rw [← same]
    split <;> exact ⟨rfl, rfl⟩
  have same_before : ∀ k, k < caller → (markCall code caller)[k]? = code[k]? := by
    intro k lt
    rw [markCall, List.getElem?_modify]
    simp [Nat.ne_of_gt lt]
  constructor
  · intro x member
    obtain ⟨k, found⟩ := List.getElem?_of_mem member
    obtain ⟨y, y_at, address, -⟩ := found_of k x found
    rw [address]
    exact traced.aligned y (List.mem_of_getElem? y_at)
  · intro x found
    obtain ⟨y, y_at, address, -⟩ := found_of 0 x found
    exact address.trans (traced.first y y_at)
  · intro i x found m' run
    obtain ⟨y, y_at, address, -⟩ := found_of (i + 1) x found
    exact (traced.next i y y_at m' (runsTo_mark.mp run)).trans address.symm
  · intro i x found skip
    obtain ⟨y, y_at, -, same⟩ := found_of i x found
    rw [same] at skip
    have early : i < caller := by
      rcases Nat.lt_or_ge i caller with lt | ge
      · exact lt
      · rw [compiled i y ge y_at] at skip
        cases skip
    obtain ⟨j, call, before, call_at, is_call, marked, last, behind⟩ := traced.returns i y y_at skip
    refine ⟨j, call, before, ?_, is_call, marked, fun k z after k_lt z_at => ?_, fun m' run => ?_⟩
    · rwa [same_before j (Nat.lt_trans before early)]
    · rw [same_before k (Nat.lt_trans k_lt early)] at z_at
      exact last k z after k_lt z_at
    · exact behind m' (runsTo_mark.mp run)

theorem Comes.mark {address : BitVec 32} {caller : Nat} (comes : Comes other start address code) :
    Comes other start address (markCall code caller) where
  aligned := comes.aligned
  first empty := comes.first (by simpa [markCall] using empty)
  path m' run := by
    rw [length_mark] at run
    exact comes.path m' (runsTo_mark.mp run)

/-- A return that is followed comes behind the call. -/
theorem Traced.ret (traced : Traced other start code) (ready : Ready a other start st code)
    (found : st.foundCall = true) (address : op.address = st.address)
    (bclr : op.inst.opcd = 19 ∧ op.inst.subop10 = 16) (uncond : always op.inst = true)
    (no_link : op.inst.lk = false) :
    ∃ call, code[st.caller]? = some call ∧
      (∀ m', RunsTo other start (code ++ [op]) (code.length + 1) m' →
        m'.pc = call.address + 4 ∧ m'.lr = call.address + 4) ∧
      Traced other start
        ((markCall code st.caller) ++ [op]) := by
  obtain ⟨call, call_at, is_call, link⟩ := ready.link found
  have behind : ∀ m', RunsTo other start (code ++ [op]) (code.length + 1) m' →
      m'.pc = call.address + 4 ∧ m'.lr = call.address + 4 := by
    intro m' run
    obtain ⟨m₁, before, -, step⟩ := run.last
    rw [run_bclrx _ bclr.1 bclr.2, bclrx_always uncond] at step
    cases step
    have at_call := link m₁ before
    have aligned := traced.aligned call (List.mem_of_getElem? call_at)
    refine ⟨?_, ?_⟩
    · change m₁.lr &&& ~~~3#32 = _
      rw [at_call]
      exact and_mask_of_aligned (aligned_add_four aligned)
    · change (if op.inst.lk then m₁.pc + 4 else m₁.lr) = _
      rw [no_link, at_call]
      rfl
  refine ⟨call, call_at, behind, (traced.mark fun k x le x_at => ?_).append ?_ fun _ => ?_⟩
  · exact (ready.unmarked found k x le x_at).2
  · rw [address]
    exact ready.comes.mark
  · have inside : st.caller < code.length := (List.getElem?_eq_some_iff.mp call_at).1
    refine ⟨st.caller, { call with skipLRStack := true }, ?_, ?_, is_call, rfl, ?_, ?_⟩
    · rwa [length_mark]
    · rw [List.getElem?_append_left (by rwa [length_mark]), markCall, List.getElem?_modify, call_at]
      simp
    · intro k x after k_lt x_at
      rw [length_mark] at k_lt
      rw [List.getElem?_append_left (by rwa [length_mark]), markCall, List.getElem?_modify] at x_at
      have other_op : ¬st.caller = k := Nat.ne_of_lt after
      simp only [other_op, if_false, id_map'] at x_at
      exact (ready.unmarked found k x (Nat.le_of_lt after) x_at).1
    · intro m' run
      rw [length_mark] at run
      exact behind m' (runsTo_mark_append.mp run)

/-! ## One turn -/

theorem aligned_displacement {w : Nat} (field : BitVec w) :
    (field ++ 0#2).signExtend 32 &&& 3 = 0 := by
  apply aligned_of_bits
  · rw [BitVec.getLsbD_signExtend, BitVec.getLsbD_append]
    simp
  · rw [BitVec.getLsbD_signExtend, BitVec.getLsbD_append]
    simp

/-- A branch with an immediate address leads to an aligned one. -/
theorem branchToOf_aligned {inst : UGeckoInstruction} {address : BitVec 32}
    (aligned : address &&& 3 = 0) (op : inst.opcd = 18 ∨ inst.opcd = 16) :
    branchToOf inst address &&& 3 = 0 := by
  have base : (if inst.aa then 0 else address) &&& 3 = 0 := by
    split
    · rfl
    · exact aligned
  rw [branchToOf]
  rcases op with op | op
  · rw [if_pos op]
    exact aligned_add base (aligned_displacement _)
  · rw [if_neg (c := inst.opcd = 18) (by rw [op]; decide), if_pos op]
    exact aligned_add base (aligned_displacement _)

/-- The interpreter takes the branch that the analyzer follows. -/
theorem run_branch {other : Handler} {m m' : Machine}
    (uncond : op.inst.opcd = 18 ∨ op.inst.opcd = 16 ∧ always op.inst = true)
    (run : runInterpreterOp other op.inst m = some m') :
    m'.pc = branchToOf op.inst m.pc ∧ m'.lr = if op.inst.lk then m.pc + 4 else m.lr := by
  rcases uncond with bx | ⟨bcx, uncond⟩
  · rw [run_bx other bx] at run
    cases run
    refine ⟨?_, rfl⟩
    rw [branchToOf]
    rw [if_pos bx]
    exact BitVec.add_comm _ _
  · rw [run_bcx other bcx, bcx_always uncond] at run
    cases run
    refine ⟨?_, rfl⟩
    rw [branchToOf]
    rw [if_neg (c := op.inst.opcd = 18) (by rw [bcx]; decide), if_pos bcx]
    exact BitVec.add_comm _ _

/-- What the loop has stored in an operation that it has read. -/
structure Fresh (st : Reading) (op : CodeOp) : Prop where
  address : op.address = st.address
  skip : op.skip = false
  skipLRStack : op.skipLRStack = false

theorem Ready.unmarked_append (ready : Ready a other start st code) (fresh : Fresh st op)
    (found : st.foundCall = true) (k : Nat) (x : CodeOp) (le : st.caller ≤ k)
    (x_at : (code ++ [op])[k]? = some x) : x.skipLRStack = false ∧ x.skip = false := by
  rcases Nat.lt_or_ge k code.length with lt | ge
  · rw [List.getElem?_append_left lt] at x_at
    exact ready.unmarked found k x le x_at
  · rw [List.getElem?_append_right ge] at x_at
    rw [List.mem_singleton.mp (List.mem_of_getElem? x_at)]
    exact ⟨fresh.skipLRStack, fresh.skip⟩

/-- Behind a branch that is followed. -/
theorem Ready.branch (ready : Ready a other start st code) (fresh : Fresh st op)
    (branchTo : op.branchTo = branchToOf op.inst op.address)
    (uncond : op.inst.opcd = 18 ∨ op.inst.opcd = 16 ∧ always op.inst = true)
    (enabled : (a.enableBranchFollowing && a.optionBranchFollow) = true)
    (few : st.numFollows < branchFollowingThreshold) :
    Ready a other start
      { (if op.inst.lk then { st with foundCall := true, caller := code.length } else st) with
        numFollows := st.numFollows + 1, address := op.branchTo } (code ++ [op]) := by
  have step : ∀ m', RunsTo other start (code ++ [op]) (code ++ [op]).length m' →
      ∃ m₁, RunsTo other start code code.length m₁ ∧ m₁.pc = st.address ∧
        m'.pc = branchToOf op.inst m₁.pc ∧ m'.lr = if op.inst.lk then m₁.pc + 4 else m₁.lr := by
    intro m' run
    rw [List.length_append, List.length_singleton] at run
    obtain ⟨m₁, before, -, step⟩ := run.last
    exact ⟨m₁, before, ready.comes.path m₁ before, run_branch uncond step⟩
  have comes : Comes other start op.branchTo (code ++ [op]) := by
    refine ⟨?_, fun empty => ?_, fun m' run => ?_⟩
    · rw [branchTo, fresh.address]
      exact branchToOf_aligned ready.comes.aligned (uncond.imp id And.left)
    · cases List.append_ne_nil_of_right_ne_nil code (List.cons_ne_nil op []) empty
    · obtain ⟨m₁, -, at_op, pc, -⟩ := step m' run
      rw [pc, at_op, branchTo, fresh.address]
  cases link : op.inst.lk with
  | true =>
      simp only [if_true]
      refine ⟨comes, fun _ => ⟨op, ?_, ?_, fun m' run => ?_⟩, fun _ => enabled,
        fun _ k x le x_at => ?_, few⟩
      · simp
      · rw [isCall, link]
        rcases uncond with bx | ⟨bcx, uncond⟩
        · rw [bx]
          rfl
        · rw [bcx, uncond]
          rfl
      · obtain ⟨m₁, -, at_op, -, lr⟩ := step m' run
        rw [lr, link, if_pos rfl, at_op, fresh.address]
      · rw [List.getElem?_append_right le] at x_at
        rw [List.mem_singleton.mp (List.mem_of_getElem? x_at)]
        exact ⟨fresh.skipLRStack, fresh.skip⟩
  | false =>
      simp only [Bool.false_eq_true, if_false]
      refine ⟨comes, fun found => ?_, fun found => ready.enabled found,
        fun found => ready.unmarked_append fresh found, few⟩
      obtain ⟨call, call_at, is_call, at_call⟩ := ready.link found
      refine ⟨call, ?_, is_call, fun m' run => ?_⟩
      · rwa [List.getElem?_append_left (List.getElem?_eq_some_iff.mp call_at).1]
      · obtain ⟨m₁, before, -, -, lr⟩ := step m' run
        rw [lr, link]
        exact at_call m₁ before

/-- Behind an operation at which the loop just goes on. -/
theorem Ready.fall (sequential : ∀ k, Sequential (other k)) (ready : Ready a other start st code)
    (fresh : Fresh st op)
    (goes_on : a.conditionalContinue op.inst = true ∨
      instructionCanEndBlock op.inst (getOpInfo op.inst) = false) {foundCall : Bool}
    (kept : foundCall = true → st.foundCall = true ∧
      ((a.enableBranchFollowing && a.optionBranchFollow) = true →
        ¬(isMtspr op.inst = true ∧ getSPRIndex op.inst = sprLR))) :
    Ready a other start
      { st with
        address := st.address + 4
        foundCall := foundCall && !a.conditionalContinue op.inst } (code ++ [op]) := by
  have straight : a.conditionalContinue op.inst = false → isBranch op.inst = false ∧
      op.inst.opcd ≠ 17 ∧ ¬(op.inst.opcd = 19 ∧ op.inst.subop10 = 50) := by
    intro no_cond
    have no_end : instructionCanEndBlock op.inst (getOpInfo op.inst) = false := by
      rcases goes_on with cond | no_end
      · rw [no_cond] at cond
        cases cond
      · exact no_end
    refine ⟨?_, fun sc => ?_, fun rfi => ?_⟩
    · cases branch : isBranch op.inst with
      | false => rfl
      | true =>
          rw [canEndBlock_of_branch (.inl branch)] at no_end
          cases no_end
    · rw [canEndBlock_of_branch (.inr (.inl sc))] at no_end
      cases no_end
    · rw [canEndBlock_of_branch (.inr (.inr rfi))] at no_end
      cases no_end
  have step : ∀ m', RunsTo other start (code ++ [op]) (code ++ [op]).length m' →
      ∃ m₁, RunsTo other start code code.length m₁ ∧ takesConditional op.inst m₁ = false ∧
        runInterpreterOp (other code.length) op.inst m₁ = some m' := by
    intro m' run
    rw [List.length_append, List.length_singleton] at run
    exact run.last
  have pc : ∀ m', RunsTo other start (code ++ [op]) (code ++ [op]).length m' →
      m'.pc = st.address + 4 := by
    intro m' run
    obtain ⟨m₁, before, quiet, step⟩ := step m' run
    rw [← ready.comes.path m₁ before]
    cases cond : a.conditionalContinue op.inst with
    | false =>
        obtain ⟨no_branch, no_sc, no_rfi⟩ := straight cond
        exact (run_straight (sequential _) no_branch no_sc no_rfi step).1
    | true =>
        simp only [PPCAnalyzer.conditionalContinue, Bool.and_eq_true, Bool.or_eq_true, beq_iff_eq,
          Bool.not_eq_true'] at cond
        obtain ⟨-, (((bcx | ⟨bclr, uncond⟩) | twi) | tw) | bcctr⟩ := cond
        · exact conditional_falls _ (.inl ⟨.inl bcx.1, bcx.2⟩) quiet step
        · exact conditional_falls _ (.inl ⟨.inr bclr, uncond⟩) quiet step
        · refine (run_straight (sequential _) ?_ ?_ ?_ step).1
          · rw [isBranch, twi]
            rfl
          · rw [twi]
            decide
          · rw [twi]
            rintro ⟨same, -⟩
            cases same
        · refine (run_straight (sequential _) ?_ ?_ ?_ step).1
          · rw [isBranch, tw.1]
            rfl
          · rw [tw.1]
            decide
          · rw [tw.1]
            rintro ⟨same, -⟩
            cases same
        · exact conditional_falls _ (.inr ⟨bcctr.1.1, bcctr.1.2, bcctr.2⟩) quiet step
  have found_of : (foundCall && !a.conditionalContinue op.inst) = true →
      st.foundCall = true ∧ a.conditionalContinue op.inst = false ∧
        ¬(isMtspr op.inst = true ∧ getSPRIndex op.inst = sprLR) := by
    intro both
    rw [Bool.and_eq_true, Bool.not_eq_true'] at both
    obtain ⟨found, not_mtlr⟩ := kept both.1
    exact ⟨found, both.2, not_mtlr (ready.enabled found)⟩
  refine ⟨⟨aligned_add_four ready.comes.aligned, fun empty => ?_, pc⟩, fun both => ?_,
    fun both => ready.enabled (found_of both).1,
    fun both => ready.unmarked_append fresh (found_of both).1, ready.follows⟩
  · cases List.append_ne_nil_of_right_ne_nil code (List.cons_ne_nil op []) empty
  · obtain ⟨found, no_cond, not_mtlr⟩ := found_of both
    obtain ⟨call, call_at, is_call, at_call⟩ := ready.link found
    refine ⟨call, ?_, is_call, fun m' run => ?_⟩
    · rwa [List.getElem?_append_left (List.getElem?_eq_some_iff.mp call_at).1]
    · obtain ⟨m₁, before, -, step⟩ := step m' run
      obtain ⟨no_branch, no_sc, no_rfi⟩ := straight no_cond
      rw [(run_straight (sequential _) no_branch no_sc no_rfi step).2 not_mtlr]
      exact at_call m₁ before

/-- A turn that ends the loop leaves a trace behind, and any other one is ready for the next. -/
def Turn.Keeps (a : PPCAnalyzer) (other : Nat → Handler) (start : BitVec 32) : Turn → Prop
  | .stop st read => Traced other start read ∧ st.numFollows ≤ branchFollowingThreshold
  | .go st read => Traced other start read ∧ Ready a other start st read

/-- The loop ends at a branch that always goes elsewhere and is not followed. -/
theorem ends_at_branch (uncond : op.inst.opcd = 18 ∨ op.inst.opcd = 16 ∧ always op.inst = true) :
    a.conditionalContinue op.inst = false ∧
      instructionCanEndBlock op.inst (getOpInfo op.inst) = true := by
  constructor
  · rcases uncond with bx | ⟨bcx, uncond⟩
    · simp [PPCAnalyzer.conditionalContinue, bx]
    · simp [PPCAnalyzer.conditionalContinue, bcx, uncond]
  · refine canEndBlock_of_branch (.inl ?_)
    rcases uncond with bx | ⟨bcx, -⟩
    · rw [isBranch, bx]
      rfl
    · rw [isBranch, bcx]
      rfl

theorem readTurn_keeps (sequential : ∀ k, Sequential (other k)) (blockSize : Nat)
    (inst : UGeckoInstruction)
    (traced : Traced other start code) (ready : Ready a other start st code) :
    (a.readTurn blockSize inst st code).Keeps a other start := by
  rw [PPCAnalyzer.readTurn]
  obtain ⟨op, fpaAny, stats⟩ : ∃ op fpaAny, a.setInstructionStats st.fpaAny
      (.fresh inst (getOpInfo inst) st.address) (getOpInfo inst) = (op, fpaAny) := ⟨_, _, rfl⟩
  have same_inst : op.inst = inst := by cases stats; rfl
  have ends : op.canEndBlock = instructionCanEndBlock op.inst (getOpInfo op.inst) := by
    cases stats; rfl
  have branchTo : op.branchTo = branchToOf op.inst op.address := by cases stats; rfl
  have fresh : Fresh { st with fpaAny := fpaAny } op := by cases stats; exact ⟨rfl, rfl, rfl⟩
  have ready' : Ready a other start { st with fpaAny := fpaAny } code :=
    ⟨ready.comes, ready.link, ready.enabled, ready.unmarked, ready.follows⟩
  rw [stats, ← same_inst]
  dsimp only
  have followed := follow_followed a blockSize code op { st with fpaAny := fpaAny }
  have appended : Traced other start (code ++ [op]) := by
    refine traced.append ?_ fun skip => ?_
    · rw [fresh.address]
      exact ready.comes
    · rw [fresh.skip] at skip
      cases skip
  generalize a.follow blockSize code op { st with fpaAny := fpaAny } = result at followed ⊢
  cases followed with
  | branch enabled uncond =>
      obtain ⟨no_cond, can_end⟩ := ends_at_branch (a := a) uncond
      have count : (if op.inst.lk then
            { st with fpaAny := fpaAny, foundCall := true, caller := code.length }
          else { st with fpaAny := fpaAny }).numFollows = st.numFollows := by
        split <;> rfl
      simp only [count, no_cond, ends, can_end, Bool.true_and, Bool.not_false]
      split
      · next few =>
        exact ⟨appended, ready'.branch fresh branchTo uncond enabled (of_decide_eq_true few)⟩
      · refine ⟨appended, ?_⟩
        rw [count]
        exact ready.follows
  | ret found bclr uncond no_link few =>
      let back : CodeOp := { op with
        branchTo := ((code[st.caller]?).map CodeOp.address).getD 0 + 4
        skip := true }
      have address : back.address = st.address := fresh.address
      obtain ⟨call, call_at, behind, returned⟩ :=
        traced.ret ready' found address bclr uncond no_link
      rw [if_pos (by simpa using few)]
      refine ⟨returned, ⟨?_, fun empty => ?_, fun m' run => ?_⟩, fun found => ?_, fun found => ?_,
        fun found => ?_, few⟩
      · simp only [call_at, Option.map_some, Option.getD_some]
        exact aligned_add_four (traced.aligned call (List.mem_of_getElem? call_at))
      · cases List.append_ne_nil_of_right_ne_nil _ (List.cons_ne_nil _ []) empty
      · rw [List.length_append, length_mark, List.length_singleton] at run
        simp only [call_at, Option.map_some, Option.getD_some]
        rw [runsTo_mark_append, ← length_mark code st.caller, length_mark] at run
        exact (behind m' run).1
      · cases found
      · cases found
      · cases found
  | other branchTo foundCall kept =>
      have appended' : Traced other start (code ++ [{ op with branchTo := branchTo }]) := by
        refine traced.append ?_ fun skip => ?_
        · rw [fresh.address]
          exact ready.comes
        · rw [fresh.skip] at skip
          cases skip
      simp only [Bool.false_and, Bool.false_eq_true, if_false]
      split
      · exact ⟨appended', ready.follows⟩
      · next goes_on =>
        refine ⟨appended', ?_⟩
        rw [ends] at goes_on
        have fresh' : Fresh { st with fpaAny := fpaAny } { op with branchTo := branchTo } :=
          ⟨fresh.address, fresh.skip, fresh.skipLRStack⟩
        refine ready'.fall sequential fresh' ?_ kept
        cases cond : a.conditionalContinue op.inst with
        | true => exact .inl rfl
        | false => simpa [cond] using goes_on

/-! ## The whole loop -/

def Turn.read : Turn → List CodeOp
  | .stop _ read => read
  | .go _ read => read

theorem addresses_mark (code : List CodeOp) (caller : Nat) :
    (markCall code caller).map CodeOp.address = code.map CodeOp.address := by
  apply List.ext_getElem?
  intro k
  simp only [markCall, List.getElem?_map, List.getElem?_modify]
  cases code[k]? with
  | none => rfl
  | some x =>
      simp only [Option.map_some]
      split <;> rfl

/-- A turn adds one operation, at the address that the loop has come to. -/
theorem readTurn_addresses (blockSize : Nat) (inst : UGeckoInstruction) :
    (a.readTurn blockSize inst st code).read.map CodeOp.address =
      code.map CodeOp.address ++ [st.address] := by
  rw [PPCAnalyzer.readTurn]
  obtain ⟨op, fpaAny, stats⟩ : ∃ op fpaAny, a.setInstructionStats st.fpaAny
      (.fresh inst (getOpInfo inst) st.address) (getOpInfo inst) = (op, fpaAny) := ⟨_, _, rfl⟩
  have address : op.address = st.address := by cases stats; rfl
  rw [stats]
  dsimp only
  have followed := follow_followed a blockSize code op { st with fpaAny := fpaAny }
  generalize a.follow blockSize code op { st with fpaAny := fpaAny } = result at followed ⊢
  have added : (result.2.1 ++ [result.2.2.1]).map CodeOp.address =
      code.map CodeOp.address ++ [st.address] := by
    cases followed with
    | branch => simp [address]
    | ret => simp [address, addresses_mark]
    | other => simp [address]
  split_ifs
  · exact added
  · exact added
  · exact added

/-- The set of ranges holds the four bytes of each address, unless they end at the end of the
address space. -/
structure Holds (physicalAddress : BitVec 32 → BitVec 32) (addresses : List (BitVec 32))
    (ranges : List Range) : Prop where
  separated : Separated ranges
  within : ∀ x, Within x ranges ↔ ∃ address ∈ addresses,
    (physicalAddress address).toNat + 4 < 0x100000000 ∧
      (physicalAddress address).toNat ≤ x ∧ x < (physicalAddress address).toNat + 4

theorem Holds.insert {physicalAddress : BitVec 32 → BitVec 32} {addresses : List (BitVec 32)}
    {ranges : List Range} (holds : Holds physicalAddress addresses ranges) (address : BitVec 32) :
    Holds physicalAddress (addresses ++ [address])
      (RangeSet.insert ranges (physicalAddress address).toNat
        (physicalAddress address + 4).toNat) := by
  obtain ⟨separated, within⟩ := RangeSet.insert_spec holds.separated (physicalAddress address).toNat
    (physicalAddress address + 4).toNat
  refine ⟨separated, fun x => ?_⟩
  have bytes : (physicalAddress address).toNat ≤ x ∧ x < (physicalAddress address + 4).toNat ↔
      (physicalAddress address).toNat + 4 < 0x100000000 ∧
        (physicalAddress address).toNat ≤ x ∧ x < (physicalAddress address).toNat + 4 := by
    have small := (physicalAddress address).isLt
    rw [BitVec.toNat_add]
    change _ ≤ x ∧ x < ((physicalAddress address).toNat + 4) % 2 ^ 32 ↔ _
    omega
  rw [within, holds.within, bytes]
  simp only [List.mem_append, List.mem_singleton, or_and_right, exists_or, exists_eq_left]

theorem readCounted_keeps (sequential : ∀ k, Sequential (other k)) (env : Env)
    (physicalAddress : BitVec 32 → BitVec 32) (blockSize more : Nat) {ranges : List Range}
    (traced : Traced other start code) (ready : Ready a other start st code)
    (holds : Holds physicalAddress (code.map CodeOp.address) ranges) :
    let block := a.readCounted env physicalAddress blockSize more st code ranges
    Traced other start block.code ∧ block.reading.numFollows ≤ branchFollowingThreshold ∧
      Holds physicalAddress (block.code.map CodeOp.address) block.physicalAddresses := by
  induction more generalizing st code ranges with
  | zero => exact ⟨traced, ready.follows, holds⟩
  | succ more ih =>
      rw [PPCAnalyzer.readCounted]
      cases found : env.tryReadInstruction st.address with
      | none => exact ⟨traced, ready.follows, holds⟩
      | some inst =>
          have keeps := readTurn_keeps sequential blockSize inst traced ready
          have inserted := holds.insert st.address
          rw [← readTurn_addresses (a := a) blockSize inst] at inserted
          dsimp only
          cases turn : a.readTurn blockSize inst st code with
          | stop st read =>
              rw [turn] at keeps inserted
              exact ⟨keeps.1, keeps.2, inserted⟩
          | go st read =>
              rw [turn] at keeps inserted
              exact ih keeps.1 keeps.2 inserted

end

/-- The block that the analyzer reads from an address on, with its counts. -/
def PPCAnalyzer.readFrom (a : PPCAnalyzer) (env : Env) (physicalAddress : BitVec 32 → BitVec 32)
    (address : BitVec 32) (blockSize : Nat) : ReadBlock :=
  a.readCounted env physicalAddress blockSize blockSize ⟨address, false, false, 0, 0⟩ [] []

/-- The operations that are read are the path of the interpreter from the first one on. -/
theorem static_trace (a : PPCAnalyzer) (env : Env) (physicalAddress : BitVec 32 → BitVec 32)
    {other : Nat → Handler} (sequential : ∀ k, Sequential (other k)) {address : BitVec 32}
    (aligned : address &&& 3 = 0) (blockSize : Nat) :
    let block := a.readFrom env physicalAddress address blockSize
    block.code = a.readBlock env address blockSize ∧
      (∀ op, block.code[0]? = some op → op.address = address) ∧
      (∀ i op, block.code[i + 1]? = some op → ∀ m', RunsTo other address block.code (i + 1) m' →
        m'.pc = op.address) ∧
      (∀ i op, block.code[i]? = some op → op.skip = true →
        ∃ j call, Returns other address block.code i j call) ∧
      block.reading.numFollows ≤ branchFollowingThreshold ∧
      ∀ x, Within x block.physicalAddresses ↔ ∃ op ∈ block.code,
        (physicalAddress op.address).toNat + 4 < 0x100000000 ∧
          (physicalAddress op.address).toNat ≤ x ∧ x < (physicalAddress op.address).toNat + 4 := by
  have traced : Traced other address [] := by
    constructor
    · intro op member
      cases member
    · intro op found
      cases found
    · intro i op found
      cases found
    · intro i op found
      cases found
  have ready : Ready a other address ⟨address, false, false, 0, 0⟩ [] := by
    refine ⟨⟨aligned, fun _ => rfl, fun m' run => ?_⟩, fun found => ?_, fun found => ?_,
      fun found => ?_, Nat.zero_le _⟩
    · obtain ⟨m, at_start, run⟩ := run
      cases run
      exact at_start
    · cases found
    · cases found
    · cases found
  have holds : Holds physicalAddress (([] : List CodeOp).map CodeOp.address) [] :=
    ⟨separated_nil, fun x => by simp⟩
  obtain ⟨traced, few, holds⟩ :=
    readCounted_keeps sequential env physicalAddress blockSize blockSize traced ready holds
  refine ⟨readCounted_code .., traced.first, traced.next, traced.returns, few, fun x => ?_⟩
  rw [PPCAnalyzer.readFrom, holds.within]
  simp only [List.mem_map, exists_exists_and_eq_and]

/-- An analyzer that follows branches. -/
def following : PPCAnalyzer where
  optionConditionalContinue := false
  optionBranchFollow := true
  optionBranchMerge := false
  optionCarryMerge := false
  optionCrorMerge := false
  isDebuggingEnabled := false
  enableBranchFollowing := true
  enableFloatExceptions := false
  enableDivByZeroExceptions := false

/-- A call of a function that returns at once, and `sc` behind it. -/
def callsAndReturns (address : BitVec 32) : Env where
  tryReadInstruction x :=
    if x = address then some ⟨0x48000009⟩
    else if x = address + 4 then some ⟨0x44000002⟩
    else if x = address + 8 then some ⟨0x4E800020⟩ else none
  tryReplaceFunction _ := false
  isAddressBreakPoint _ := false

/-- The general registers and LR are zero. -/
def startingAt (address : BitVec 32) : Machine where
  ppc := ⟨fun _ => 0, fun _ => 1, false, false, false⟩
  lr := 0
  ctr := 0
  xerStringctrl := 0
  msrLE := false
  reserve := false
  reserveAddress := 0
  pc := address
  memory := ⟨fun _ => some 0, fun _ => some 0, fun _ => some 0⟩

theorem sequential_advance : Sequential fun _ m => some m.advance where
  next _ _ run := by
    cases run
    rfl
  link _ _ _ run := by
    cases run
    rfl

/-- The `sc` behind the call is read third, and the interpreter comes to it. -/
theorem static_trace_callsAndReturns : ∃ op m',
    (following.readBlock (callsAndReturns 0x80003100) 0x80003100 8)[2]? = some op ∧
      interpret (fun _ _ m => some m.advance) 0 [⟨0x48000009⟩, ⟨0x4E800020⟩]
        (startingAt 0x80003100) = some m' ∧ m'.pc = op.address := by
  have read : ((following.readBlock (callsAndReturns 0x80003100) 0x80003100 8)[2]?).isSome =
      true := by decide +kernel
  have runs : (interpret (fun _ _ m => some m.advance) 0 [⟨0x48000009⟩, ⟨0x4E800020⟩]
      (startingAt 0x80003100)).isSome = true := by decide +kernel
  have taken : (insts (following.readBlock (callsAndReturns 0x80003100) 0x80003100 8)).take 2 =
      [⟨0x48000009⟩, ⟨0x4E800020⟩] := by decide +kernel
  obtain ⟨op, found⟩ := Option.isSome_iff_exists.mp read
  obtain ⟨m', run⟩ := Option.isSome_iff_exists.mp runs
  obtain ⟨code, -, next, -⟩ := static_trace following (callsAndReturns 0x80003100) id
    (fun _ => sequential_advance) (by decide : (0x80003100 : BitVec 32) &&& 3 = 0) 8
  rw [code] at next
  refine ⟨op, m', found, run, next 1 op found m' ⟨startingAt 0x80003100, rfl, ?_⟩⟩
  rw [taken]
  exact run

/-- A call that is not at a word pushes no word either, and the return comes before it. The last
word of the address space is not inserted. -/
theorem static_trace_not_everywhere :
    (¬ ∀ (a : PPCAnalyzer) (env : Env) (other : Nat → Handler), (∀ k, Sequential (other k)) →
      ∀ (address : BitVec 32) (blockSize i : Nat) (op : CodeOp),
        (a.readBlock env address blockSize)[i + 1]? = some op → ∀ m',
          RunsTo other address (a.readBlock env address blockSize) (i + 1) m' →
            m'.pc = op.address) ∧
      ¬ ∀ (a : PPCAnalyzer) (env : Env) (physicalAddress : BitVec 32 → BitVec 32)
        (address : BitVec 32) (blockSize x : Nat),
        Within x (a.readFrom env physicalAddress address blockSize).physicalAddresses ↔
          ∃ op ∈ (a.readFrom env physicalAddress address blockSize).code,
            (physicalAddress op.address).toNat ≤ x ∧
              x < (physicalAddress op.address).toNat + 4 := by
  constructor
  · intro claim
    have read : ((following.readBlock (callsAndReturns 0x80003101) 0x80003101 8)[2]?).map
        CodeOp.address = some 0x80003105 := by decide +kernel
    have runs : (interpret (fun _ _ m => some m.advance) 0 ((insts (following.readBlock
        (callsAndReturns 0x80003101) 0x80003101 8)).take 2) (startingAt 0x80003101)).map
          (fun m => m.pc) = some 0x80003104 := by decide +kernel
    obtain ⟨op, found, address⟩ := Option.map_eq_some_iff.mp read
    obtain ⟨m', run, pc⟩ := Option.map_eq_some_iff.mp runs
    have same := claim following (callsAndReturns 0x80003101) (fun _ _ m => some m.advance)
      (fun _ => sequential_advance) 0x80003101 8 1 op found m' ⟨_, rfl, run⟩
    rw [pc, address] at same
    exact absurd same (by decide)
  · intro claim
    have read : ((following.readFrom (callsAndReturns 0xFFFFFFF8) id 0xFFFFFFFC 1).code.map
        CodeOp.address) = [0xFFFFFFFC] := by decide +kernel
    have none : (following.readFrom (callsAndReturns 0xFFFFFFF8) id 0xFFFFFFFC
        1).physicalAddresses = [] := by decide +kernel
    obtain ⟨op, member, address⟩ := List.mem_map.mp (read ▸ List.mem_singleton_self 0xFFFFFFFC#32)
    have within := (claim following (callsAndReturns 0xFFFFFFF8) id 0xFFFFFFFC 1 0xFFFFFFFC).mpr
      ⟨op, member, by rw [address]; decide, by rw [address]; decide⟩
    rw [none] at within
    obtain ⟨r, member, -⟩ := within
    cases member

end Phocoena.PPCAnalyst
