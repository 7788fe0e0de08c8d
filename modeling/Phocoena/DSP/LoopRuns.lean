import Phocoena.DSP.LoopPrograms

/-! # The stacks of loops in a run

What the loop hardware does to the stacks: a loop that starts lays its three entries on top, the
rounds count the top down, and the last round takes the entries off again.
-/

namespace Phocoena.DSP

open StackRegister

namespace LoopStacks

/-! ## Agreement -/

theorem Agree.refl (n : Nat) (k : LoopStacks) : Agree n k k :=
  ⟨fun _ _ => rfl, fun _ _ => rfl, fun _ _ _ _ => rfl⟩

theorem Agree.trans {n : Nat} {k₁ k₂ k₃ : LoopStacks} (first : Agree n k₁ k₂)
    (second : Agree n k₂ k₃) : Agree n k₁ k₃ where
  st r other := (second.st r other).trans (first.st r other)
  ptr r other := (second.ptr r other).trans (first.ptr r other)
  slots r other i lt := by
    have later := second.slots r other i lt
    rw [first.ptr r other] at later
    exact later.trans (first.slots r other i lt)

theorem Agree.mono {m n : Nat} {k k' : LoopStacks} (le : m ≤ n) (agree : Agree n k k') :
    Agree m k k' :=
  ⟨agree.st, agree.ptr, fun r other i lt => agree.slots r other i (by omega)⟩

theorem Off.mono {k : LoopStacks} {first last first' last' : Nat} (off : k.Off first last)
    (low : first ≤ first') (high : last' ≤ last) : k.Off first' last' := by
  rcases off with zero | zero | before | behind
  · exact .inl zero
  · exact .inr (.inl zero)
  · exact .inr (.inr (.inl (by omega)))
  · exact .inr (.inr (.inr (by omega)))

theorem Off.agree {n first last : Nat} {k k' : LoopStacks} (off : k.Off first last)
    (agree : Agree n k k') : k'.Off first last := by
  rw [Off, agree.st LoopAddress (by decide), agree.st LoopCounter (by decide)]
  exact off

/-! ## A loop on top of others -/

/-- The loop with these entries lies on top of the stacks `o`, of which the newest `n` entries
are as they were. -/
structure Pushed (n : Nat) (o : LoopStacks) (call address counter : BitVec 16) (k : LoopStacks) :
    Prop where
  call : k.st Call = call
  address : k.st LoopAddress = address
  counter : k.st LoopCounter = counter
  ptr : ∀ r ≠ Data, k.ptr r = o.ptr r + 1
  top : ∀ r ≠ Data, k.slots r (k.ptr r) = o.st r
  slots : ∀ r ≠ Data, ∀ i < n,
    k.slots r (o.ptr r - BitVec.ofNat 5 i) = o.slots r (o.ptr r - BitVec.ofNat 5 i)

/-- The three stores of a loop that starts. -/
def push (call address counter : BitVec 16) (k : LoopStacks) : LoopStacks :=
  ((k.store Call call).store LoopAddress address).store LoopCounter counter

theorem other_cases {r : BitVec 2} (other : r ≠ Data) :
    r = Call ∨ r = LoopAddress ∨ r = LoopCounter := by
  revert r
  decide

theorem sub_ne_add_one (p : BitVec 5) {i : Nat} (lt : i < 31) : p - BitVec.ofNat 5 i ≠ p + 1 := by
  intro same
  have nat := congrArg BitVec.toNat same
  rw [BitVec.toNat_sub, BitVec.toNat_add, BitVec.toNat_ofNat] at nat
  have small := p.isLt
  have one : (1 : BitVec 5).toNat = 1 := rfl
  omega

theorem pushed_push (k : LoopStacks) (call address counter : BitVec 16) :
    Pushed 31 k call address counter (k.push call address counter) where
  call := rfl
  address := rfl
  counter := rfl
  ptr r other := by rcases other_cases other with rfl | rfl | rfl <;> rfl
  top r other := by
    rcases other_cases other with rfl | rfl | rfl <;> exact Function.update_self ..
  slots r other i lt := by
    have far := fun p => sub_ne_add_one p lt
    rcases other_cases other with rfl | rfl | rfl <;> exact Function.update_of_ne (far _) ..

theorem Pushed.mono {m n : Nat} {o k : LoopStacks} {call address counter : BitVec 16} (le : m ≤ n)
    (pushed : Pushed n o call address counter k) : Pushed m o call address counter k :=
  { pushed with slots := fun r other i lt => pushed.slots r other i (by omega) }

theorem Pushed.agree {n : Nat} {o k k' : LoopStacks} {call address counter : BitVec 16}
    (pushed : Pushed n o call address counter k) (agree : Agree (n + 1) k k') :
    Pushed n o call address counter k' where
  call := (agree.st Call (by decide)).trans pushed.call
  address := (agree.st LoopAddress (by decide)).trans pushed.address
  counter := (agree.st LoopCounter (by decide)).trans pushed.counter
  ptr r other := (agree.ptr r other).trans (pushed.ptr r other)
  top r other := by
    have newest := agree.slots r other 0 (by omega)
    simp only [BitVec.sub_zero] at newest
    rw [agree.ptr r other, newest, pushed.top r other]
  slots r other i lt := by
    have below := agree.slots r other (i + 1) (by omega)
    have shifted : k.ptr r - BitVec.ofNat 5 (i + 1) = o.ptr r - BitVec.ofNat 5 i := by
      rw [pushed.ptr r other, BitVec.ofNat_add]
      generalize BitVec.ofNat 5 i = x
      show o.ptr r + 1 - (x + 1#5) = o.ptr r - x
      bv_omega
    rw [shifted] at below
    exact below.trans (pushed.slots r other i lt)

/-- The counter of the loop on top goes down. -/
theorem Pushed.count {n : Nat} {o k : LoopStacks} {call address counter : BitVec 16}
    (pushed : Pushed n o call address counter k) (counter' : BitVec 16) :
    Pushed n o call address counter'
      { k with st := Function.update k.st LoopCounter counter' } :=
  { pushed with
    call := by
      show Function.update k.st LoopCounter counter' Call = call
      rw [Function.update_of_ne (by decide), pushed.call]
    address := by
      show Function.update k.st LoopCounter counter' LoopAddress = address
      rw [Function.update_of_ne (by decide), pushed.address]
    counter := Function.update_self (f := k.st) LoopCounter counter' }

/-- The pops at the end of a loop. -/
def pop3 (k : LoopStacks) : LoopStacks := ((k.pop Call).pop LoopAddress).pop LoopCounter

theorem Pushed.popped {n : Nat} {o k : LoopStacks} {call address counter : BitVec 16}
    (pushed : Pushed n o call address counter k) : Agree n o k.pop3 where
  st r other := by
    have top := pushed.top r other
    rcases other_cases other with rfl | rfl | rfl <;> exact top
  ptr r other := by
    have ptr : k.ptr r - 1 = o.ptr r := by
      rw [pushed.ptr r other, BitVec.add_sub_cancel]
    rcases other_cases other with rfl | rfl | rfl <;> exact ptr
  slots r other i lt := pushed.slots r other i lt

end LoopStacks

/-! ## The stacks inside a state -/

namespace State

variable {M : Type} (s : State M) (k : LoopStacks)

theorem withLoopStacks_st {r : BitVec 2} (other : r ≠ Data) : (s.withLoopStacks k).st r = k.st r :=
  Function.update_of_ne other ..

theorem withLoopStacks_loopStacks : s.withLoopStacks s.loopStacks = s := by
  simp only [withLoopStacks, loopStacks, Function.update_eq_self]

theorem StoreStack_withLoopStacks {r : BitVec 2} (other : r ≠ Data) (v : BitVec 16) :
    (s.withLoopStacks k).StoreStack r v = s.withLoopStacks (k.store r v) := by
  have apart : Data ≠ r := other.symm
  simp only [StoreStack, withLoopStacks, LoopStacks.store, Function.update_of_ne other]
  rw [Function.update_comm other, Function.update_comm other, Function.update_comm other]

theorem PopStack_withLoopStacks {r : BitVec 2} (other : r ≠ Data) :
    ((s.withLoopStacks k).PopStack r).2 = s.withLoopStacks (k.pop r) := by
  simp only [PopStack, withLoopStacks, LoopStacks.pop, Function.update_of_ne other]
  rw [Function.update_comm other, Function.update_comm other]

end State

end Phocoena.DSP

/-! ## Loops run as if they were written out

A run of the interpreter over a program with loops goes through the same instructions, in the
same states, as the program with every body written out. The stacks of loops are the only
difference, and behind the program they are as they were.
-/

namespace Phocoena.DSP

open StackRegister

/-! ## The words that start a loop -/

namespace LoopHead

/-- The row of a word, if the rows above it differ from it in the bits of `window`. -/
theorem GetOp_eq {inst window high : BitVec 16} (part : inst &&& window = high) (k : Nat)
    {id mask : BitVec 16} {op : Option Op} (row : s_opcodes[k]? = some (id, mask, op))
    (own : inst &&& mask = id)
    (above : ∀ info ∈ s_opcodes.take k, high &&& info.2.1 ≠ info.1 &&& window) :
    GetOp inst = op := by
  have found : s_opcodes.find? (fun info => inst &&& info.2.1 == info.1) = some (id, mask, op) := by
    obtain ⟨inside, at_row⟩ := List.getElem?_eq_some_iff.mp row
    refine List.find?_eq_some_iff_getElem.mpr ⟨beq_iff_eq.mpr own, k, inside, at_row, ?_⟩
    intro j before
    have member := List.mem_take_iff_getElem.mpr ⟨j, lt_min before (before.trans inside), rfl⟩
    rw [Bool.not_eq_true', beq_eq_false_iff_ne]
    intro same
    refine above _ member ?_
    rw [← part, BitVec.and_assoc, BitVec.and_comm window, ← BitVec.and_assoc, same]
  rw [GetOp, FindByOpcode, found]
  rfl

theorem loop_word (reg : BitVec 5) :
    GetOp (word (.loop reg)) = none ∧ word (.loop reg) &&& 0xffe0 = 0x0040 ∧
      Interpreter.lowReg (word (.loop reg)) = reg := by
  have bits : ∀ reg : BitVec 5, word (.loop reg) &&& 0xffe0 = 0x0040 ∧
      Interpreter.lowReg (word (.loop reg)) = reg := by
    decide +kernel
  exact ⟨GetOp_eq (bits reg).1 40 rfl (bits reg).1 (by decide +kernel), bits reg⟩

theorem bloop_word (reg : BitVec 5) :
    GetOp (word (.bloop reg)) = none ∧ word (.bloop reg) &&& 0xffe0 ≠ 0x0040 ∧
      word (.bloop reg) &&& 0xffe0 = 0x0060 ∧ Interpreter.lowReg (word (.bloop reg)) = reg := by
  have bits : ∀ reg : BitVec 5, word (.bloop reg) &&& 0xffe0 ≠ 0x0040 ∧
      word (.bloop reg) &&& 0xffe0 = 0x0060 ∧ Interpreter.lowReg (word (.bloop reg)) = reg := by
    decide +kernel
  have own := (bits reg).2.1
  exact ⟨GetOp_eq own 41 rfl own (by decide +kernel), bits reg⟩

theorem loopi_word (count : BitVec 8) :
    GetOp (word (.loopi count)) = none ∧ word (.loopi count) &&& 0xffe0 ≠ 0x0040 ∧
      word (.loopi count) &&& 0xffe0 ≠ 0x0060 ∧ word (.loopi count) &&& 0xff00 = 0x1000 ∧
      word (.loopi count) &&& 0xff = count.setWidth 16 := by
  have bits : ∀ count : BitVec 8, word (.loopi count) &&& 0xffe0 ≠ 0x0040 ∧
      word (.loopi count) &&& 0xffe0 ≠ 0x0060 ∧ word (.loopi count) &&& 0xff00 = 0x1000 ∧
      word (.loopi count) &&& 0xff = count.setWidth 16 := by
    decide +kernel
  have own := (bits count).2.2.1
  exact ⟨GetOp_eq own 42 rfl own (by decide +kernel), bits count⟩

theorem bloopi_word (count : BitVec 8) :
    GetOp (word (.bloopi count)) = none ∧ word (.bloopi count) &&& 0xffe0 ≠ 0x0040 ∧
      word (.bloopi count) &&& 0xffe0 ≠ 0x0060 ∧ word (.bloopi count) &&& 0xff00 ≠ 0x1000 ∧
      word (.bloopi count) &&& 0xff00 = 0x1100 ∧
      word (.bloopi count) &&& 0xff = count.setWidth 16 := by
  have bits : ∀ count : BitVec 8, word (.bloopi count) &&& 0xffe0 ≠ 0x0040 ∧
      word (.bloopi count) &&& 0xffe0 ≠ 0x0060 ∧ word (.bloopi count) &&& 0xff00 ≠ 0x1000 ∧
      word (.bloopi count) &&& 0xff00 = 0x1100 ∧
      word (.bloopi count) &&& 0xff = count.setWidth 16 := by
    decide +kernel
  have own := (bits count).2.2.2.1
  exact ⟨GetOp_eq own 43 rfl own (by decide +kernel), bits count⟩

section
variable {M : Type}

theorem PopStack_data (t : State M) (k : LoopStacks) :
    (t.withLoopStacks k).PopStack Data =
      ((t.PopStack Data).1, (t.PopStack Data).2.withLoopStacks k) := by
  simp only [State.PopStack, State.withLoopStacks, Function.update_self, Function.update_idem]

theorem OpReadRegister_withLoopStacks {reg : BitVec 5} (apart : reg ≠ 0xc ∧ reg ≠ 0xe ∧ reg ≠ 0xf)
    (t : State M) (k : LoopStacks) :
    (t.withLoopStacks k).OpReadRegister reg =
      ((t.OpReadRegister reg).1, (t.OpReadRegister reg).2.withLoopStacks k) ∧
    (t.OpReadRegister reg).2.memory = t.memory ∧ (t.OpReadRegister reg).2.pc = t.pc ∧
      (t.OpReadRegister reg).2.write_back_log = t.write_back_log := by
  obtain ⟨notC, notE, notF⟩ := apart
  have is : ∀ n < 32, reg.toNat = n → reg = BitVec.ofNat 5 n := by
    intro n lt same
    rw [← same, BitVec.ofNat_toNat, BitVec.setWidth_eq]
  unfold State.OpReadRegister
  split <;> first
    | exact ⟨rfl, rfl, rfl, rfl⟩
    | skip
  · exact absurd (is 0xc (by decide) ‹_›) notC
  · rename_i data
    rw [is 0xd (by decide) data]
    exact ⟨PopStack_data t k, rfl, rfl, rfl⟩
  · exact absurd (is 0xe (by decide) ‹_›) notE
  · exact absurd (is 0xf (by decide) ‹_›) notF

theorem count_withLoopStacks {head : LoopHead} (counts : head.Counts) (t : State M)
    (k : LoopStacks) :
    head.count (t.withLoopStacks k) = ((head.count t).1, (head.count t).2.withLoopStacks k) ∧
      (head.count t).2.memory = t.memory ∧ (head.count t).2.pc = t.pc ∧
        (head.count t).2.write_back_log = t.write_back_log := by
  cases head with
  | loop reg | bloop reg => exact OpReadRegister_withLoopStacks counts t k
  | loopi count | bloopi count => exact ⟨rfl, rfl, rfl, rfl⟩

end

end LoopHead

/-! ## One step -/

section
variable {M : Type} (bus : Bus M) (ex : Exceptions M)

/-- No exception is pending, and the program is the one in `IMEM`. -/
structure Quiet (IMEM : BitVec 16 → BitVec 16) (t : State M) : Prop where
  calm : ex.get t.memory = 0
  program : ∀ address, bus.ReadIMEM t.memory address = IMEM address

/-- The end of a step. -/
def endStep (isLoopEnd : BitVec 16 → Bool) (s : State M) : State M :=
  if isLoopEnd (s.pc - 1) then Interpreter.HandleLoop s else s

variable {bus ex} {IMEM : BitVec 16 → BitVec 16} {t : State M} (k : LoopStacks)

theorem Quiet.step (quiet : Quiet bus ex IMEM t) (isLoopEnd : BitVec 16 → Bool) :
    Interpreter.Step bus ex isLoopEnd (t.withLoopStacks k) =
      (Interpreter.ExecuteWithLoops bus (IMEM t.pc)
        ({ t with pc := t.pc + 1 }.withLoopStacks k)).map (endStep isLoopEnd) := by
  have calm : ex.get (t.withLoopStacks k).memory = 0 := quiet.calm
  rw [Interpreter.Step, State.CheckExceptions, if_pos calm, State.FetchInstruction,
    ← quiet.program]
  rfl

theorem Quiet.step_instr (quiet : Quiet bus ex IMEM t) (isLoopEnd : BitVec 16 → Bool)
    {inst : BitVec 16} (straight : Straight bus inst) (empty : t.write_back_log = [])
    (there : IMEM t.pc = inst) :
    Interpreter.Step bus ex isLoopEnd (t.withLoopStacks k) =
      some (endStep isLoopEnd ((instruction bus inst t).withLoopStacks k)) := by
  obtain ⟨op, row⟩ := straight.row
  rw [quiet.step k isLoopEnd, there, ← straight.commutes t k empty, instruction,
    Interpreter.ExecuteWithLoops, row]
  rfl

theorem startLoop_withLoopStacks (u : State M) (cnt loop_pc : BitVec 16) :
    Interpreter.startLoop bus cnt loop_pc (u.withLoopStacks k) =
      if cnt ≠ 0 then u.withLoopStacks (k.push u.pc loop_pc cnt)
      else { u with pc := loop_pc +
        BitVec.ofNat 16 (templateSize (bus.ReadIMEM u.memory loop_pc)) }.withLoopStacks k := by
  rw [Interpreter.startLoop]
  split
  · rw [State.StoreStack_withLoopStacks _ _ (by decide),
      State.StoreStack_withLoopStacks _ _ (by decide),
      State.StoreStack_withLoopStacks _ _ (by decide)]
    rfl
  · rfl

/-- Starting a loop, or skipping it. -/
theorem Quiet.execute_head (quiet : Quiet bus ex IMEM t) {head : LoopHead} (counts : head.Counts)
    {loop_end : BitVec 16} {last : BitVec 16}
    (single : head.single = true → loop_end = t.pc + 1)
    (address : head.single = false → IMEM (t.pc + 1) = loop_end) (there : IMEM loop_end = last) :
    Interpreter.ExecuteWithLoops bus head.word ({ t with pc := t.pc + 1 }.withLoopStacks k) =
      some (if (head.count { t with pc := t.pc + 1 }).1 ≠ 0 then
        { (head.count { t with pc := t.pc + 1 }).2 with
          pc := t.pc + BitVec.ofNat 16 head.size }.withLoopStacks
            (k.push (t.pc + BitVec.ofNat 16 head.size) loop_end
              (head.count { t with pc := t.pc + 1 }).1)
      else
        { (head.count { t with pc := t.pc + 1 }).2 with
          pc := loop_end + BitVec.ofNat 16 (templateSize last) }.withLoopStacks k) := by
  obtain ⟨counted, memory, pc, -⟩ := LoopHead.count_withLoopStacks counts { t with pc := t.pc + 1 } k
  have fetched : bus.ReadIMEM (head.count { t with pc := t.pc + 1 }).2.memory = IMEM := by
    rw [memory]
    exact funext quiet.program
  have start : ∀ (u : State M) (cnt loop_pc : BitVec 16),
      Interpreter.startLoop bus cnt loop_pc (u.withLoopStacks k) = _ := startLoop_withLoopStacks k
  generalize counting : head.count { t with pc := t.pc + 1 } = c at counted pc fetched ⊢
  obtain ⟨cnt, u⟩ := c
  dsimp only at counted pc fetched ⊢
  have here : { u with pc := t.pc + BitVec.ofNat 16 1 } = u := by
    cases u
    cases pc
    rfl
  have template : templateSize (bus.ReadIMEM u.memory loop_end) = templateSize last := by
    rw [fetched, there]
  -- the loops over one instruction end with the next one
  have one : head.single = true → Interpreter.startLoop bus cnt u.pc (u.withLoopStacks k) =
      if cnt ≠ 0 then { u with pc := t.pc + BitVec.ofNat 16 1 }.withLoopStacks
        (k.push (t.pc + BitVec.ofNat 16 1) loop_end cnt)
      else { u with pc := loop_end + BitVec.ofNat 16 (templateSize last) }.withLoopStacks k := by
    intro yes
    rw [start, here, pc, ← single yes, template]
    rw [single yes]
    rfl
  -- the others have the address in their second word
  have two : head.single = false →
      Interpreter.startLoop bus cnt loop_end ({ u with pc := u.pc + 1 }.withLoopStacks k) =
      if cnt ≠ 0 then { u with pc := t.pc + BitVec.ofNat 16 2 }.withLoopStacks
        (k.push (t.pc + BitVec.ofNat 16 2) loop_end cnt)
      else { u with pc := loop_end + BitVec.ofNat 16 (templateSize last) }.withLoopStacks k := by
    intro no
    rw [start, pc, BitVec.add_assoc, template]
    rfl
  have second : head.single = false → bus.ReadIMEM u.memory u.pc = loop_end := by
    intro no
    rw [fetched, pc, address no]
  cases head with
  | loop reg =>
      obtain ⟨row, word, low⟩ := LoopHead.loop_word reg
      have read : State.OpReadRegister reg ({ t with pc := t.pc + 1 }.withLoopStacks k) =
        (cnt, u.withLoopStacks k) := counted
      rw [Interpreter.ExecuteWithLoops, row]
      dsimp only
      rw [if_pos word, Interpreter.loop, low, read]
      exact congrArg some (one rfl)
  | loopi count =>
      obtain ⟨row, word, word', word'', low⟩ := LoopHead.loopi_word count
      have value : count.setWidth 16 = cnt := congrArg (fun r => r.1) counted
      have state : { t with pc := t.pc + 1 }.withLoopStacks k = u.withLoopStacks k :=
        congrArg (fun r => r.2) counted
      rw [Interpreter.ExecuteWithLoops, row]
      dsimp only
      rw [if_neg word, if_neg word', if_pos word'', Interpreter.loopi, low, value, state]
      exact congrArg some (one rfl)
  | bloop reg =>
      obtain ⟨row, word, word', low⟩ := LoopHead.bloop_word reg
      have read : State.OpReadRegister reg ({ t with pc := t.pc + 1 }.withLoopStacks k) =
        (cnt, u.withLoopStacks k) := counted
      rw [Interpreter.ExecuteWithLoops, row]
      dsimp only
      rw [if_neg word, if_pos word', Interpreter.bloop, low, read]
      refine congrArg some (Eq.trans ?_ (two rfl))
      rw [← second rfl]
      rfl
  | bloopi count =>
      obtain ⟨row, word, word', word'', word''', low⟩ := LoopHead.bloopi_word count
      have value : count.setWidth 16 = cnt := congrArg (fun r => r.1) counted
      have state : { t with pc := t.pc + 1 }.withLoopStacks k = u.withLoopStacks k :=
        congrArg (fun r => r.2) counted
      rw [Interpreter.ExecuteWithLoops, row]
      dsimp only
      rw [if_neg word, if_neg word', if_neg word'', if_pos word''', Interpreter.bloopi, low, value,
        state]
      refine congrArg some (Eq.trans ?_ (two rfl))
      rw [← second rfl]
      rfl

/-! ## The end of a step -/

theorem endStep_off {isLoopEnd : BitVec 16 → Bool} {k : LoopStacks} {first last : Nat}
    (off : k.Off first last) (low : first < t.pc.toNat) (high : t.pc.toNat ≤ last) :
    endStep isLoopEnd (t.withLoopStacks k) = t.withLoopStacks k := by
  rw [endStep]
  split
  · rw [Interpreter.HandleLoop]
    dsimp only
    rw [if_neg]
    rintro ⟨address, counter, here⟩
    rw [State.withLoopStacks_st t k (by decide)] at address here
    rw [State.withLoopStacks_st t k (by decide)] at counter
    rcases off with zero | zero | before | behind
    · rw [zero] at address
      exact absurd address (by decide)
    · rw [zero] at counter
      exact absurd counter (by decide)
    · have here : t.pc.toNat = (k.st LoopAddress).toNat + 1 := here
      omega
    · have here : t.pc.toNat = (k.st LoopAddress).toNat + 1 := here
      omega
  · rfl

section
variable {isLoopEnd : BitVec 16 → Bool} {k o : LoopStacks} {n : Nat}
  {call address counter : BitVec 16}

/-- The stacks with the counter of the loop on top set. -/
def LoopStacks.setCounter (k : LoopStacks) (counter : BitVec 16) : LoopStacks :=
  { k with st := Function.update k.st LoopCounter counter }

theorem endStep_counts (pushed : LoopStacks.Pushed n o call address counter k)
    (flagged : isLoopEnd address = true) (positive : 0 < address) (active : 0 < counter)
    (here : t.pc.toNat = address.toNat + 1) :
    endStep isLoopEnd (t.withLoopStacks k) =
      if 0 < counter - 1 then { t with pc := call }.withLoopStacks (k.setCounter (counter - 1))
      else t.withLoopStacks (k.setCounter (counter - 1)).pop3 := by
  have reached : (t.withLoopStacks k).pc - 1 = address := by
    apply BitVec.eq_of_toNat_eq
    have := address.isLt
    rw [BitVec.toNat_sub]
    show (2 ^ 16 - 1 + t.pc.toNat) % 2 ^ 16 = _
    omega
  have counted : Function.update (t.withLoopStacks k).st LoopCounter (counter - 1) =
      (t.withLoopStacks (k.setCounter (counter - 1))).st :=
    (Function.update_comm (show LoopCounter ≠ Data by decide) ..).symm
  rw [endStep, reached, if_pos flagged, Interpreter.HandleLoop]
  dsimp only
  rw [State.withLoopStacks_st t k (by decide), State.withLoopStacks_st t k (by decide),
    State.withLoopStacks_st t k (by decide), pushed.call, pushed.address, pushed.counter,
    if_pos ⟨positive, active, here⟩]
  rw [counted]
  split
  · rfl
  · show (((State.PopStack Call (t.withLoopStacks (k.setCounter (counter - 1)))).2.PopStack
      LoopAddress).2.PopStack LoopCounter).2 = _
    rw [State.PopStack_withLoopStacks _ _ (by decide),
      State.PopStack_withLoopStacks _ _ (by decide), State.PopStack_withLoopStacks _ _ (by decide)]
    rfl

end

/-! ## Traces -/

theorem Traced.append {step : State M → Option (State M)} {s s₁ s₂ : State M}
    {first second : List (BitVec 16)} (before : Traced step s first s₁)
    (after : Traced step s₁ second s₂) : Traced step s (first ++ second) s₂ := by
  induction first generalizing s with
  | nil =>
      cases before
      exact after
  | cons pc first ih =>
      obtain ⟨here, next, took, rest⟩ := before
      exact ⟨here, next, took, ih rest⟩

theorem Traced.single {step : State M → Option (State M)} {s s₁ : State M} (took : step s = some s₁) :
    Traced step s [s.pc] s₁ := ⟨rfl, s₁, took, rfl⟩

end

/-! ## Programs in their place -/

/-- The addresses at which the program's loops end. -/
def Code.ends : Code → Nat → List Nat
  | nil, _ => []
  | instr inst rest, address => rest.ends (address + templateSize inst)
  | block head body last rest, address =>
      let first := address + head.size
      let loop_end := first + body.size
      loop_end :: (body.ends first ++ rest.ends (loop_end + templateSize last))

section
variable {M : Type} (bus : Bus M) (IMEM : BitVec 16 → BitVec 16) (isLoopEnd : BitVec 16 → Bool)

/-- A program at an address, with all its loops known to the analysis. -/
structure Code.Placed (c : Code) (address : Nat) : Prop where
  nested : c.Nested
  meets : c.Meets
  straight : c.All (Straight bus)
  loaded : c.Loaded IMEM address
  fits : address + c.size < 2 ^ 16
  shallow : c.depth ≤ 31
  flagged : ∀ e ∈ c.ends address, isLoopEnd (BitVec.ofNat 16 e) = true

variable {bus IMEM isLoopEnd}

theorem Code.Placed.instr {inst : BitVec 16} {rest : Code} {address : Nat}
    (placed : (Code.instr inst rest).Placed bus IMEM isLoopEnd address) :
    Straight bus inst ∧ IMEM (BitVec.ofNat 16 address) = inst ∧
      rest.Placed bus IMEM isLoopEnd (address + templateSize inst) := by
  obtain ⟨nested, meets, ⟨straight, others⟩, ⟨here, loaded⟩, fits, shallow, flagged⟩ := placed
  rw [Code.size] at fits
  exact ⟨straight, here, nested, meets, others, loaded, by omega, shallow, flagged⟩

theorem Code.Placed.body {head : LoopHead} {body rest : Code} {last : BitVec 16} {address : Nat}
    (placed : (Code.block head body last rest).Placed bus IMEM isLoopEnd address) :
    body.Placed bus IMEM isLoopEnd (address + head.size) := by
  obtain ⟨nested, meets, straight, loaded, fits, shallow, flagged⟩ := placed
  rw [Code.size] at fits
  rw [Code.depth] at shallow
  refine ⟨nested.2.1, meets.2.2.1, straight.1, loaded.2.2.1, by omega, by omega, fun e member => ?_⟩
  exact flagged e (List.mem_cons_of_mem _ (List.mem_append_left _ member))

theorem Code.Placed.rest {head : LoopHead} {body rest : Code} {last : BitVec 16} {address : Nat}
    (placed : (Code.block head body last rest).Placed bus IMEM isLoopEnd address) :
    rest.Placed bus IMEM isLoopEnd (address + head.size + body.size + 1) := by
  obtain ⟨nested, meets, straight, loaded, fits, shallow, flagged⟩ := placed
  rw [Code.size] at fits
  rw [Code.depth] at shallow
  obtain ⟨-, one, -, meets⟩ := meets
  have loaded := loaded.2.2.2.2
  rw [Code.ends, one] at flagged
  rw [one] at fits loaded
  refine ⟨nested.2.2, meets, straight.2.2, loaded, by omega, by omega, fun e member => ?_⟩
  exact flagged e (List.mem_cons_of_mem _ (List.mem_append_right _ member))

end

end Phocoena.DSP
