import Phocoena.DSP.LoopRuns

/-! # Traces of programs with loops

The induction over a program and the rounds of its loops, and what it says of a program that is
loaded at the start of the instruction memory.
-/

namespace Phocoena.DSP

open StackRegister LoopStacks

section
variable {M : Type} (bus : Bus M) (ex : Exceptions M) (IMEM : BitVec 16 → BitVec 16)
  (isLoopEnd : BitVec 16 → Bool)

/-- Every run of the program at its address is the run written out, and leaves the stacks. -/
def Code.Follows (c : Code) (address : Nat) : Prop :=
  ∀ (t : State M) (k : LoopStacks), t.pc = BitVec.ofNat 16 address → t.write_back_log = [] →
    k.Off address (address + c.size) → (∀ u ∈ (c.run bus t).1, Quiet bus ex IMEM u) →
    ((c.run bus t).2.pc = BitVec.ofNat 16 (address + c.size) ∧ (c.run bus t).2.write_back_log = []) ∧
    ∃ k', Agree (32 - c.depth) k k' ∧
      Traced (Interpreter.Step bus ex isLoopEnd) (t.withLoopStacks k)
        ((c.run bus t).1.map State.pc) ((c.run bus t).2.withLoopStacks k')

variable {bus ex IMEM isLoopEnd}

theorem templateSize_pos (inst : BitVec 16) : 0 < templateSize inst := by
  rw [templateSize]
  split
  · rename_i op _
    cases op <;> decide
  · split <;> decide

theorem ofNat_toNat_of_lt {n : Nat} (lt : n < 2 ^ 16) : (BitVec.ofNat 16 n).toNat = n := by
  rw [BitVec.toNat_ofNat, Nat.mod_eq_of_lt lt]

theorem Code.Follows.instr {inst : BitVec 16} {rest : Code} {address : Nat}
    (straight : Straight bus inst) (there : IMEM (BitVec.ofNat 16 address) = inst)
    (fits : address + templateSize inst + rest.size < 2 ^ 16)
    (follows : rest.Follows bus ex IMEM isLoopEnd (address + templateSize inst)) :
    (Code.instr inst rest).Follows bus ex IMEM isLoopEnd address := by
  intro t k here empty off quiet
  have pos := templateSize_pos inst
  have next : (instruction bus inst t).pc = BitVec.ofNat 16 (address + templateSize inst) := by
    rw [straight.pc t empty, here, BitVec.ofNat_add]
  have calm : Quiet bus ex IMEM t := quiet t List.mem_cons_self
  rw [Code.size] at off
  obtain ⟨⟨pc, log⟩, k', agree, traced⟩ := follows (instruction bus inst t) k next
    (straight.log t empty) (off.mono (by omega) (by omega)) fun u member => quiet u (List.mem_cons_of_mem _ member)
  refine ⟨⟨?_, log⟩, k', agree, rfl, _, ?_, traced⟩
  · rw [Code.size, ← Nat.add_assoc]
    exact pc
  · rw [calm.step_instr k isLoopEnd straight empty (by rw [here, there]), endStep_off off]
    · rw [next, ofNat_toNat_of_lt (by omega)]
      omega
    · rw [next, ofNat_toNat_of_lt (by omega)]
      omega

/-- One round of a loop over a body and its last instruction. -/
def loopRound (bus : Bus M) (body : Code) (last first : BitVec 16) (s : State M) :
    List (State M) × State M :=
  ((body.run bus { s with pc := first }).1 ++ [(body.run bus { s with pc := first }).2],
    instruction bus last (body.run bus { s with pc := first }).2)

theorem rounds_pc (body : Code) (last first : BitVec 16) (n : Nat) (s : State M) :
    rounds (loopRound bus body last first) (n + 1) { s with pc := first } =
      rounds (loopRound bus body last first) (n + 1) s := rfl

section
variable {body : Code} {last : BitVec 16} {first : Nat} {m : Nat} {o : LoopStacks}
  (follows : body.Follows bus ex IMEM isLoopEnd first) (straight : Straight bus last)
  (one : templateSize last = 1) (there : IMEM (BitVec.ofNat 16 (first + body.size)) = last)
  (flagged : isLoopEnd (BitVec.ofNat 16 (first + body.size)) = true) (positive : 0 < first)
  (fits : first + body.size + 1 < 2 ^ 16) (deep : m + 1 = 32 - body.depth)

include follows straight one there flagged positive fits deep

theorem round_follows {t : State M} {k : LoopStacks} {counter : BitVec 16} (active : 0 < counter)
    (here : t.pc = BitVec.ofNat 16 first) (empty : t.write_back_log = [])
    (pushed : Pushed m o (BitVec.ofNat 16 first) (BitVec.ofNat 16 (first + body.size)) counter k)
    (quiet : ∀ u ∈ (loopRound bus body last (BitVec.ofNat 16 first) t).1, Quiet bus ex IMEM u) :
    ((loopRound bus body last (BitVec.ofNat 16 first) t).2.pc =
        BitVec.ofNat 16 (first + body.size + 1) ∧
      (loopRound bus body last (BitVec.ofNat 16 first) t).2.write_back_log = []) ∧
      ∃ k', Pushed m o (BitVec.ofNat 16 first) (BitVec.ofNat 16 (first + body.size)) counter k' ∧
        Traced (Interpreter.Step bus ex isLoopEnd) (t.withLoopStacks k)
          ((loopRound bus body last (BitVec.ofNat 16 first) t).1.map State.pc)
          (if 0 < counter - 1 then
            { (loopRound bus body last (BitVec.ofNat 16 first) t).2 with
              pc := BitVec.ofNat 16 first }.withLoopStacks (k'.setCounter (counter - 1))
          else (loopRound bus body last (BitVec.ofNat 16 first) t).2.withLoopStacks
            (k'.setCounter (counter - 1)).pop3) := by
  have same : { t with pc := BitVec.ofNat 16 first } = t := by rw [← here]
  rw [loopRound, same] at quiet ⊢
  dsimp only at quiet ⊢
  have address := ofNat_toNat_of_lt (show first + body.size < 2 ^ 16 by omega)
  have off : k.Off first (first + body.size) := by
    refine .inr (.inr (.inr ?_))
    rw [pushed.address, address]
  obtain ⟨⟨pc, log⟩, k', agree, traced⟩ := follows t k here empty off fun u member =>
    quiet u (List.mem_append_left _ member)
  have calm : Quiet bus ex IMEM (body.run bus t).2 :=
    quiet _ (List.mem_append_right _ (List.mem_singleton_self _))
  have pushed' := pushed.agree (deep ▸ agree)
  have after : (instruction bus last (body.run bus t).2).pc =
      BitVec.ofNat 16 (first + body.size + 1) := by
    rw [straight.pc _ log, pc, one, ← BitVec.ofNat_add]
  refine ⟨⟨after, straight.log _ log⟩, k', pushed', ?_⟩
  rw [List.map_append]
  refine traced.append (Traced.single ?_)
  rw [calm.step_instr k' isLoopEnd straight log (by rw [pc, there]),
    endStep_counts pushed' flagged ?_ active ?_]
  · rw [BitVec.lt_def, address]
    show 0 < first + body.size
    omega
  · rw [after, address, ofNat_toNat_of_lt fits]

theorem rounds_follow (n : Nat) :
    ∀ (t : State M) (k : LoopStacks), n + 1 < 2 ^ 16 → t.pc = BitVec.ofNat 16 first →
      t.write_back_log = [] → Pushed m o (BitVec.ofNat 16 first) (BitVec.ofNat 16 (first + body.size))
        (BitVec.ofNat 16 (n + 1)) k →
      (∀ u ∈ (rounds (loopRound bus body last (BitVec.ofNat 16 first)) (n + 1) t).1,
        Quiet bus ex IMEM u) →
      ((rounds (loopRound bus body last (BitVec.ofNat 16 first)) (n + 1) t).2.pc =
          BitVec.ofNat 16 (first + body.size + 1) ∧
        (rounds (loopRound bus body last (BitVec.ofNat 16 first)) (n + 1) t).2.write_back_log = []) ∧
        ∃ k', Agree m o k' ∧
          Traced (Interpreter.Step bus ex isLoopEnd) (t.withLoopStacks k)
            ((rounds (loopRound bus body last (BitVec.ofNat 16 first)) (n + 1) t).1.map State.pc)
            ((rounds (loopRound bus body last (BitVec.ofNat 16 first)) (n + 1) t).2.withLoopStacks
              k') := by
  induction n with
  | zero =>
      intro t k _ here empty pushed quiet
      rw [rounds] at quiet ⊢
      dsimp only [rounds] at quiet ⊢
      rw [List.append_nil] at quiet ⊢
      obtain ⟨pc, k', pushed', traced⟩ := round_follows follows straight one there flagged positive
        fits deep (by decide) here empty pushed quiet
      rw [if_neg (by decide)] at traced
      exact ⟨pc, _, (pushed'.count _).popped, traced⟩
  | succ n ih =>
      intro t k small here empty pushed quiet
      rw [rounds] at quiet ⊢
      dsimp only at quiet ⊢
      have active : 0 < BitVec.ofNat 16 (n + 1 + 1) := by
        rw [BitVec.lt_def, ofNat_toNat_of_lt small]
        exact Nat.succ_pos _
      have left : BitVec.ofNat 16 (n + 1 + 1) - 1 = BitVec.ofNat 16 (n + 1) := by
        rw [BitVec.ofNat_add]
        exact BitVec.add_sub_cancel ..
      have more : 0 < BitVec.ofNat 16 (n + 1) := by
        rw [BitVec.lt_def, ofNat_toNat_of_lt (by omega)]
        exact Nat.succ_pos _
      obtain ⟨⟨-, log⟩, k', pushed', traced⟩ := round_follows follows straight one there flagged positive
        fits deep active here empty pushed fun u member => quiet u (List.mem_append_left _ member)
      rw [left, if_pos more] at traced
      obtain ⟨pc, k'', agree, rest⟩ := ih
        { (loopRound bus body last (BitVec.ofNat 16 first) t).2 with pc := BitVec.ofNat 16 first }
        _ (by omega) rfl log (pushed'.count _) fun u member => quiet u (List.mem_append_right _ member)
      rw [List.map_append]
      exact ⟨pc, k'', agree, traced.append rest⟩

end

theorem LoopHead.size_pos (head : LoopHead) : 0 < head.size := by
  rw [size]
  split <;> decide

section
variable {head : LoopHead} {body rest : Code} {last : BitVec 16} {address : Nat} {t : State M}
  {k : LoopStacks}

/-- What is left of a program when the rounds of its first loop are over. -/
def afterRounds (bus : Bus M) (head : LoopHead) (body rest : Code) (last : BitVec 16) (t : State M)
    (repeated : List (State M) × State M) : List (State M) × State M :=
  rest.run bus { repeated.2 with
    pc := t.pc + BitVec.ofNat 16 head.size + BitVec.ofNat 16 body.size +
      BitVec.ofNat 16 (templateSize last) }

theorem Code.run_block (bus : Bus M) (head : LoopHead) (body rest : Code) (last : BitVec 16)
    (t : State M) {repeated : List (State M) × State M}
    (all : rounds (loopRound bus body last (t.pc + BitVec.ofNat 16 head.size))
      (head.count { t with pc := t.pc + 1 }).1.toNat (head.count { t with pc := t.pc + 1 }).2 =
        repeated) :
    (Code.block head body last rest).run bus t =
      (t :: (repeated.1 ++ (afterRounds bus head body rest last t repeated).1),
        (afterRounds bus head body rest last t repeated).2) := by
  subst all
  rfl

/-- The step of the instruction that starts a loop, before its end is handled. -/
theorem Code.Placed.start (placed : (Code.block head body last rest).Placed bus IMEM isLoopEnd address)
    (here : t.pc = BitVec.ofNat 16 address) (calm : Quiet bus ex IMEM t) :
    Interpreter.Step bus ex isLoopEnd (t.withLoopStacks k) =
      some (endStep isLoopEnd (if (head.count { t with pc := t.pc + 1 }).1 ≠ 0 then
        { (head.count { t with pc := t.pc + 1 }).2 with
          pc := BitVec.ofNat 16 (address + head.size) }.withLoopStacks
            (k.push (BitVec.ofNat 16 (address + head.size))
              (BitVec.ofNat 16 (address + head.size + body.size))
              (head.count { t with pc := t.pc + 1 }).1)
      else
        { (head.count { t with pc := t.pc + 1 }).2 with
          pc := BitVec.ofNat 16 (address + head.size + body.size + 1) }.withLoopStacks k)) := by
  obtain ⟨counts, one, -, -⟩ := placed.meets
  obtain ⟨atHead, second, -, atLast, -⟩ := placed.loaded
  have single : head.single = true →
      BitVec.ofNat 16 (address + head.size + body.size) = t.pc + 1 := by
    intro yes
    rw [placed.nested.1 yes, here, LoopHead.size, if_pos yes, Code.size, Nat.add_zero,
      BitVec.ofNat_add]
    rfl
  have double : head.single = false →
      IMEM (t.pc + 1) = BitVec.ofNat 16 (address + head.size + body.size) := by
    intro no
    rw [← second no, here, BitVec.ofNat_add]
    rfl
  rw [calm.step k isLoopEnd, here, atHead, ← here,
    calm.execute_head k counts single double atLast, one, here, ← BitVec.ofNat_add,
    ← BitVec.ofNat_add]
  rfl

/-- The rounds of a loop, or none of them. -/
def allRounds (bus : Bus M) (head : LoopHead) (body : Code) (last : BitVec 16) (t : State M) :
    List (State M) × State M :=
  rounds (loopRound bus body last (t.pc + BitVec.ofNat 16 head.size))
    (head.count { t with pc := t.pc + 1 }).1.toNat (head.count { t with pc := t.pc + 1 }).2

theorem Code.Placed.loop
    (placed : (Code.block head body last rest).Placed bus IMEM isLoopEnd address)
    (follows : body.Follows bus ex IMEM isLoopEnd (address + head.size))
    (here : t.pc = BitVec.ofNat 16 address) (empty : t.write_back_log = [])
    (off : k.Off address (address + (Code.block head body last rest).size))
    (calm : Quiet bus ex IMEM t)
    (quiet : ∀ u ∈ (allRounds bus head body last t).1, Quiet bus ex IMEM u) :
    (allRounds bus head body last t).2.write_back_log = [] ∧ ∃ k', Agree (31 - body.depth) k k' ∧
      Traced (Interpreter.Step bus ex isLoopEnd) (t.withLoopStacks k)
        (t.pc :: (allRounds bus head body last t).1.map State.pc)
        ({ (allRounds bus head body last t).2 with
          pc := BitVec.ofNat 16 (address + head.size + body.size + 1) }.withLoopStacks k') := by
  have positive := head.size_pos
  have fits := placed.fits
  have shallow := placed.shallow
  obtain ⟨-, one, -, -⟩ := placed.meets
  rw [Code.size, one] at off fits
  rw [Code.depth] at shallow
  have start := placed.start (k := k) here calm
  have first : t.pc + BitVec.ofNat 16 head.size = BitVec.ofNat 16 (address + head.size) := by
    rw [here, BitVec.ofNat_add]
  obtain ⟨-, -, -, log⟩ := LoopHead.count_withLoopStacks placed.meets.1 { t with pc := t.pc + 1 } k
  rw [allRounds, first] at quiet ⊢
  generalize head.count { t with pc := t.pc + 1 } = counted at start quiet log ⊢
  obtain ⟨count, u⟩ := counted
  dsimp only at start quiet log ⊢
  rw [empty] at log
  by_cases none : count = 0
  · subst none
    rw [if_neg (by simp), endStep_off off] at start
    · exact ⟨log, k, Agree.refl _ k, rfl, _, start, rfl⟩
    · dsimp only
      rw [ofNat_toNat_of_lt (by omega)]
      omega
    · dsimp only
      rw [ofNat_toNat_of_lt (by omega)]
      omega
  · obtain ⟨n, number⟩ : ∃ n, count.toNat = n + 1 := by
      refine Nat.exists_eq_succ_of_ne_zero fun zero => none (BitVec.eq_of_toNat_eq ?_)
      rw [zero]
      rfl
    have small := count.isLt
    have value : BitVec.ofNat 16 (n + 1) = count := by
      rw [← number, BitVec.ofNat_toNat, BitVec.setWidth_eq]
    have pushed := (pushed_push k (BitVec.ofNat 16 (address + head.size))
      (BitVec.ofNat 16 (address + head.size + body.size)) count).mono
        (show 31 - body.depth ≤ 31 by omega)
    have outside : (k.push (BitVec.ofNat 16 (address + head.size))
        (BitVec.ofNat 16 (address + head.size + body.size)) count).Off address
          (address + head.size) := by
      refine .inr (.inr (.inr ?_))
      rw [pushed.address, ofNat_toNat_of_lt (by omega)]
      omega
    rw [if_pos none, endStep_off outside] at start
    · rw [number, ← rounds_pc] at quiet ⊢
      rw [← value] at pushed start
      obtain ⟨⟨pc, log'⟩, k', agree, traced⟩ := rounds_follow follows placed.straight.2.1 one
        placed.loaded.2.2.2.1 (placed.flagged _ List.mem_cons_self) (by omega) (by omega)
        (by omega : 31 - body.depth + 1 = 32 - body.depth) n
        { u with pc := BitVec.ofNat 16 (address + head.size) } _ (by omega) rfl log pushed quiet
      refine ⟨log', k', agree, rfl, _, start, ?_⟩
      rw [← pc]
      exact traced
    · dsimp only
      rw [ofNat_toNat_of_lt (by omega)]
      omega
    · dsimp only
      rw [ofNat_toNat_of_lt (by omega)]

end

/-- The program runs as it is written out, wherever it is placed. -/
theorem Code.Placed.follows {c : Code} {address : Nat}
    (placed : c.Placed bus IMEM isLoopEnd address) :
    c.Follows bus ex IMEM isLoopEnd address := by
  induction c generalizing address with
  | nil =>
      intro t k here empty _ _
      exact ⟨⟨here, empty⟩, k, Agree.refl _ k, rfl⟩
  | instr inst rest ih =>
      obtain ⟨straight, there, after⟩ := placed.instr
      have fits := placed.fits
      rw [Code.size] at fits
      exact Code.Follows.instr straight there (by omega) (ih after)
  | block head body last rest ihBody ihRest =>
      intro t k here empty off quiet
      obtain ⟨-, one, -, -⟩ := placed.meets
      have calm : Quiet bus ex IMEM t := quiet t List.mem_cons_self
      rw [Code.run_block bus head body rest last t rfl] at quiet ⊢
      obtain ⟨log, k', agree, rounds⟩ := placed.loop (ihBody placed.body) here empty off calm fun u member =>
        quiet u (List.mem_cons_of_mem _ (List.mem_append_left _ member))
      have behind : t.pc + BitVec.ofNat 16 head.size + BitVec.ofNat 16 body.size +
          BitVec.ofNat 16 (templateSize last) =
            BitVec.ofNat 16 (address + head.size + body.size + 1) := by
        rw [one, here, ← BitVec.ofNat_add, ← BitVec.ofNat_add, ← BitVec.ofNat_add]
      rw [afterRounds, behind] at quiet ⊢
      rw [Code.size, one] at off ⊢
      rw [Code.depth]
      obtain ⟨⟨pc, log'⟩, k'', agree', traced⟩ := ihRest placed.rest
        { (allRounds bus head body last t).2 with
          pc := BitVec.ofNat 16 (address + head.size + body.size + 1) } k' rfl log
        ((off.agree agree).mono (by omega) (by omega)) fun u member =>
          quiet u (List.mem_cons_of_mem _ (List.mem_append_right _ member))
      refine ⟨⟨?_, log'⟩, k'', (agree.mono (by omega)).trans (agree'.mono (by omega)), ?_⟩
      · rw [show address + (head.size + body.size + 1 + rest.size) =
          address + head.size + body.size + 1 + rest.size by omega]
        exact pc
      · have whole := rounds.append traced
        rw [List.map_cons, List.map_append]
        exact whole

end

/-! ## What the analysis finds -/

namespace LoopHead

theorem templateSize_of_none {inst : BitVec 16} (row : GetOp inst = none) :
    templateSize inst = if inst &&& 0xfff0 = 0x0290 ∨ inst &&& 0xfff0 = 0x02b0 ∨
      inst &&& 0xffe0 = 0x0060 ∨ inst &&& 0xff00 = 0x1100 then 2 else 1 := by
  rw [templateSize, row]

theorem templateSize_word (head : LoopHead) : templateSize head.word = head.size := by
  cases head with
  | loop reg =>
      rw [templateSize_of_none (loop_word reg).1]
      revert reg
      decide +kernel
  | loopi count =>
      rw [templateSize_of_none (loopi_word count).1]
      revert count
      decide +kernel
  | bloop reg =>
      rw [templateSize_of_none (bloop_word reg).1]
      revert reg
      decide +kernel
  | bloopi count =>
      rw [templateSize_of_none (bloopi_word count).1]
      revert count
      decide +kernel

theorem word_single (head : LoopHead) (single : head.single = true) :
    ¬ (head.word &&& 0xffe0 = 0x0060 ∨ head.word &&& 0xff00 = 0x1100) ∧
      (head.word &&& 0xffe0 = 0x0040 ∨ head.word &&& 0xff00 = 0x1000) := by
  cases head with
  | loop reg =>
      clear single
      revert reg
      decide +kernel
  | loopi count =>
      clear single
      revert count
      decide +kernel
  | bloop reg | bloopi count => cases single

theorem word_double (head : LoopHead) (double : head.single = false) :
    head.word &&& 0xffe0 = 0x0060 ∨ head.word &&& 0xff00 = 0x1100 := by
  cases head with
  | loop reg | loopi count => cases double
  | bloop reg => exact .inl (bloop_word reg).2.2.1
  | bloopi count => exact .inr (bloopi_word count).2.2.2.2.1

end LoopHead

section
variable {IMEM : BitVec 16 → BitVec 16} {end_addr : Nat}

open Analyzer

/-- The analysis finds all the loops of a program and gets to the address behind it. -/
theorem Code.Loaded.analyzed (c : Code) (fuel address : Nat) (loaded : c.Loaded IMEM address)
    (nested : c.Nested) (enough : c.size ≤ fuel) (inside : address + c.size ≤ end_addr) :
    (∀ e ∈ c.ends address, BitVec.ofNat 16 e ∈ FindInstructionStarts IMEM end_addr fuel address) ∧
      ∃ fuel', fuel ≤ fuel' + c.size ∧ ∀ e ∈ FindInstructionStarts IMEM end_addr fuel' (address + c.size),
        e ∈ FindInstructionStarts IMEM end_addr fuel address := by
  induction c generalizing fuel address with
  | nil => exact ⟨by simp [ends], fuel, by omega, by simp [size]⟩
  | instr inst rest ih =>
      obtain ⟨here, loaded⟩ := loaded
      have pos := templateSize_pos inst
      rw [size] at enough inside
      obtain ⟨fuel, rfl⟩ : ∃ f, fuel = f + 1 := ⟨fuel - 1, by omega⟩
      have step : ∀ e ∈ FindInstructionStarts IMEM end_addr fuel (address + templateSize inst),
          e ∈ FindInstructionStarts IMEM end_addr (fuel + 1) address := by
        intro e member
        rw [FindInstructionStarts, if_pos (by omega), here]
        exact List.mem_append_right _ member
      obtain ⟨found, fuel', le, later⟩ := ih fuel _ loaded nested (by omega) (by omega)
      refine ⟨fun e member => step _ (found e member), fuel', by rw [size]; omega, fun e member => ?_⟩
      rw [size, ← Nat.add_assoc] at member
      exact step e (later e member)
  | block head body last rest ihBody ihRest =>
      obtain ⟨here, second, atBody, atLast, loaded⟩ := loaded
      have pos := head.size_pos
      have pos' := templateSize_pos last
      rw [size] at enough inside
      obtain ⟨fuel, rfl⟩ : ∃ f, fuel = f + 1 := ⟨fuel - 1, by omega⟩
      have step : ∀ e ∈ FindInstructionStarts IMEM end_addr fuel (address + head.size),
          e ∈ FindInstructionStarts IMEM end_addr (fuel + 1) address := by
        intro e member
        rw [FindInstructionStarts, if_pos (by omega), here]
        dsimp only
        rw [LoopHead.templateSize_word]
        exact List.mem_append_right _ member
      obtain ⟨found, fuel₁, le₁, later₁⟩ := ihBody fuel _ atBody nested.2.1 (by omega) (by omega)
      obtain ⟨fuel₂, rfl⟩ : ∃ f, fuel₁ = f + 1 := ⟨fuel₁ - 1, by omega⟩
      have step' : ∀ e ∈ FindInstructionStarts IMEM end_addr fuel₂
          (address + head.size + body.size + templateSize last),
          e ∈ FindInstructionStarts IMEM end_addr (fuel₂ + 1) (address + head.size + body.size) := by
        intro e member
        rw [FindInstructionStarts, if_pos (by omega), atLast]
        exact List.mem_append_right _ member
      obtain ⟨found', fuel', le', later'⟩ := ihRest fuel₂ _ loaded nested.2.2 (by omega) (by omega)
      refine ⟨fun e member => ?_, fuel', by rw [size]; omega, fun e member => ?_⟩
      · rcases List.mem_cons.mp member with rfl | member
        · rw [FindInstructionStarts, if_pos (by omega), here]
          refine List.mem_append_left _ ?_
          cases kind : head.single with
          | true =>
              rw [if_neg (head.word_single kind).1, if_pos (head.word_single kind).2,
                List.mem_singleton, nested.1 kind, size, Nat.add_zero, LoopHead.size, if_pos kind]
          | false =>
              rw [if_pos (head.word_double kind), List.mem_singleton, second kind]
        · rcases List.mem_append.mp member with inBody | inRest
          · exact step _ (found e inBody)
          · exact step _ (later₁ _ (step' _ (found' e inRest)))
      · rw [size, show address + (head.size + body.size + templateSize last + rest.size) =
          address + head.size + body.size + templateSize last + rest.size by omega] at member
        exact step _ (later₁ _ (step' _ (later' e member)))

end

/-! ## A whole program -/

section
variable {M : Type} {bus : Bus M} {ex : Exceptions M}

end

/-! ## A program that counts to six -/

/-- Two rounds of `INC $ac0` in three rounds. -/
def countToSix : Code :=
  .block (.bloopi 3) (.block (.loopi 2) .nil 0x7600 .nil) 0x0000 .nil

def countToSixBus : Bus Unit where
  ReadDMEM _ _ := (0, ())
  WriteDMEM _ _ _ := ()
  ReadIMEM _ address := [0x1103, 0x0004, 0x1002, 0x7600, 0x0000].getD address.toNat 0x0021

def calmExceptions : Exceptions Unit := ⟨fun _ => 0, fun _ _ => ()⟩

def resetState : State Unit where
  ar _ := 0
  ix _ := 0
  wr _ := 0xffff
  st _ := 0
  reg_stacks _ _ := 0
  reg_stack_ptrs _ := 0
  cr := 0
  sr := 0
  prod := ⟨0, 0, 0, 0⟩
  axl _ := 0
  axh _ := 0
  ac _ := 0
  pc := 0
  memory := ()
  write_back_log := []
  asserts := true

theorem nop_straight : Straight countToSixBus 0x0000 :=
  ⟨⟨.nop, by decide⟩, fun _ _ => rfl, fun _ empty => empty, fun _ _ _ => rfl⟩

theorem inc_straight : Straight countToSixBus 0x7600 := by
  have row : GetOp 0x7600 = some .inc := by decide
  have alone : GetExtOp 0x7600 = .nop_ext := by rfl
  refine ⟨⟨.inc, row⟩, ?_, ?_, ?_⟩
  · rintro ⟨_⟩ rfl
    rfl
  · rintro ⟨_⟩ rfl
    rfl
  · rintro ⟨_⟩ k rfl
    rfl

end Phocoena.DSP
