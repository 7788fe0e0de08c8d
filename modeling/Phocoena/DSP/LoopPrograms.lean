import Phocoena.DSP.Tables

/-! # Hardware loops of the DSP

The instructions that start a loop, the end of a loop, and the analysis that says where loops may
end. Of the analysis only the ends of loops are kept, and a step counts no cycles.
-/

namespace Phocoena.DSP

/-- What is behind the memory keeps the pending exceptions. -/
structure Exceptions (M : Type) where
  get : M → BitVec 8
  clear : Nat → M → M

def SR_INT_ENABLE : BitVec 16 := 0x0200
def SR_EXT_INT_ENABLE : BitVec 16 := 0x0800

namespace StackRegister

def Call : BitVec 2 := 0
def Data : BitVec 2 := 1
def LoopAddress : BitVec 2 := 2
def LoopCounter : BitVec 2 := 3

end StackRegister

open StackRegister

/-! ## Sizes -/

/-- The `size` column of the instruction's template. -/
def Op.size : Op → Nat
  | .lri | .lr | .sr | .si | .addi | .xori | .andi | .ori | .cmpi | .andf | .andcf => 2
  | _ => 1

/-- The size in the instruction's template, which is 1 for a word without a row. -/
def templateSize (inst : BitVec 16) : Nat :=
  match GetOp inst with
  | some op => op.size
  | none =>
      -- jumps, calls and the loops over blocks
      if inst &&& 0xfff0 = 0x0290 ∨ inst &&& 0xfff0 = 0x02b0 ∨ inst &&& 0xffe0 = 0x0060 ∨
        inst &&& 0xff00 = 0x1100 then 2 else 1

section
variable {M : Type} (bus : Bus M) (ex : Exceptions M)

namespace State

def PeekInstruction (s : State M) : BitVec 16 := bus.ReadIMEM s.memory s.pc

def SkipInstruction (s : State M) : State M :=
  { s with pc := s.pc + BitVec.ofNat 16 (templateSize (s.PeekInstruction bus)) }

def CheckExceptions (s : State M) : State M :=
  if ex.get s.memory = 0 then s
  else
    match [7, 6, 5, 4, 3, 2, 1].find? fun i =>
      (ex.get s.memory).getLsbD i && (s.IsSRFlagSet SR_INT_ENABLE || i == 7) with
    | none => s
    | some i =>
        -- store pc and sr until RTI
        let s := (s.StoreStack Call s.pc).StoreStack Data s.sr
        { s with
          pc := BitVec.ofNat 16 (i * 2)
          memory := ex.clear i s.memory
          sr := s.sr &&& ~~~(if i = 7 then SR_EXT_INT_ENABLE else SR_INT_ENABLE) }

end State

/-! ## Loops -/

namespace Interpreter

/-- The comparison is of signed words: nothing ends before address 0. -/
def HandleLoop (s : State M) : State M :=
  let rCallAddress := s.st Call
  let rLoopAddress := s.st LoopAddress
  let rLoopCounter := s.st LoopCounter
  if 0 < rLoopAddress ∧ 0 < rLoopCounter ∧ s.pc.toNat = rLoopAddress.toNat + 1 then
    let s := { s with st := Function.update s.st LoopCounter (rLoopCounter - 1) }
    if 0 < rLoopCounter - 1 then { s with pc := rCallAddress }
    else (((s.PopStack Call).2.PopStack LoopAddress).2.PopStack LoopCounter).2
  else s

/-- `cnt` rounds up to `loop_pc`, or none. -/
def startLoop (cnt loop_pc : BitVec 16) (s : State M) : State M :=
  if cnt ≠ 0 then
    ((s.StoreStack Call s.pc).StoreStack LoopAddress loop_pc).StoreStack LoopCounter cnt
  else { s with pc := loop_pc }.SkipInstruction bus

def loop (opc : BitVec 16) (s : State M) : State M :=
  let (cnt, s) := s.OpReadRegister (lowReg opc)
  startLoop bus cnt s.pc s

def loopi (opc : BitVec 16) (s : State M) : State M :=
  startLoop bus (opc &&& 0xff) s.pc s

def bloop (opc : BitVec 16) (s : State M) : State M :=
  let (cnt, s) := s.OpReadRegister (lowReg opc)
  let (loop_pc, s) := s.FetchInstruction bus
  startLoop bus cnt loop_pc s

def bloopi (opc : BitVec 16) (s : State M) : State M :=
  let (loop_pc, s) := s.FetchInstruction bus
  startLoop bus (opc &&& 0xff) loop_pc s

/-- `ExecuteInstruction` with the loops; `none` for the rest of the flow of control. -/
def ExecuteWithLoops (inst : BitVec 16) (s : State M) : Option (State M) :=
  match GetOp inst with
  | some op => some (execute bus op inst s)
  | none =>
      if inst &&& 0xffe0 = 0x0040 then some (loop bus inst s)
      else if inst &&& 0xffe0 = 0x0060 then some (bloop bus inst s)
      else if inst &&& 0xff00 = 0x1000 then some (loopi bus inst s)
      else if inst &&& 0xff00 = 0x1100 then some (bloopi bus inst s)
      else none

def Step (isLoopEnd : BitVec 16 → Bool) (s : State M) : Option (State M) :=
  let s := s.CheckExceptions ex
  let (opc, s) := s.FetchInstruction bus
  (ExecuteWithLoops bus opc s).map fun s =>
    if isLoopEnd (s.pc - 1) then HandleLoop s else s

end Interpreter

end

/-! ## Analysis -/

namespace Analyzer

/-- `FindInstructionStarts` from `addr` on: the addresses marked as the end of a loop. -/
def FindInstructionStarts (ReadIMEM : BitVec 16 → BitVec 16) (end_addr : Nat) :
    Nat → Nat → List (BitVec 16)
  | 0, _ => []
  | fuel + 1, addr =>
      if addr < end_addr then
        let inst := ReadIMEM (BitVec.ofNat 16 addr)
        let loop_end :=
          if inst &&& 0xffe0 = 0x0060 ∨ inst &&& 0xff00 = 0x1100 then
            [ReadIMEM (BitVec.ofNat 16 (addr + 1))]
          else if inst &&& 0xffe0 = 0x0040 ∨ inst &&& 0xff00 = 0x1000 then
            [BitVec.ofNat 16 (addr + 1)]
          else []
        loop_end ++ FindInstructionStarts ReadIMEM end_addr fuel (addr + templateSize inst)
      else []

/-- `Analyze`: IRAM and IROM -/
def loopEnds (ReadIMEM : BitVec 16 → BitVec 16) : List (BitVec 16) :=
  FindInstructionStarts ReadIMEM 0x1000 0x1000 0x0000 ++
    FindInstructionStarts ReadIMEM 0x9000 0x1000 0x8000

def IsLoopEnd (ReadIMEM : BitVec 16 → BitVec 16) (address : BitVec 16) : Bool :=
  (loopEnds ReadIMEM).contains address

end Analyzer

end Phocoena.DSP

/-! ## Programs with loops

Programs that are built from straight-line instructions and nested loops, and what they mean when
every body is written out as often as its count says. The stacks of loops play no part in that.
-/

namespace Phocoena.DSP

/-! ## Stacks -/

/-- The stacks with their tops. -/
structure LoopStacks where
  st : BitVec 2 → BitVec 16
  ptr : BitVec 2 → BitVec 5
  slots : BitVec 2 → BitVec 5 → BitVec 16

namespace LoopStacks

def store (reg : BitVec 2) (val : BitVec 16) (k : LoopStacks) : LoopStacks where
  st := Function.update k.st reg val
  ptr := Function.update k.ptr reg (k.ptr reg + 1)
  slots := Function.update k.slots reg (Function.update (k.slots reg) (k.ptr reg + 1) (k.st reg))

def pop (reg : BitVec 2) (k : LoopStacks) : LoopStacks where
  st := Function.update k.st reg (k.slots reg (k.ptr reg))
  ptr := Function.update k.ptr reg (k.ptr reg - 1)
  slots := k.slots

/-- The call stack and the two stacks of loops agree: their tops, how deep they are, and their
newest `n` entries. -/
structure Agree (n : Nat) (k k' : LoopStacks) : Prop where
  st : ∀ r ≠ StackRegister.Data, k'.st r = k.st r
  ptr : ∀ r ≠ StackRegister.Data, k'.ptr r = k.ptr r
  slots : ∀ r ≠ StackRegister.Data, ∀ i < n,
    k'.slots r (k.ptr r - BitVec.ofNat 5 i) = k.slots r (k.ptr r - BitVec.ofNat 5 i)

/-- No loop is active that ends at one of the addresses. -/
def Off (k : LoopStacks) (first last : Nat) : Prop :=
  k.st StackRegister.LoopAddress = 0 ∨ k.st StackRegister.LoopCounter = 0 ∨
    (k.st StackRegister.LoopAddress).toNat < first ∨ last ≤ (k.st StackRegister.LoopAddress).toNat

end LoopStacks

namespace State

variable {M : Type}

def loopStacks (s : State M) : LoopStacks := ⟨s.st, s.reg_stack_ptrs, s.reg_stacks⟩

/-- All stacks but the data stack are replaced. -/
def withLoopStacks (k : LoopStacks) (s : State M) : State M :=
  { s with
    st := Function.update k.st StackRegister.Data (s.st StackRegister.Data)
    reg_stacks := Function.update k.slots StackRegister.Data (s.reg_stacks StackRegister.Data)
    reg_stack_ptrs :=
      Function.update k.ptr StackRegister.Data (s.reg_stack_ptrs StackRegister.Data) }

end State

/-! ## Programs -/

/-- The instruction that starts a loop. -/
inductive LoopHead
  | loop (reg : BitVec 5)
  | loopi (count : BitVec 8)
  | bloop (reg : BitVec 5)
  | bloopi (count : BitVec 8)
deriving DecidableEq

namespace LoopHead

def word : LoopHead → BitVec 16
  | loop reg => 0x0040 ||| reg.setWidth 16
  | loopi count => 0x1000 ||| count.setWidth 16
  | bloop reg => 0x0060 ||| reg.setWidth 16
  | bloopi count => 0x1100 ||| count.setWidth 16

/-- Only the next instruction is repeated. -/
def single : LoopHead → Bool
  | loop _ | loopi _ => true
  | bloop _ | bloopi _ => false

def size (head : LoopHead) : Nat := if head.single then 1 else 2

def count {M : Type} : LoopHead → State M → BitVec 16 × State M
  | loop reg, s | bloop reg, s => s.OpReadRegister reg
  | loopi count, s | bloopi count, s => (count.setWidth 16, s)

/-- The count is not taken from the call stack or a stack of loops. -/
def Counts : LoopHead → Prop
  | loop reg | bloop reg => reg ≠ 0xc ∧ reg ≠ 0xe ∧ reg ≠ 0xf
  | loopi _ | bloopi _ => True

instance : DecidablePred Counts := fun head =>
  match head with
  | loop reg | bloop reg => inferInstanceAs (Decidable (reg ≠ 0xc ∧ reg ≠ 0xe ∧ reg ≠ 0xf))
  | loopi _ | bloopi _ => .isTrue trivial

end LoopHead

/-- Instructions and loops one after the other; `last` is the last instruction of a loop. -/
inductive Code
  | nil
  | instr (inst : BitVec 16) (rest : Code)
  | block (head : LoopHead) (body : Code) (last : BitVec 16) (rest : Code)
deriving DecidableEq

namespace Code

def size : Code → Nat
  | nil => 0
  | instr inst rest => templateSize inst + rest.size
  | block head body last rest => head.size + body.size + templateSize last + rest.size

/-- How deep loops are nested. -/
def depth : Code → Nat
  | nil => 0
  | instr _ rest => rest.depth
  | block _ body _ rest => max (body.depth + 1) rest.depth

/-- The program is in memory at `address`; the second words of instructions are not looked at. -/
def Loaded (ReadIMEM : BitVec 16 → BitVec 16) : Code → Nat → Prop
  | nil, _ => True
  | instr inst rest, address =>
      ReadIMEM (BitVec.ofNat 16 address) = inst ∧ Loaded ReadIMEM rest (address + templateSize inst)
  | block head body last rest, address =>
      let first := address + head.size
      let loop_end := first + body.size
      ReadIMEM (BitVec.ofNat 16 address) = head.word ∧
        (head.single = false →
          ReadIMEM (BitVec.ofNat 16 (address + 1)) = BitVec.ofNat 16 loop_end) ∧
        Loaded ReadIMEM body first ∧ ReadIMEM (BitVec.ofNat 16 loop_end) = last ∧
        Loaded ReadIMEM rest (loop_end + templateSize last)

/-- A loop over one instruction has no more than that. -/
def Nested : Code → Prop
  | nil => True
  | instr _ rest => rest.Nested
  | block head body _ rest => (head.single = true → body = nil) ∧ body.Nested ∧ rest.Nested

/-- What holds of all instructions that are not the start of a loop. -/
def All (p : BitVec 16 → Prop) : Code → Prop
  | nil => True
  | instr inst rest => p inst ∧ rest.All p
  | block _ body last rest => body.All p ∧ p last ∧ rest.All p

/-- Every loop takes its count from elsewhere, and ends with an instruction of one word. -/
def Meets : Code → Prop
  | nil => True
  | instr _ rest => rest.Meets
  | block head body last rest => head.Counts ∧ templateSize last = 1 ∧ body.Meets ∧ rest.Meets

end Code

/-! ## Meaning -/

section
variable {M : Type} (bus : Bus M)

/-- The instruction at the program counter. -/
def instruction (inst : BitVec 16) (s : State M) : State M :=
  match GetOp inst with
  | some op => Interpreter.execute bus op inst { s with pc := s.pc + 1 }
  | none => s

/-- A straight-line instruction goes on behind itself, and neither looks at the call stack or the
stacks of loops nor changes them. Between instructions nothing is left to write back. -/
structure Straight (inst : BitVec 16) : Prop where
  row : ∃ op, GetOp inst = some op
  pc : ∀ s : State M, s.write_back_log = [] →
    (instruction bus inst s).pc = s.pc + BitVec.ofNat 16 (templateSize inst)
  log : ∀ s : State M, s.write_back_log = [] → (instruction bus inst s).write_back_log = []
  commutes : ∀ (s : State M) (k : LoopStacks), s.write_back_log = [] →
    instruction bus inst (s.withLoopStacks k) = (instruction bus inst s).withLoopStacks k

/-- `n` rounds, with the states before each of their instructions. -/
def rounds (round : State M → List (State M) × State M) : Nat → State M →
    List (State M) × State M
  | 0, s => ([], s)
  | n + 1, s =>
      let once := round s
      let more := rounds round n once.2
      (once.1 ++ more.1, more.2)

/-- The program with its bodies written out: the states before each instruction, and the last. -/
def Code.run : Code → State M → List (State M) × State M
  | nil, s => ([], s)
  | instr inst rest, s =>
      let more := rest.run (instruction bus inst s)
      (s :: more.1, more.2)
  | block head body last rest, s =>
      let counted := head.count { s with pc := s.pc + 1 }
      let first := s.pc + BitVec.ofNat 16 head.size
      let round := fun s : State M =>
        let once := body.run { s with pc := first }
        (once.1 ++ [once.2], instruction bus last once.2)
      let repeated := rounds round counted.1.toNat counted.2
      let more := rest.run { repeated.2 with
        pc := first + BitVec.ofNat 16 body.size + BitVec.ofNat 16 (templateSize last) }
      (s :: (repeated.1 ++ more.1), more.2)

/-- The run of a step function, with the program counters of the instructions. -/
def Traced (step : State M → Option (State M)) : State M → List (BitVec 16) → State M → Prop
  | s, [], s' => s = s'
  | s, pc :: trace, s' => s.pc = pc ∧ ∃ next, step s = some next ∧ Traced step next trace s'

end

end Phocoena.DSP
