import Phocoena.Lib.Runs
import Phocoena.VideoCommon.FifoBatch
import Mathlib.Logic.Function.Basic

/-! # The gather pipe and the graphics thread

The command FIFO between the CPU thread, which runs `GatherPipeBursted` for each gather block,
and the graphics thread, which runs the loop of `RunGpuLoop`. The registers that both use are
atomics: a step is one load, store or read-modify-write of them.
-/

namespace Phocoena.Fifo

/-- `CPBase` and `CPEnd` as the masks of their registers leave them: `CPEnd` is the address of
the last block. -/
structure Ring where
  CPBase : Nat
  CPEnd : Nat
  ordered : CPBase ≤ CPEnd
  base_aligned : CPBase % 32 = 0
  end_aligned : CPEnd % 32 = 0
  physical : CPEnd ≤ 0x1fffffff

/-- Where the CPU thread is in `GatherPipeBursted`, with the block that the burst is for. -/
inductive Cpu (Block : Type) where
  | idle
  | started (block : Block)
  | loadedWritePointer (block : Block) (write_ptr : Nat)
  | atEnd (block : Block)
  | loadedBase (block : Block) (base : Nat)
  | beforeEnd (block : Block)
  | moved (block : Block)

/-- Where the graphics thread is in a round of `RunGpuLoop`. -/
inductive Gpu where
  | idle
  | readable
  | runnable
  | loadedReadPointer (read_ptr : Nat)
  | loadedDistance (read_ptr distance : Nat)
  | copying (read_ptr : Nat) (batch : FifoBatchPlan) (copied : Nat)
  | copied (batch : FifoBatchPlan)
  | stored (batch : FifoBatchPlan)

structure State (Block : Type) where
  memory : Nat → Block
  CPWritePointer : Nat
  CPReadPointer : Nat
  CPReadWriteDistance : Nat
  cpu : Cpu Block
  gpu : Gpu
  /-- the blocks of the bursts that are over -/
  bursted : List Block
  /-- the blocks that the graphics thread has copied -/
  copied : List Block

/-- The registers that the graphics thread loads and the bursts do not touch can change between
any two of its steps. -/
structure Controls where
  bFF_BPEnable : Bool
  CPBreakpoint : Nat
  fifo_batch_blocks : Nat

inductive Action (Block : Type) where
  | gather (block : Block)
  | cpu
  | gpu (controls : Controls)

/-- `RunGpuLoop`'s choice of a batch. -/
def chooseBatch (ring : Ring) (controls : Controls) (read_ptr distance : Nat) : FifoBatchPlan :=
  if 1 < controls.fifo_batch_blocks then
    planFifoBatch read_ptr ring.CPBase ring.CPEnd distance controls.bFF_BPEnable
      controls.CPBreakpoint GATHER_PIPE_SIZE controls.fifo_batch_blocks
  else
    { blocks := 1, bytes := GATHER_PIPE_SIZE,
      next_read_ptr := nextReadPtr read_ptr ring.CPBase ring.CPEnd GATHER_PIPE_SIZE }

section
variable {Block : Type} (ring : Ring)

def cpuStep (s : State Block) : Option (State Block) :=
  match s.cpu with
  | .idle => none
  | .started block => some { s with cpu := .loadedWritePointer block s.CPWritePointer }
  | .loadedWritePointer block write_ptr =>
      some { s with cpu := if write_ptr = ring.CPEnd then .atEnd block else .beforeEnd block }
  | .atEnd block => some { s with cpu := .loadedBase block ring.CPBase }
  | .loadedBase block base => some { s with CPWritePointer := base, cpu := .moved block }
  | .beforeEnd block => some { s with
      CPWritePointer := add32 s.CPWritePointer GATHER_PIPE_SIZE, cpu := .moved block }
  | .moved block => some { s with
      CPReadWriteDistance := add32 s.CPReadWriteDistance GATHER_PIPE_SIZE
      cpu := .idle, bursted := s.bursted ++ [block] }

def gpuStep (controls : Controls) (s : State Block) : Option (State Block) :=
  match s.gpu with
  | .idle => if s.CPReadWriteDistance = 0 then none else some { s with gpu := .readable }
  | .readable =>
      if controls.bFF_BPEnable && s.CPReadPointer == controls.CPBreakpoint then
        some { s with gpu := .idle }
      else some { s with gpu := .runnable }
  | .runnable => some { s with gpu := .loadedReadPointer s.CPReadPointer }
  | .loadedReadPointer read_ptr =>
      some { s with gpu := .loadedDistance read_ptr s.CPReadWriteDistance }
  | .loadedDistance read_ptr distance =>
      some { s with gpu := .copying read_ptr (chooseBatch ring controls read_ptr distance) 0 }
  | .copying read_ptr batch copied =>
      some { s with
        gpu := if copied + 1 < batch.blocks then .copying read_ptr batch (copied + 1)
          else .copied batch
        copied := s.copied ++ [s.memory (read_ptr + copied * GATHER_PIPE_SIZE)] }
  | .copied batch => some { s with CPReadPointer := batch.next_read_ptr, gpu := .stored batch }
  | .stored batch => some { s with
      CPReadWriteDistance := sub32 s.CPReadWriteDistance batch.bytes, gpu := .idle }

def step (action : Action Block) (s : State Block) : Option (State Block) :=
  match action with
  | .gather block =>
      -- the block is in memory when `GatherPipeBursted` is called
      match s.cpu with
      | .idle => some { s with
          memory := Function.update s.memory s.CPWritePointer block, cpu := .started block }
      | _ => none
  | .cpu => cpuStep ring s
  | .gpu controls => gpuStep ring controls s

/-- What `GatherPipeBursted` asserts after a burst. -/
def NotOverflowed (s : State Block) : Prop := s.CPReadWriteDistance ≤ ring.CPEnd - ring.CPBase

instance (s : State Block) : Decidable (NotOverflowed ring s) :=
  inferInstanceAs (Decidable (s.CPReadWriteDistance ≤ ring.CPEnd - ring.CPBase))

/-- The distance from one pointer to another along the ring. -/
def Ring.distance (read_ptr write_ptr : Nat) : Nat :=
  if read_ptr ≤ write_ptr then write_ptr - read_ptr
  else ring.CPEnd - read_ptr + write_ptr - ring.CPBase + GATHER_PIPE_SIZE

/-- The blocks in memory from an address on. -/
def blocksFrom (memory : Nat → Block) : Nat → Nat → List Block
  | _, 0 => []
  | ptr, n + 1 => memory ptr ::
      blocksFrom memory (nextReadPtr ptr ring.CPBase ring.CPEnd GATHER_PIPE_SIZE) n

def unread (s : State Block) : List Block :=
  blocksFrom ring s.memory s.CPReadPointer (s.CPReadWriteDistance / GATHER_PIPE_SIZE)

/-- Neither thread is in the middle of a step, both pointers are at blocks of the ring, and the
distance is the one between them. -/
structure AtRest (s : State Block) : Prop where
  cpu : s.cpu = .idle
  gpu : s.gpu = .idle
  read_inside : ring.CPBase ≤ s.CPReadPointer ∧ s.CPReadPointer ≤ ring.CPEnd
  write_inside : ring.CPBase ≤ s.CPWritePointer ∧ s.CPWritePointer ≤ ring.CPEnd
  read_aligned : s.CPReadPointer % 32 = 0
  write_aligned : s.CPWritePointer % 32 = 0
  distance : s.CPReadWriteDistance = ring.distance s.CPReadPointer s.CPWritePointer

end

end Phocoena.Fifo
