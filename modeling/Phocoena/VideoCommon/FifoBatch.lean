import Phocoena.Lib.Loops
import Mathlib.Tactic.Ring
import Mathlib.Tactic.Linarith

/-! # FIFO batches

`PlanFifoBatch`: how many gather blocks the graphics thread takes from the command FIFO at
once. All quantities are 32-bit words and the arithmetic wraps as theirs does.
-/

namespace Phocoena.Fifo

def add32 (a b : Nat) : Nat := (a + b) % 2 ^ 32

def mul32 (a b : Nat) : Nat := a * b % 2 ^ 32

def sub32 (a b : Nat) : Nat := (a + (2 ^ 32 - b)) % 2 ^ 32

theorem add32_eq {a b : Nat} (lt : a + b < 2 ^ 32) : add32 a b = a + b := Nat.mod_eq_of_lt lt

theorem mul32_eq {a b : Nat} (lt : a * b < 2 ^ 32) : mul32 a b = a * b := Nat.mod_eq_of_lt lt

theorem sub32_eq {a b : Nat} (lt : a < 2 ^ 32) (le : b ≤ a) : sub32 a b = a - b := by
  unfold sub32
  omega

def GATHER_PIPE_SIZE : Nat := 32

structure FifoBatchPlan where
  blocks : Nat := 1
  bytes : Nat := 32
  next_read_ptr : Nat := 0
deriving DecidableEq, Repr

/-- The block after the one at `read_ptr`: `last` is the address of the ring's last block. -/
def nextReadPtr (read_ptr base last gather_size : Nat) : Nat :=
  if read_ptr = last then base else add32 read_ptr gather_size

/-- `last` is the source's `end`. -/
def planFifoBatch (read_ptr base last distance : Nat) (breakpoint_enabled : Bool)
    (breakpoint gather_size max_blocks : Nat) : FifoBatchPlan :=
  if gather_size = 0 ∨ max_blocks = 0 ∨ distance < gather_size ∨ read_ptr < base ∨
      last < read_ptr ∨ (last - read_ptr) % gather_size ≠ 0 then
    { blocks := 1, bytes := gather_size,
      next_read_ptr := nextReadPtr read_ptr base last gather_size }
  else
    let available_blocks := distance / gather_size
    -- the sum is zero when the ring is all of memory and a block is a byte
    let blocks_before_wrap := add32 ((last - read_ptr) / gather_size) 1
    let before_wrap := max 1 (min max_blocks (min available_blocks blocks_before_wrap))
    let blocks :=
      if breakpoint_enabled = true ∧ read_ptr < breakpoint ∧ breakpoint ≤ last ∧
          (breakpoint - read_ptr) % gather_size = 0 then
        max 1 (min before_wrap ((breakpoint - read_ptr) / gather_size))
      else before_wrap
    let last_read_ptr := add32 read_ptr (mul32 (blocks - 1) gather_size)
    { blocks, bytes := mul32 blocks gather_size,
      next_read_ptr := nextReadPtr last_read_ptr base last gather_size }

/-! ## What a plan is -/

section
variable {read_ptr base last distance breakpoint gather_size max_blocks : Nat}
variable {breakpoint_enabled : Bool}

/-- The blocks that can be planned at `read_ptr`: they are readable, they lie before the ring's
end, and none but the first is at the breakpoint. -/
structure Plannable (read_ptr last distance : Nat) (breakpoint_enabled : Bool)
    (breakpoint gather_size blocks : Nat) : Prop where
  pos : 1 ≤ blocks
  readable : blocks * gather_size ≤ distance
  inside : read_ptr + (blocks - 1) * gather_size ≤ last
  unbroken : ∀ i, 1 ≤ i → i < blocks → breakpoint_enabled = true →
    read_ptr + i * gather_size ≠ breakpoint

theorem plannable_of_bounds {blocks : Nat} (pos : 1 ≤ blocks) (gather : 0 < gather_size)
    (inside : read_ptr ≤ last) (available : blocks ≤ distance / gather_size)
    (before_wrap : blocks ≤ (last - read_ptr) / gather_size + 1)
    (before_breakpoint : breakpoint_enabled = true → read_ptr < breakpoint → breakpoint ≤ last →
      (breakpoint - read_ptr) % gather_size = 0 → blocks ≤ (breakpoint - read_ptr) / gather_size) :
    Plannable read_ptr last distance breakpoint_enabled breakpoint gather_size blocks where
  pos := pos
  readable := (Nat.le_div_iff_mul_le gather).mp available
  inside := by
    have le := (Nat.le_div_iff_mul_le gather).mp
      (show blocks - 1 ≤ (last - read_ptr) / gather_size by omega)
    omega
  unbroken i low high enabled eq := by
    have ahead : 0 < i * gather_size := Nat.mul_pos low gather
    have within : i * gather_size ≤ last - read_ptr :=
      (Nat.le_div_iff_mul_le gather).mp (show i ≤ (last - read_ptr) / gather_size by omega)
    have apart : breakpoint - read_ptr = i * gather_size := by omega
    have few := before_breakpoint enabled (by omega) (by omega) (by simp [apart])
    rw [apart, Nat.mul_div_cancel _ gather] at few
    omega

theorem planFifoBatch_eq (gather : 0 < gather_size) (cap : 0 < max_blocks)
    (fits : last < 2 ^ 32) (small : distance < 2 ^ 32) (low : base ≤ read_ptr)
    (high : read_ptr ≤ last) (aligned : (last - read_ptr) % gather_size = 0)
    (readable : gather_size ≤ distance) :
    ∃ blocks, Plannable read_ptr last distance breakpoint_enabled breakpoint gather_size blocks ∧
      planFifoBatch read_ptr base last distance breakpoint_enabled breakpoint gather_size
        max_blocks = ⟨blocks, blocks * gather_size,
          nextReadPtr (read_ptr + (blocks - 1) * gather_size) base last gather_size⟩ := by
  rw [planFifoBatch, if_neg (by omega)]
  dsimp only
  have some_available : 1 ≤ distance / gather_size := Nat.div_pos readable gather
  have shorter : (last - read_ptr) / gather_size ≤ last - read_ptr := Nat.div_le_self _ _
  generalize before : max 1 (min max_blocks (min (distance / gather_size)
    (add32 ((last - read_ptr) / gather_size) 1))) = before_wrap
  have bounds : 1 ≤ before_wrap ∧ before_wrap ≤ distance / gather_size ∧
      before_wrap ≤ (last - read_ptr) / gather_size + 1 := by
    unfold add32 at before
    generalize (last - read_ptr) / gather_size = to_wrap at *
    omega
  generalize chosen : (if breakpoint_enabled = true ∧ read_ptr < breakpoint ∧ breakpoint ≤ last ∧
      (breakpoint - read_ptr) % gather_size = 0 then
        max 1 (min before_wrap ((breakpoint - read_ptr) / gather_size))
      else before_wrap) = blocks
  have plannable : Plannable read_ptr last distance breakpoint_enabled breakpoint gather_size
      blocks := by
    split at chosen
    · rename_i ahead
      have first : 1 ≤ (breakpoint - read_ptr) / gather_size :=
        Nat.div_pos (Nat.le_of_dvd (by omega) (Nat.dvd_of_mod_eq_zero ahead.2.2.2)) gather
      exact plannable_of_bounds (by omega) gather high (by omega) (by omega)
        fun _ _ _ _ => by omega
    · rename_i behind
      exact plannable_of_bounds (by omega) gather high (by omega) (by omega)
        fun enabled above below mult => absurd ⟨enabled, above, below, mult⟩ behind
  have inside := plannable.inside
  have fits_bytes := plannable.readable
  refine ⟨blocks, plannable, ?_⟩
  rw [mul32_eq (a := blocks) (by omega), mul32_eq (a := blocks - 1) (by omega),
    add32_eq (by omega)]

end

/-! ## Consuming the command FIFO

The loop of `RunGpuLoop`, which takes a planned batch of blocks in each round, and the loop of
`RunGpuOnCpu`, which takes one block. Both end, and they copy the same blocks.
-/

/-- The registers that the loops only read. -/
structure Registers where
  CPBase : Nat
  CPEnd : Nat
  CPBreakpoint : Nat
  bFF_BPEnable : Bool

/-- The registers that the loops write, and the addresses of the blocks copied so far. -/
structure Reader where
  CPReadPointer : Nat
  CPReadWriteDistance : Nat
  copied : List Nat
deriving DecidableEq

def atBreakpoint (fifo : Registers) (read_ptr : Nat) : Bool :=
  fifo.bFF_BPEnable && read_ptr == fifo.CPBreakpoint

/-- The condition of both loops while reading stays enabled. -/
def runnable (fifo : Registers) (s : Reader) : Bool :=
  s.CPReadWriteDistance != 0 && !atBreakpoint fifo s.CPReadPointer

/-- The gather blocks in `bytes` contiguous bytes. -/
def blocksAt (read_ptr bytes gather_size : Nat) : List Nat :=
  (List.range (bytes / gather_size)).map fun i => read_ptr + i * gather_size

def planAt (fifo : Registers) (gather_size max_blocks : Nat) (s : Reader) : FifoBatchPlan :=
  planFifoBatch s.CPReadPointer fifo.CPBase fifo.CPEnd s.CPReadWriteDistance fifo.bFF_BPEnable
    fifo.CPBreakpoint gather_size max_blocks

/-- A round of `RunGpuLoop`. -/
def batchRound (fifo : Registers) (gather_size max_blocks : Nat) (s : Reader) : Reader :=
  let batch := planAt fifo gather_size max_blocks s
  { CPReadPointer := batch.next_read_ptr
    CPReadWriteDistance := sub32 s.CPReadWriteDistance batch.bytes
    copied := s.copied ++ blocksAt s.CPReadPointer batch.bytes gather_size }

/-- A round of `RunGpuOnCpu`. -/
def blockRound (fifo : Registers) (gather_size : Nat) (s : Reader) : Reader :=
  { CPReadPointer :=
      if s.CPReadPointer = fifo.CPEnd then fifo.CPBase else add32 s.CPReadPointer gather_size
    CPReadWriteDistance := sub32 s.CPReadWriteDistance gather_size
    copied := s.copied ++ blocksAt s.CPReadPointer gather_size gather_size }

/-- The read pointer is at a block of the ring, and whole blocks are readable. -/
structure OnRing (fifo : Registers) (gather_size : Nat) (s : Reader) : Prop where
  low : fifo.CPBase ≤ s.CPReadPointer
  high : s.CPReadPointer ≤ fifo.CPEnd
  fits : fifo.CPEnd < 2 ^ 32
  small : s.CPReadWriteDistance < 2 ^ 32
  base_aligned : fifo.CPBase % gather_size = fifo.CPEnd % gather_size
  read_aligned : s.CPReadPointer % gather_size = fifo.CPEnd % gather_size
  whole : s.CPReadWriteDistance % gather_size = 0

section
variable {fifo : Registers} {gather_size max_blocks : Nat} {s : Reader}

theorem OnRing.aligned (on : OnRing fifo gather_size s) :
    (fifo.CPEnd - s.CPReadPointer) % gather_size = 0 :=
  Nat.sub_mod_eq_zero_of_mod_eq on.read_aligned.symm

theorem runnable_iff : runnable fifo s = true ↔ s.CPReadWriteDistance ≠ 0 ∧
    (fifo.bFF_BPEnable = true → s.CPReadPointer ≠ fifo.CPBreakpoint) := by
  cases enabled : fifo.bFF_BPEnable <;> simp [runnable, atBreakpoint, enabled]

theorem OnRing.readable (on : OnRing fifo gather_size s) (running : runnable fifo s = true) :
    gather_size ≤ s.CPReadWriteDistance :=
  Nat.le_of_dvd (Nat.pos_of_ne_zero (runnable_iff.mp running).1) (Nat.dvd_of_mod_eq_zero on.whole)

/-- Short of the ring's end there is room for another block. -/
theorem OnRing.room (on : OnRing fifo gather_size s) (ne : s.CPReadPointer ≠ fifo.CPEnd) :
    s.CPReadPointer + gather_size ≤ fifo.CPEnd := by
  have high := on.high
  have block := Nat.le_of_dvd (by omega) (Nat.dvd_of_mod_eq_zero on.aligned)
  omega

theorem OnRing.blockRound (on : OnRing fifo gather_size s) (running : runnable fifo s = true) :
    OnRing fifo gather_size (blockRound fifo gather_size s) := by
  obtain ⟨low, high, fits, small, base_aligned, read_aligned, whole⟩ := id on
  have readable := on.readable running
  have distance : sub32 s.CPReadWriteDistance gather_size = s.CPReadWriteDistance - gather_size :=
    sub32_eq small readable
  have rest : (s.CPReadWriteDistance - gather_size) % gather_size = 0 := by
    rw [← Nat.mod_eq_sub_mod readable, whole]
  unfold Fifo.blockRound
  rw [distance]
  split
  · exact ⟨Nat.le_refl _, by dsimp only; omega, fits, by dsimp only; omega, base_aligned,
      base_aligned, rest⟩
  · rename_i ne
    have room := on.room ne
    rw [add32_eq (by omega)]
    exact ⟨by dsimp only; omega, room, fits, by dsimp only; omega, base_aligned,
      by simpa using read_aligned, rest⟩

/-- The reader after some blocks, none of which was the ring's last one. -/
def advanced (gather_size : Nat) (s : Reader) (i : Nat) : Reader :=
  { CPReadPointer := s.CPReadPointer + i * gather_size
    CPReadWriteDistance := s.CPReadWriteDistance - i * gather_size
    copied := s.copied ++ (List.range i).map fun j => s.CPReadPointer + j * gather_size }

theorem blocksAt_mul (gather : 0 < gather_size) (read_ptr blocks : Nat) :
    blocksAt read_ptr (blocks * gather_size) gather_size =
      (List.range blocks).map fun i => read_ptr + i * gather_size := by
  rw [blocksAt, Nat.mul_div_cancel _ gather]

theorem blocksAt_single (gather : 0 < gather_size) (read_ptr : Nat) :
    blocksAt read_ptr gather_size gather_size = [read_ptr] := by
  simp [blocksAt, Nat.div_self gather]

theorem blockRound_iterate (gather : 0 < gather_size) (fits : fifo.CPEnd < 2 ^ 32)
    (small : s.CPReadWriteDistance < 2 ^ 32) {i : Nat}
    (inside : s.CPReadPointer + i * gather_size ≤ fifo.CPEnd)
    (readable : i * gather_size ≤ s.CPReadWriteDistance) :
    (Fifo.blockRound fifo gather_size)^[i] s = advanced gather_size s i := by
  induction i with
  | zero => simp [advanced]
  | succ i ih =>
      rw [Nat.add_one_mul] at inside readable
      rw [Function.iterate_succ_apply', ih (by omega) (by omega), Fifo.blockRound, advanced,
        advanced, Reader.mk.injEq, Nat.add_one_mul]
      dsimp only
      refine ⟨?_, ?_, ?_⟩
      · rw [if_neg (by omega), add32_eq (by omega)]
        omega
      · rw [sub32_eq (by omega) (by omega)]
        omega
      · rw [blocksAt_single gather, List.range_succ, List.map_append, List.append_assoc]
        rfl

/-- A round with a plan of several blocks is as many rounds of one block, and the loop of
single blocks does not stop between them. -/
theorem batchRound_eq (gather : 0 < gather_size) (cap : 0 < max_blocks)
    (on : OnRing fifo gather_size s) (running : runnable fifo s = true) :
    ∃ blocks, Plannable s.CPReadPointer fifo.CPEnd s.CPReadWriteDistance fifo.bFF_BPEnable
        fifo.CPBreakpoint gather_size blocks ∧
      (planAt fifo gather_size max_blocks s).bytes = blocks * gather_size ∧
      batchRound fifo gather_size max_blocks s = (blockRound fifo gather_size)^[blocks] s ∧
      ∀ i < blocks, runnable fifo ((blockRound fifo gather_size)^[i] s) = true := by
  obtain ⟨blocks, plannable, plan⟩ := @planFifoBatch_eq s.CPReadPointer fifo.CPBase fifo.CPEnd
    s.CPReadWriteDistance fifo.CPBreakpoint gather_size max_blocks fifo.bFF_BPEnable gather cap
    on.fits on.small on.low on.high on.aligned (on.readable running)
  obtain ⟨pos, readable, inside, unbroken⟩ := id plannable
  have fits := on.fits
  have small := on.small
  have plan : planAt fifo gather_size max_blocks s = _ := plan
  -- the blocks before the last one of the batch do not wrap
  have before (i : Nat) (lt : i < blocks) :
      (blockRound fifo gather_size)^[i] s = advanced gather_size s i := by
    have le := Nat.mul_le_mul_right gather_size (show i ≤ blocks - 1 by omega)
    have less := Nat.mul_le_mul_right gather_size (show blocks - 1 ≤ blocks by omega)
    exact blockRound_iterate gather fits small (by omega) (by omega)
  refine ⟨blocks, plannable, by rw [plan], ?_, ?_⟩
  · obtain ⟨n, rfl⟩ : ∃ n, blocks = n + 1 := ⟨blocks - 1, by omega⟩
    rw [Nat.add_sub_cancel] at plan
    rw [Function.iterate_succ_apply', before n (by omega), batchRound, plan, Fifo.blockRound]
    rw [Nat.add_one_mul] at readable
    dsimp only [advanced]
    rw [Reader.mk.injEq]
    refine ⟨rfl, ?_, ?_⟩
    · rw [Nat.add_one_mul, sub32_eq small (by omega), sub32_eq (by omega) (by omega)]
      omega
    · rw [blocksAt_mul gather, blocksAt_single gather, List.range_succ, List.map_append,
        List.append_assoc]
      rfl
  · intro i lt
    rw [before i lt, runnable_iff]
    have le := Nat.mul_lt_mul_of_pos_right lt gather
    refine ⟨by dsimp only [advanced]; omega, fun enabled => ?_⟩
    cases i with
    | zero => simpa [advanced] using (runnable_iff.mp running).2 enabled
    | succ i => exact unbroken (i + 1) (by omega) lt enabled

theorem OnRing.iterate (on : OnRing fifo gather_size s) {n : Nat}
    (running : ∀ i < n, runnable fifo ((Fifo.blockRound fifo gather_size)^[i] s) = true) :
    OnRing fifo gather_size ((Fifo.blockRound fifo gather_size)^[n] s) := by
  induction n with
  | zero => exact on
  | succ n ih =>
      rw [Function.iterate_succ_apply']
      exact (ih fun i lt => running i (by omega)).blockRound (running n (by omega))

theorem OnRing.batchRound (gather : 0 < gather_size) (cap : 0 < max_blocks)
    (on : OnRing fifo gather_size s) (running : runnable fifo s = true) :
    OnRing fifo gather_size (batchRound fifo gather_size max_blocks s) := by
  obtain ⟨blocks, -, -, eq, between⟩ := batchRound_eq gather cap on running
  rw [eq]
  exact on.iterate between

theorem distance_batchRound (gather : 0 < gather_size) (cap : 0 < max_blocks)
    (on : OnRing fifo gather_size s) (running : runnable fifo s = true) :
    (Fifo.batchRound fifo gather_size max_blocks s).CPReadWriteDistance =
      s.CPReadWriteDistance - (planAt fifo gather_size max_blocks s).bytes := by
  obtain ⟨blocks, plannable, bytes, -, -⟩ := batchRound_eq gather cap on running
  exact sub32_eq on.small (by rw [bytes]; exact plannable.readable)

/-- A round of batches as the comparison of the two loops needs it. -/
theorem batchRound_shortens (gather : 0 < gather_size) (cap : 0 < max_blocks) (s : Reader)
    (on : OnRing fifo gather_size s) (running : runnable fifo s = true) :
    OnRing fifo gather_size (batchRound fifo gather_size max_blocks s) ∧ ∃ k, 1 ≤ k ∧
      (batchRound fifo gather_size max_blocks s).CPReadWriteDistance + k ≤
        s.CPReadWriteDistance ∧
      batchRound fifo gather_size max_blocks s = (blockRound fifo gather_size)^[k] s ∧
      ∀ i < k, runnable fifo ((blockRound fifo gather_size)^[i] s) = true := by
  obtain ⟨blocks, plannable, bytes, eq, between⟩ := batchRound_eq gather cap on running
  have less := distance_batchRound gather cap on running
  have few := Nat.le_mul_of_pos_right blocks gather
  have readable := plannable.readable
  exact ⟨on.batchRound gather cap running, blocks, plannable.pos, by omega, eq, between⟩

/-- Batching does not change what is read: from a read pointer on the ring, the loop of batches
and the loop of single blocks end, in at most as many rounds as bytes are readable, with the same
blocks copied and the same registers; and no batch takes more than is readable or reads outside
the ring. -/
theorem batches_read_same_blocks (gather : 0 < gather_size) (cap : 0 < max_blocks)
    (on : OnRing fifo gather_size s) :
    (∃ r, ∀ fuel, s.CPReadWriteDistance ≤ fuel →
      whileLoop (runnable fifo) (batchRound fifo gather_size max_blocks) fuel s = some r ∧
      whileLoop (runnable fifo) (blockRound fifo gather_size) fuel s = some r) ∧
    ∀ t, AtHead (runnable fifo) (batchRound fifo gather_size max_blocks) s t →
      runnable fifo t = true →
        let batch := planAt fifo gather_size max_blocks t
        batch.bytes ≤ t.CPReadWriteDistance ∧
        ∀ block ∈ blocksAt t.CPReadPointer batch.bytes gather_size,
          fifo.CPBase ≤ block ∧ block ≤ fifo.CPEnd := by
  constructor
  · obtain ⟨r, -, -, ends⟩ := whileLoop_refines (batchRound_shortens gather cap) on
    exact ⟨r, ends⟩
  · intro t run running
    have on : OnRing fifo gather_size t :=
      run.invariant on fun t on running => on.batchRound gather cap running
    obtain ⟨blocks, plannable, bytes, -, -⟩ := batchRound_eq gather cap on running
    dsimp only
    rw [bytes, blocksAt_mul gather]
    refine ⟨plannable.readable, fun block mem => ?_⟩
    obtain ⟨i, lt, rfl⟩ := List.mem_map.mp mem
    have le := Nat.mul_le_mul_right gather_size
      (show i ≤ blocks - 1 by have := List.mem_range.mp lt; omega)
    have inside := plannable.inside
    have low := on.low
    omega

end

/-- Four blocks, a breakpoint at the second one, and the third one next to read. -/
def smallRing : Registers :=
  { CPBase := 0x4000, CPEnd := 0x4060, CPBreakpoint := 0x4020, bFF_BPEnable := true }

theorem batches_read_same_blocks_smallRing :
    ∃ r, ∀ fuel, 7 * 32 ≤ fuel →
      whileLoop (runnable smallRing) (batchRound smallRing 32 8) fuel ⟨0x4040, 7 * 32, []⟩ =
        some r ∧
      whileLoop (runnable smallRing) (blockRound smallRing 32) fuel ⟨0x4040, 7 * 32, []⟩ =
        some r :=
  (@batches_read_same_blocks smallRing 32 8 ⟨0x4040, 7 * 32, []⟩ (by decide) (by decide)
    { low := by decide, high := by decide, fits := by decide, small := by decide,
      base_aligned := by decide, read_aligned := by decide, whole := by decide }).1

example : whileLoop (runnable smallRing) (batchRound smallRing 32 8) 3 ⟨0x4040, 7 * 32, []⟩ =
    some ⟨0x4020, 4 * 32, [0x4040, 0x4060, 0x4000]⟩ := by decide

end Phocoena.Fifo
