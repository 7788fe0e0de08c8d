import Phocoena.Lib.RoundRobin
import Phocoena.VideoCommon.GatherPipe

/-! # Gather blocks arrive in order

Blocks are numbered from the first unread one on; block `i` lies in slot `i` of the ring, counted
modulo its size. The invariant says, at every step of either thread, which blocks the pointers
and the distance stand for.
-/

namespace Phocoena.Fifo

/-! ## Slots of the ring -/

namespace Ring
variable (ring : Ring)

def size : Nat := (ring.CPEnd - ring.CPBase) / 32 + 1

def slot (i : Nat) : Nat := ring.CPBase + 32 * (i % ring.size)

def index (ptr : Nat) : Nat := (ptr - ring.CPBase) / 32

variable {ring}

theorem size_pos : 0 < ring.size := Nat.succ_pos _

/-- The last slot is at `CPEnd`. -/
theorem last_slot : ring.CPBase + 32 * (ring.size - 1) = ring.CPEnd := by
  have := ring.ordered
  have := ring.base_aligned
  have := ring.end_aligned
  unfold size
  omega

theorem slot_inside (i : Nat) : ring.CPBase ≤ ring.slot i ∧ ring.slot i ≤ ring.CPEnd := by
  have := Nat.mod_lt i ring.size_pos
  have := ring.last_slot
  unfold slot
  omega

theorem slot_aligned (i : Nat) : ring.slot i % 32 = 0 := by
  have := ring.base_aligned
  unfold slot
  omega

theorem slot_index {ptr : Nat} (inside : ring.CPBase ≤ ptr ∧ ptr ≤ ring.CPEnd)
    (aligned : ptr % 32 = 0) : ring.slot (ring.index ptr) = ptr := by
  have := ring.last_slot
  have := ring.base_aligned
  have := ring.size_pos
  unfold slot index
  rw [Nat.mod_eq_of_lt (by omega)]
  omega

/-- Fewer blocks apart than the ring has slots, two blocks are in different slots. -/
theorem slot_ne {i j : Nat} (lt : i < j) (near : j < i + ring.size) :
    ring.slot i ≠ ring.slot j := by
  intro eq
  have same : i % ring.size = j % ring.size := by
    unfold slot at eq
    omega
  exact absurd (eq_of_mod_eq same (by omega) near) (by omega)

theorem slot_succ (i : Nat) :
    ring.slot (i + 1) = if ring.slot i = ring.CPEnd then ring.CPBase else ring.slot i + 32 := by
  have last := ring.last_slot
  have pos := ring.size_pos
  have lt := Nat.mod_lt i pos
  have step : (i + 1) % ring.size =
      if i % ring.size = ring.size - 1 then 0 else i % ring.size + 1 := by
    rw [Nat.add_mod]
    rcases Nat.lt_or_ge ring.size 2 with one | two
    · have single : ring.size = 1 := by omega
      simp [single, Nat.mod_one]
    · rw [Nat.mod_eq_of_lt (show 1 < ring.size by omega)]
      split
      · rename_i eq
        rw [eq, show ring.size - 1 + 1 = ring.size by omega, Nat.mod_self]
      · exact Nat.mod_eq_of_lt (by omega)
  unfold slot
  rw [step]
  split_ifs <;> omega

theorem nextReadPtr_slot (i : Nat) :
    nextReadPtr (ring.slot i) ring.CPBase ring.CPEnd GATHER_PIPE_SIZE = ring.slot (i + 1) := by
  have inside := ring.slot_inside i
  have physical := ring.physical
  rw [nextReadPtr, slot_succ, GATHER_PIPE_SIZE, add32_eq (by omega)]

theorem distance_slot_add {i d : Nat} (lt : d < ring.size) :
    ring.distance (ring.slot i) (ring.slot (i + d)) = 32 * d := by
  have last := ring.last_slot
  have low := Nat.mod_lt i ring.size_pos
  have sum : (i + d) % ring.size =
      if i % ring.size + d < ring.size then i % ring.size + d
      else i % ring.size + d - ring.size := by
    rw [Nat.add_mod, Nat.mod_eq_of_lt lt]
    split
    · exact Nat.mod_eq_of_lt (by omega)
    · rw [Nat.mod_eq_sub_mod (by omega)]
      exact Nat.mod_eq_of_lt (by omega)
  unfold distance slot GATHER_PIPE_SIZE
  rw [sum]
  split_ifs <;> omega

/-- The slot at the end of a distance between two pointers on the ring. -/
theorem slot_distance {read_ptr write_ptr : Nat}
    (read_inside : ring.CPBase ≤ read_ptr ∧ read_ptr ≤ ring.CPEnd)
    (write_inside : ring.CPBase ≤ write_ptr ∧ write_ptr ≤ ring.CPEnd)
    (read_aligned : read_ptr % 32 = 0) (write_aligned : write_ptr % 32 = 0) :
    ring.distance read_ptr write_ptr % 32 = 0 ∧
      ring.slot (ring.index read_ptr + ring.distance read_ptr write_ptr / 32) = write_ptr := by
  have last := ring.last_slot
  have pos := ring.size_pos
  have base_aligned := ring.base_aligned
  have end_aligned := ring.end_aligned
  have at_write := ring.slot_index write_inside write_aligned
  have whole : ring.distance read_ptr write_ptr % 32 = 0 := by
    unfold distance GATHER_PIPE_SIZE
    split <;> omega
  refine ⟨whole, ?_⟩
  rcases Nat.le_total read_ptr write_ptr with le | ge
  · have sum : ring.index read_ptr + ring.distance read_ptr write_ptr / 32 =
        ring.index write_ptr := by
      rw [distance, if_pos le]
      unfold index
      omega
    rw [sum, at_write]
  · rcases Nat.eq_or_lt_of_le ge with rfl | lt
    · rw [distance, if_pos (Nat.le_refl _), Nat.sub_self, Nat.zero_div, Nat.add_zero, at_write]
    · have sum : ring.index read_ptr + ring.distance read_ptr write_ptr / 32 =
          ring.index write_ptr + ring.size := by
        rw [distance, if_neg (by omega)]
        unfold index GATHER_PIPE_SIZE
        omega
      rw [sum, slot, Nat.add_mod_right]
      exact at_write

/-- Up to the end of the ring, slots follow one another. -/
theorem slot_add {i k : Nat} (inside : ring.slot i + k * 32 ≤ ring.CPEnd) :
    ring.slot (i + k) = ring.slot i + k * 32 := by
  induction k with
  | zero => simp
  | succ k ih =>
      have before := ih (by omega)
      rw [← Nat.add_assoc, slot_succ, before, if_neg (by omega)]
      omega

end Ring

theorem length_blocksFrom {Block : Type} (ring : Ring) (memory : Nat → Block) (ptr n : Nat) :
    (blocksFrom ring memory ptr n).length = n := by
  induction n generalizing ptr with
  | zero => rfl
  | succ n ih => simp [blocksFrom, ih]

theorem getElem?_blocksFrom {Block : Type} (ring : Ring) (memory : Nat → Block) {i n j : Nat}
    (lt : j < n) :
    (blocksFrom ring memory (ring.slot i) n)[j]? = some (memory (ring.slot (i + j))) := by
  induction n generalizing i j with
  | zero => omega
  | succ n ih =>
      rw [blocksFrom, Ring.nextReadPtr_slot]
      cases j with
      | zero => simp
      | succ j =>
          rw [List.getElem?_cons_succ, ih (by omega), Nat.add_assoc, Nat.add_comm 1 j]

/-! ## The invariant -/

/-- A batch that starts at block `first`. -/
structure Planned (ring : Ring) (first distance : Nat) (batch : FifoBatchPlan) : Prop where
  pos : 0 < batch.blocks
  bytes : batch.bytes = batch.blocks * 32
  readable : batch.bytes ≤ distance
  slots : ∀ j < batch.blocks, ring.slot (first + j) = ring.slot first + j * 32
  next : batch.next_read_ptr = ring.slot (first + batch.blocks)

theorem Planned.mono {ring : Ring} {first d d' : Nat} {batch : FifoBatchPlan}
    (planned : Planned ring first d batch) (le : d ≤ d') : Planned ring first d' batch :=
  { planned with readable := Nat.le_trans planned.readable le }

theorem planned_chooseBatch (ring : Ring) (controls : Controls) {first distance : Nat}
    (whole : distance % 32 = 0) (pos : 0 < distance) (small : distance < 2 ^ 32) :
    Planned ring first distance (chooseBatch ring controls (ring.slot first) distance) := by
  have inside := ring.slot_inside first
  have physical := ring.physical
  have aligned := ring.slot_aligned first
  have end_aligned := ring.end_aligned
  unfold chooseBatch
  split
  · rename_i cap
    obtain ⟨blocks, plannable, plan⟩ := @planFifoBatch_eq (ring.slot first) ring.CPBase ring.CPEnd
      distance controls.CPBreakpoint GATHER_PIPE_SIZE controls.fifo_batch_blocks
      controls.bFF_BPEnable (by decide) (by omega) (by omega) small inside.1 inside.2
      (by unfold GATHER_PIPE_SIZE; omega) (by unfold GATHER_PIPE_SIZE; omega)
    have within := plannable.inside
    have some_block := plannable.pos
    unfold GATHER_PIPE_SIZE at within
    have last := ring.slot_add within
    rw [plan]
    refine ⟨plannable.pos, rfl, plannable.readable, fun j lt => ?_, ?_⟩
    · exact ring.slot_add (by dsimp only at lt; omega)
    · dsimp only
      rw [show ring.slot first + (blocks - 1) * GATHER_PIPE_SIZE = ring.slot (first + (blocks - 1))
        from last.symm, Ring.nextReadPtr_slot]
      congr 1
      omega
  · refine ⟨Nat.one_pos, rfl, by unfold GATHER_PIPE_SIZE; dsimp only; omega, fun j lt => ?_,
      ring.nextReadPtr_slot first⟩
    obtain rfl : j = 0 := by dsimp only at lt; omega
    simp

/-- The write pointer and the memory at each step of a burst: `next` is the number of the block
that the burst is for. -/
def CpuAt {Block : Type} (ring : Ring) (memory : Nat → Block) (write_ptr next : Nat) :
    Cpu Block → Prop
  | .idle => write_ptr = ring.slot next
  | .started block => write_ptr = ring.slot next ∧ memory (ring.slot next) = block
  | .loadedWritePointer block loaded =>
      write_ptr = ring.slot next ∧ memory (ring.slot next) = block ∧ loaded = write_ptr
  | .atEnd block =>
      write_ptr = ring.slot next ∧ memory (ring.slot next) = block ∧ write_ptr = ring.CPEnd
  | .loadedBase block base => write_ptr = ring.slot next ∧ memory (ring.slot next) = block ∧
      write_ptr = ring.CPEnd ∧ base = ring.CPBase
  | .beforeEnd block =>
      write_ptr = ring.slot next ∧ memory (ring.slot next) = block ∧ write_ptr ≠ ring.CPEnd
  | .moved block => write_ptr = ring.slot (next + 1) ∧ memory (ring.slot next) = block

/-- The read pointer and the distance at each step of a round: `first` is the number of the
first block that is not subtracted. -/
def GpuAt (ring : Ring) (read_ptr distance first : Nat) : Gpu → Prop
  | .idle => read_ptr = ring.slot first
  | .readable | .runnable => read_ptr = ring.slot first ∧ 0 < distance
  | .loadedReadPointer loaded => read_ptr = ring.slot first ∧ 0 < distance ∧ loaded = read_ptr
  | .loadedDistance loaded distance_before => read_ptr = ring.slot first ∧ loaded = read_ptr ∧
      0 < distance_before ∧ distance_before ≤ distance ∧ distance_before % 32 = 0
  | .copying loaded batch copied => read_ptr = ring.slot first ∧ loaded = read_ptr ∧
      copied < batch.blocks ∧ Planned ring first distance batch
  | .copied batch => read_ptr = ring.slot first ∧ Planned ring first distance batch
  | .stored batch =>
      read_ptr = ring.slot (first + batch.blocks) ∧ Planned ring first distance batch

/-- The blocks of a round that are copied and not subtracted. -/
def Gpu.ahead : Gpu → Nat
  | .copying _ _ done => done
  | .copied batch | .stored batch => batch.blocks
  | _ => 0

/-- `stream` is what was unread at first and all bursts since then, and block `start` is its
first. -/
structure Inv {Block : Type} (ring : Ring) (start : Nat) (old : List Block) (first : Nat)
    (s : State Block) : Prop where
  in_order : s.copied = (old ++ s.bursted).take s.copied.length
  taken : s.copied.length = first + s.gpu.ahead
  distance : s.CPReadWriteDistance + 32 * first = 32 * (old ++ s.bursted).length
  kept : ∀ j, s.copied.length ≤ j → j < (old ++ s.bursted).length →
    (old ++ s.bursted)[j]? = some (s.memory (ring.slot (start + j)))
  cpu : CpuAt ring s.memory s.CPWritePointer (start + (old ++ s.bursted).length) s.cpu
  gpu : GpuAt ring s.CPReadPointer s.CPReadWriteDistance (start + first) s.gpu

section
variable {Block : Type} {ring : Ring} {start first : Nat} {old : List Block} {s s' : State Block}

theorem GpuAt.grow {read_ptr d d' first : Nat} (le : d ≤ d') {gpu : Gpu}
    (at_first : GpuAt ring read_ptr d first gpu) : GpuAt ring read_ptr d' first gpu := by
  cases gpu with
  | idle => exact at_first
  | readable | runnable => exact ⟨at_first.1, by have := at_first.2; omega⟩
  | loadedReadPointer => exact ⟨at_first.1, by have := at_first.2.1; omega, at_first.2.2⟩
  | loadedDistance =>
      obtain ⟨ptr, eq, pos, below, whole⟩ := at_first
      exact ⟨ptr, eq, pos, by omega, whole⟩
  | copying =>
      obtain ⟨ptr, eq, lt, planned⟩ := at_first
      exact ⟨ptr, eq, lt, planned.mono le⟩
  | copied | stored => exact ⟨at_first.1, at_first.2.mono le⟩

/-- Blocks that are copied and not subtracted are among those that the distance counts. -/
theorem GpuAt.ahead_le {read_ptr distance first : Nat} {gpu : Gpu}
    (at_first : GpuAt ring read_ptr distance first gpu) : 32 * gpu.ahead ≤ distance := by
  cases gpu with
  | copying loaded batch done =>
      obtain ⟨-, -, lt, planned⟩ := at_first
      have bytes := planned.bytes
      have readable := planned.readable
      dsimp only [Gpu.ahead]
      omega
  | copied batch | stored batch =>
      have bytes := at_first.2.bytes
      have readable := at_first.2.readable
      dsimp only [Gpu.ahead]
      omega
  | _ => exact Nat.zero_le _

theorem Inv.copied_le (inv : Inv ring start old first s) :
    s.copied.length ≤ (old ++ s.bursted).length := by
  have taken := inv.taken
  have distance := inv.distance
  have ahead := inv.gpu.ahead_le
  omega

/-- The slot of the block being written holds no block that is still to be copied. -/
theorem Inv.slot_free (inv : Inv ring start old first s) (bounded : NotOverflowed ring s) {j : Nat}
    (low : s.copied.length ≤ j) (high : j < (old ++ s.bursted).length) :
    ring.slot (start + j) ≠ ring.slot (start + (old ++ s.bursted).length) := by
  have taken := inv.taken
  have distance := inv.distance
  have last := ring.last_slot
  unfold NotOverflowed at bounded
  exact ring.slot_ne (by omega) (by omega)

theorem Inv.gather (inv : Inv ring start old first s) (bounded : NotOverflowed ring s)
    {block : Block} (next : step ring (.gather block) s = some s') :
    Inv ring start old first s' := by
  cases at_cpu : s.cpu <;> simp only [step, at_cpu, Option.some.injEq, reduceCtorEq] at next
  subst next
  have at_write : s.CPWritePointer = ring.slot (start + (old ++ s.bursted).length) := by
    simpa only [CpuAt, at_cpu] using inv.cpu
  refine ⟨inv.in_order, inv.taken, inv.distance, fun j low high => ?_, ?_, inv.gpu⟩
  · have free := inv.slot_free bounded low high
    rw [inv.kept j low high, at_write]
    dsimp only
    rw [Function.update_of_ne free]
  · exact ⟨at_write, by dsimp only; rw [← at_write, Function.update_self]⟩

theorem Inv.cpuStep (inv : Inv ring start old first s) (bounded : NotOverflowed ring s)
    (next : cpuStep ring s = some s') : Inv ring start old first s' := by
  have at_burst := inv.cpu
  have inside := ring.slot_inside (start + (old ++ s.bursted).length)
  have physical := ring.physical
  have succ := ring.slot_succ (start + (old ++ s.bursted).length)
  obtain ⟨in_order, taken, distance, kept, -, gpu⟩ := id inv
  unfold Fifo.cpuStep at next
  cases at_cpu : s.cpu with
  | idle => simp [at_cpu] at next
  | started block =>
      simp only [at_cpu, Option.some.injEq, CpuAt] at next at_burst
      subst next
      exact ⟨in_order, taken, distance, kept, ⟨at_burst.1, at_burst.2, rfl⟩, gpu⟩
  | loadedWritePointer block loaded =>
      simp only [at_cpu, Option.some.injEq, CpuAt] at next at_burst
      obtain ⟨ptr, memory, rfl⟩ := at_burst
      subst next
      refine ⟨in_order, taken, distance, kept, ?_, gpu⟩
      dsimp only
      split
      · rename_i eq
        exact ⟨ptr, memory, eq⟩
      · rename_i ne
        exact ⟨ptr, memory, ne⟩
  | atEnd block =>
      simp only [at_cpu, Option.some.injEq, CpuAt] at next at_burst
      subst next
      exact ⟨in_order, taken, distance, kept,
        ⟨at_burst.1, at_burst.2.1, at_burst.2.2, rfl⟩, gpu⟩
  | loadedBase block base =>
      simp only [at_cpu, Option.some.injEq, CpuAt] at next at_burst
      obtain ⟨ptr, memory, last, rfl⟩ := at_burst
      subst next
      refine ⟨in_order, taken, distance, kept, ⟨?_, memory⟩, gpu⟩
      rw [succ, if_pos (ptr.symm.trans last)]
  | beforeEnd block =>
      simp only [at_cpu, Option.some.injEq, CpuAt] at next at_burst
      obtain ⟨ptr, memory, before⟩ := at_burst
      subst next
      refine ⟨in_order, taken, distance, kept, ⟨?_, memory⟩, gpu⟩
      rw [ptr] at before
      dsimp only
      rw [succ, if_neg before, ptr, GATHER_PIPE_SIZE, add32_eq (by omega)]
  | moved block =>
      simp only [at_cpu, Option.some.injEq, CpuAt] at next at_burst
      obtain ⟨ptr, memory⟩ := at_burst
      subst next
      have copied_le := inv.copied_le
      unfold NotOverflowed at bounded
      have more : (old ++ (s.bursted ++ [block])).length = (old ++ s.bursted).length + 1 := by
        simp only [List.length_append, List.length_singleton]
        omega
      have counted : add32 s.CPReadWriteDistance GATHER_PIPE_SIZE = s.CPReadWriteDistance + 32 :=
        add32_eq (by unfold GATHER_PIPE_SIZE; omega)
      refine ⟨?_, taken, ?_, fun j low high => ?_, ?_, ?_⟩
      · rw [← List.append_assoc, List.take_append_of_le_length copied_le]
        exact in_order
      · rw [more, counted]
        dsimp only
        omega
      · rw [more] at high
        rw [← List.append_assoc]
        rcases Nat.lt_or_ge j (old ++ s.bursted).length with before | new
        · rw [List.getElem?_append_left before]
          exact kept j low before
        · obtain rfl : j = (old ++ s.bursted).length := by omega
          rw [List.getElem?_concat_length, memory]
      · rw [more]
        exact ptr
      · rw [counted]
        exact gpu.grow (Nat.le_add_right _ 32)

theorem Inv.gpuStep (inv : Inv ring start old first s) (bounded : NotOverflowed ring s)
    {controls : Controls} (next : gpuStep ring controls s = some s') :
    ∃ first', Inv ring start old first' s' := by
  have at_round := inv.gpu
  have physical := ring.physical
  obtain ⟨in_order, taken, distance, kept, cpu, -⟩ := id inv
  unfold NotOverflowed at bounded
  unfold Fifo.gpuStep at next
  cases at_gpu : s.gpu with
  | idle =>
      simp only [at_gpu, GpuAt] at next at_round taken
      split at next
      · cases next
      · rename_i some_readable
        cases next
        exact ⟨first, in_order, taken, distance, kept, cpu, at_round,
          Nat.pos_of_ne_zero some_readable⟩
  | readable =>
      simp only [at_gpu, GpuAt] at next at_round taken
      split at next
      · cases next
        exact ⟨first, in_order, taken, distance, kept, cpu, at_round.1⟩
      · cases next
        exact ⟨first, in_order, taken, distance, kept, cpu, at_round⟩
  | runnable =>
      simp only [at_gpu, Option.some.injEq, GpuAt] at next at_round taken
      subst next
      exact ⟨first, in_order, taken, distance, kept, cpu, at_round.1, at_round.2, rfl⟩
  | loadedReadPointer read_ptr =>
      simp only [at_gpu, Option.some.injEq, GpuAt] at next at_round taken
      subst next
      exact ⟨first, in_order, taken, distance, kept, cpu, at_round.1, at_round.2.2, at_round.2.1,
        Nat.le_refl _, by omega⟩
  | loadedDistance read_ptr distance_before =>
      simp only [at_gpu, Option.some.injEq, GpuAt] at next at_round taken
      obtain ⟨ptr, rfl, pos, below, whole⟩ := at_round
      subst next
      have planned := @planned_chooseBatch ring controls (start + first) distance_before whole pos
        (by omega)
      rw [← ptr] at planned
      exact ⟨first, in_order, taken, distance, kept, cpu, ptr, rfl, planned.pos,
        planned.mono below⟩
  | copying read_ptr batch done =>
      simp only [at_gpu, Option.some.injEq, GpuAt] at next at_round
      obtain ⟨ptr, rfl, lt, planned⟩ := at_round
      subst next
      simp only [at_gpu, Gpu.ahead] at taken
      have bytes := planned.bytes
      have readable := planned.readable
      have here : ring.slot (start + s.copied.length) =
          s.CPReadPointer + done * GATHER_PIPE_SIZE := by
        rw [taken, ← Nat.add_assoc, planned.slots done lt, ptr, GATHER_PIPE_SIZE]
      have block := kept s.copied.length (Nat.le_refl _) (by omega)
      have more : (s.copied ++ [s.memory (s.CPReadPointer + done * GATHER_PIPE_SIZE)]).length =
          s.copied.length + 1 := List.length_append
      refine ⟨first, ?_, ?_, distance, fun j low => kept j ?_, cpu, ?_⟩
      · dsimp only
        rw [more, List.take_add_one, ← in_order, block, here]
        rfl
      · rw [more, taken]
        split
        · rfl
        · dsimp only [Gpu.ahead]
          omega
      · rw [more] at low
        omega
      · dsimp only
        split
        · rename_i another
          exact ⟨ptr, rfl, another, planned⟩
        · exact ⟨ptr, planned⟩
  | copied batch =>
      simp only [at_gpu, Option.some.injEq, GpuAt] at next at_round
      subst next
      simp only [at_gpu, Gpu.ahead] at taken
      have planned := at_round.2
      exact ⟨first, in_order, taken, distance, kept, cpu, planned.next, planned⟩
  | stored batch =>
      simp only [at_gpu, Option.some.injEq, GpuAt] at next at_round
      obtain ⟨ptr, planned⟩ := at_round
      subst next
      simp only [at_gpu, Gpu.ahead] at taken
      have bytes := planned.bytes
      have readable := planned.readable
      have rest : sub32 s.CPReadWriteDistance batch.bytes = s.CPReadWriteDistance - batch.bytes :=
        sub32_eq (by omega) readable
      refine ⟨first + batch.blocks, in_order, taken, ?_, kept, cpu, ?_⟩
      · rw [rest]
        dsimp only
        omega
      · exact ptr.trans (congrArg _ (Nat.add_assoc _ _ _))

end

/-! ## From rest -/

section
variable {Block : Type} {ring : Ring} {s₀ s : State Block}

theorem AtRest.inv (rest : AtRest ring s₀) (no_bursts : s₀.bursted = [])
    (no_copies : s₀.copied = []) :
    Inv ring (ring.index s₀.CPReadPointer) (unread ring s₀) 0 s₀ := by
  have at_read := ring.slot_index rest.read_inside rest.read_aligned
  obtain ⟨whole, at_write⟩ := ring.slot_distance rest.read_inside rest.write_inside
    rest.read_aligned rest.write_aligned
  rw [← rest.distance] at whole at_write
  have blocks : (unread ring s₀).length = s₀.CPReadWriteDistance / 32 := length_blocksFrom _ _ _ _
  refine ⟨?_, ?_, ?_, fun j _ high => ?_, ?_, ?_⟩
  · simp [no_copies]
  · rw [no_copies, rest.gpu]
    rfl
  · rw [no_bursts, List.append_nil, blocks]
    omega
  · rw [no_bursts, List.append_nil] at high ⊢
    rw [blocks] at high
    have block := getElem?_blocksFrom ring s₀.memory (i := ring.index s₀.CPReadPointer) high
    rwa [at_read] at block
  · rw [no_bursts, List.append_nil, blocks, rest.cpu]
    exact at_write.symm
  · rw [rest.gpu]
    exact at_read.symm

theorem inv_of_reaches (rest : AtRest ring s₀) (no_bursts : s₀.bursted = [])
    (no_copies : s₀.copied = [])
    (run : Reaches (step ring) (fun _ s => NotOverflowed ring s) s₀ s) :
    ∃ first, Inv ring (ring.index s₀.CPReadPointer) (unread ring s₀) first s := by
  refine run.invariant (I := fun s => ∃ first, Inv ring _ _ first s)
    ⟨0, rest.inv no_bursts no_copies⟩ ?_
  rintro action s s' ⟨first, inv⟩ bounded next
  cases action with
  | gather block => exact ⟨first, inv.gather bounded next⟩
  | cpu => exact ⟨first, inv.cpuStep bounded next⟩
  | gpu controls => exact inv.gpuStep bounded next

/-- Between the CPU thread and the graphics thread no gather block is lost, duplicated or
reordered: in every run from rest whose states do not overflow the ring, the blocks copied are
the first ones of those that were unread and then bursted; the distance is never less than what
is subtracted from it; and when both threads are at rest again it is the distance between the
pointers. -/
theorem gather_blocks_in_order (rest : AtRest ring s₀) (no_bursts : s₀.bursted = [])
    (no_copies : s₀.copied = [])
    (run : Reaches (step ring) (fun _ s => NotOverflowed ring s) s₀ s)
    (bounded : NotOverflowed ring s) :
    s.copied <+: unread ring s₀ ++ s.bursted ∧
      (∀ batch, s.gpu = .stored batch → batch.bytes ≤ s.CPReadWriteDistance) ∧
      (s.cpu = .idle → s.gpu = .idle →
        s.CPReadWriteDistance = ring.distance s.CPReadPointer s.CPWritePointer) := by
  obtain ⟨first, inv⟩ := inv_of_reaches rest no_bursts no_copies run
  have distance := inv.distance
  refine ⟨?_, fun batch at_store => ?_, fun cpu_idle gpu_idle => ?_⟩
  · rw [inv.in_order]
    exact List.take_prefix _ _
  · have gpu := inv.gpu
    rw [at_store] at gpu
    exact gpu.2.readable
  · have cpu := inv.cpu
    have gpu := inv.gpu
    have last := ring.last_slot
    have pos := ring.size_pos
    rw [cpu_idle] at cpu
    rw [gpu_idle] at gpu
    unfold NotOverflowed at bounded
    generalize (unread ring s₀ ++ s.bursted).length = blocks at cpu distance
    obtain ⟨more, rfl⟩ : ∃ more, blocks = first + more := ⟨blocks - first, by omega⟩
    rw [show s.CPWritePointer = _ from cpu, show s.CPReadPointer = _ from gpu, ← Nat.add_assoc,
      ring.distance_slot_add (by omega)]
    omega

end

def fourBlocks : Ring :=
  { CPBase := 0x4000, CPEnd := 0x4060, ordered := by decide, base_aligned := by decide,
    end_aligned := by decide, physical := by decide }

def emptyRing : State Nat :=
  { memory := fun _ => 0, CPWritePointer := 0x4060, CPReadPointer := 0x4060,
    CPReadWriteDistance := 0, cpu := .idle, gpu := .idle, bursted := [], copied := [] }

/-- A block goes into the last slot and comes out of it, with batches of up to eight blocks. -/
theorem gather_blocks_in_order_fourBlocks :
    ∃ s, Reaches (step fourBlocks) (fun _ s => NotOverflowed fourBlocks s) emptyRing s ∧
      s.copied = [7] ∧ s.copied <+: unread fourBlocks emptyRing ++ s.bursted ∧
      s.CPReadWriteDistance = fourBlocks.distance s.CPReadPointer s.CPWritePointer := by
  have checked : runActions
      (fun a s => if NotOverflowed fourBlocks s then step fourBlocks a s else none)
      (Action.gather 7 :: List.replicate 5 Action.cpu ++
        List.replicate 8 (Action.gpu ⟨true, 0x4020, 8⟩))
      emptyRing = some _ := rfl
  have run : Reaches (step fourBlocks) (fun _ s => NotOverflowed fourBlocks s) emptyRing _ :=
    .of_checked checked
  have order := gather_blocks_in_order
    { cpu := rfl, gpu := rfl, read_inside := by decide, write_inside := by decide,
      read_aligned := rfl, write_aligned := rfl, distance := rfl } rfl rfl run (by decide)
  exact ⟨_, run, rfl, order.1, order.2.2 rfl rfl⟩

end Phocoena.Fifo
