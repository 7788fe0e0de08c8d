import Phocoena.Common.RangeSizeSet
import Phocoena.Lib.Runs
import Mathlib.Data.List.MinMax

/-! # The code space of the JIT

How `JitArm64` gives out its near and far code regions: `Jit` emits a block into the largest
free ranges, `DestroyBlock` queues the ranges of a block, `FreeRanges` returns them, and
`ClearCache` starts over. What is emitted is only known by its size and by the places of its
fast memory accesses, which are inputs of a compilation. Pointers are addresses.
-/

namespace Phocoena.JitArm64.CodeSpace

def NEAR_CODE_SIZE : Nat := 1024 * 1024 * 64

def FAR_CODE_SIZE : Nat := 1024 * 1024 * 64

/-! ## Regions -/

section
variable (region : Nat)

def m_far_code_0 : Range := ⟨region, region + FAR_CODE_SIZE⟩

def m_near_code_0 : Range := ⟨(m_far_code_0 region).To, (m_far_code_0 region).To + NEAR_CODE_SIZE⟩

def m_near_code_1 : Range := ⟨(m_near_code_0 region).To, (m_near_code_0 region).To + NEAR_CODE_SIZE⟩

def m_far_code_1 : Range := ⟨(m_near_code_1 region).To, (m_near_code_1 region).To + FAR_CODE_SIZE⟩

end

/-- What `GenerateAsm` has emitted at the start of `m_near_code_1` and of `m_far_code_1`. -/
structure Routines where
  near : Nat
  far : Nat
  near_le : near ≤ NEAR_CODE_SIZE
  far_le : far ≤ FAR_CODE_SIZE
  deriving DecidableEq

/-- The memory a block takes up: `near_begin`, `near_end`, `far_begin` and `far_end`. -/
structure JitBlock where
  near : Range
  far : Range
  deriving DecidableEq

structure State where
  region : Nat
  routines : Routines
  m_free_ranges_near_0 : RangeSizeSet
  m_free_ranges_near_1 : RangeSizeSet
  m_free_ranges_far_0 : RangeSizeSet
  m_free_ranges_far_1 : RangeSizeSet
  block_map : List JitBlock
  m_ranges_to_free_on_next_codegen_near : List Range
  m_ranges_to_free_on_next_codegen_far : List Range
  /-- An entry is the range from `fast_access_code` to its key, the end of the access. -/
  m_fault_to_handler : List Range
  deriving DecidableEq

namespace State

/-- `ResetFreeMemoryRanges`: the start of `m_far_code_0` that is as far from `m_near_code_0` as
the routines are from `m_far_code_1` stays unused. -/
def resetFreeMemoryRanges (s : State) (routines_near_size routines_far_size : Nat) : State :=
  { s with
    m_free_ranges_far_0 := RangeSizeSet.empty.insert
      ((m_far_code_0 s.region).From + routines_near_size) (m_far_code_0 s.region).To
    m_free_ranges_near_0 := RangeSizeSet.empty.insert
      (m_near_code_0 s.region).From (m_near_code_0 s.region).To
    m_free_ranges_near_1 := RangeSizeSet.empty.insert
      ((m_near_code_1 s.region).From + routines_near_size) (m_near_code_1 s.region).To
    m_free_ranges_far_1 := RangeSizeSet.empty.insert
      ((m_far_code_1 s.region).From + routines_far_size) (m_far_code_1 s.region).To }

def generateAsmAndResetFreeMemoryRanges (s : State) (r : Routines) : State :=
  { s with routines := r }.resetFreeMemoryRanges r.near r.far

/-- `ClearCache`. The routines are generated again, and their size may have changed. -/
def clearCache (s : State) (r : Routines) : State :=
  { s with
    m_fault_to_handler := []
    block_map := []
    m_ranges_to_free_on_next_codegen_near := []
    m_ranges_to_free_on_next_codegen_far := [] }.generateAsmAndResetFreeMemoryRanges r

/-- The state after `Init`. -/
def init (region : Nat) (r : Routines) : State :=
  State.generateAsmAndResetFreeMemoryRanges
    ⟨region, r, .empty, .empty, .empty, .empty, [], [], [], []⟩ r

/-! ## Freeing -/

/-- The body of the first loop of `FreeRanges`. -/
def freeRangeNear (s : State) (r : Range) : State :=
  let s := { s with
    m_fault_to_handler := s.m_fault_to_handler.filter fun area =>
      ¬ (r.From < area.To ∧ area.To ≤ r.To) }
  if r.From < (m_near_code_0 s.region).To then
    { s with m_free_ranges_near_0 := s.m_free_ranges_near_0.insert r.From r.To }
  else { s with m_free_ranges_near_1 := s.m_free_ranges_near_1.insert r.From r.To }

/-- The body of the second loop. -/
def freeRangeFar (s : State) (r : Range) : State :=
  if r.From < (m_far_code_0 s.region).To then
    { s with m_free_ranges_far_0 := s.m_free_ranges_far_0.insert r.From r.To }
  else { s with m_free_ranges_far_1 := s.m_free_ranges_far_1.insert r.From r.To }

def clearRangesToFree (s : State) : State :=
  { s with
    m_ranges_to_free_on_next_codegen_near := []
    m_ranges_to_free_on_next_codegen_far := [] }

def freeRanges (s : State) : State :=
  let near := s.m_ranges_to_free_on_next_codegen_near
  let far := s.m_ranges_to_free_on_next_codegen_far
  (far.foldl freeRangeFar (near.foldl freeRangeNear s)).clearRangesToFree

/-- `DestroyBlock` on a block of the map, and its removal from the map. -/
def destroyBlock (s : State) (b : JitBlock) : State :=
  { s with
    block_map := s.block_map.erase b
    m_ranges_to_free_on_next_codegen_near :=
      if b.near.From ≠ b.near.To then s.m_ranges_to_free_on_next_codegen_near ++ [b.near]
      else s.m_ranges_to_free_on_next_codegen_near
    m_ranges_to_free_on_next_codegen_far :=
      if b.far.From ≠ b.far.To then s.m_ranges_to_free_on_next_codegen_far ++ [b.far]
      else s.m_ranges_to_free_on_next_codegen_far }

/-- `HandleFastmemFault` at the host address `pc`: the access is patched and its entry goes. -/
def handleFastmemFault (s : State) (pc : Nat) : State :=
  match (s.m_fault_to_handler.filter (pc < ·.To)).argmin Range.To with
  | none => s
  | some area =>
    if pc < area.From then s
    else { s with m_fault_to_handler := s.m_fault_to_handler.erase area }

end State

/-! ## Compiling -/

/-- What a compilation emits: the sizes of the near and the far code, and the fast memory
accesses in the near code, from its start. -/
structure Emission where
  near : Nat
  far : Nat
  fastmem : List Range
  inside : ∀ area ∈ fastmem, area.From < area.To ∧ area.To ≤ near

/-- How a call can end without returning. -/
inductive Abort where
  /-- The end iterator of the ranges by size was dereferenced. -/
  | endDereferenced
  /-- No code space was found after a cache clear. -/
  | exit
  deriving DecidableEq

inductive CodeRegion where
  | zero
  | one
  deriving DecidableEq

/-- `by_size_begin()` with a use of its `from()` and `to()`. -/
def dereference (free : RangeSizeSet) : Except Abort Range :=
  match free.bySizeBegin with
  | none => .error .endDereferenced
  | some r => .ok r

namespace State

/-- `SetEmitterStateToFreeCodeRegion`: the region, and the ranges that the emitters of near and
far code are set to. -/
def setEmitterStateToFreeCodeRegion (s : State) :
    Except Abort (Option (CodeRegion × Range × Range)) := do
  let free_near_1 ← dereference s.m_free_ranges_near_1
  let free_far_1 ← dereference s.m_free_ranges_far_1
  let free_1_smallest_size := min (calcSize free_near_1) (calcSize free_far_1)
  if free_1_smallest_size ≥ 1024 * 1024 then .ok (some (.one, free_near_1, free_far_1))
  else
    let free_near_0 ← dereference s.m_free_ranges_near_0
    let free_far_0 ← dereference s.m_free_ranges_far_0
    let free_0_smallest_size := min (calcSize free_near_0) (calcSize free_far_0)
    if free_0_smallest_size = 0 ∧ free_1_smallest_size = 0 then .ok none
    else if free_0_smallest_size > free_1_smallest_size then
      .ok (some (.zero, free_near_0, free_far_0))
    else .ok (some (.one, free_near_1, free_far_1))

/-- The part of `Jit` after a successful `DoJit` that emitted `[near.From, near.To)` and
`[far.From, far.To)` with the accesses `fastmem`. -/
def storeBlock (s : State) (code_region_index : CodeRegion) (near far : Range)
    (fastmem : List Range) : State :=
  let s := { s with
    m_fault_to_handler := fastmem.foldl
      (fun handlers area => area :: handlers.filter (·.To ≠ area.To)) s.m_fault_to_handler
    block_map := ⟨near, far⟩ :: s.block_map }
  match code_region_index with
  | .zero => { s with
      m_free_ranges_near_0 := if near.From ≠ near.To then
        s.m_free_ranges_near_0.erase near.From near.To else s.m_free_ranges_near_0
      m_free_ranges_far_0 := if far.From ≠ far.To then
        s.m_free_ranges_far_0.erase far.From far.To else s.m_free_ranges_far_0 }
  | .one => { s with
      m_free_ranges_near_1 := if near.From ≠ near.To then
        s.m_free_ranges_near_1.erase near.From near.To else s.m_free_ranges_near_1
      m_free_ranges_far_1 := if far.From ≠ far.To then
        s.m_free_ranges_far_1.erase far.From far.To else s.m_free_ranges_far_1 }

end State

/-- One round of `Jit`: `clears` are the cache clears of `CleanUpAfterStackFault` and of
`bJITNoBlockCache`, `memory_exception` says that the code could not be read, and `code` is
what `DoJit` emits when it has the space, or nothing when it fails. -/
structure Attempt where
  clears : List Routines
  memory_exception : Bool
  code : Option Emission

namespace State

/-- `Jit` up to the point where it gives up on the free ranges, and whether it returned before.
A failed `DoJit` leaves an allocated block and handlers behind; the cache clear that follows
removes them, so they are not kept here. -/
def tryJit (s : State) (a : Attempt) : Except Abort (State × Bool) :=
  let s := (a.clears.foldl clearCache s).freeRanges
  if a.memory_exception then .ok (s, true)
  else do
    match ← s.setEmitterStateToFreeCodeRegion, a.code with
    | none, _ => .ok (s, false)
    | some _, none => .ok (s, false)
    | some (code_region_index, near, far), some e =>
      if e.near ≤ calcSize near ∧ e.far ≤ calcSize far then
        .ok (s.storeBlock code_region_index ⟨near.From, near.From + e.near⟩
          ⟨far.From, far.From + e.far⟩
          (e.fastmem.map fun area => ⟨near.From + area.From, near.From + area.To⟩), true)
      else .ok (s, false)

def jit (s : State) (first : Attempt) (r : Routines) (retry : Attempt) : Except Abort State := do
  let (s, returned) ← s.tryJit first
  if returned then .ok s
  else
    let (s, returned) ← (s.clearCache r).tryJit retry
    if returned then .ok s else .error .exit

end State

/-! ## Runs -/

inductive Action where
  | jit (first : Attempt) (r : Routines) (retry : Attempt)
  | destroyBlock (b : JitBlock)
  | eraseSingleBlock (b : JitBlock)
  | freeRanges
  | clearCache (r : Routines)
  | handleFastmemFault (pc : Nat)

/-- Calls that do not return have no next state. -/
def step : Action → State → Option State
  | .jit first r retry, s => (s.jit first r retry).toOption
  | .destroyBlock b, s => if b ∈ s.block_map then some (s.destroyBlock b) else none
  | .eraseSingleBlock b, s => if b ∈ s.block_map then some (s.destroyBlock b).freeRanges else none
  | .freeRanges, s => some s.freeRanges
  | .clearCache r, s => some (s.clearCache r)
  | .handleFastmemFault pc, s => some (s.handleFastmemFault pc)

/-- The states that sequences of calls lead to. -/
def Reachable (s : State) : Prop :=
  ∃ region r, Reaches step (fun _ _ => True) (.init region r) s

end Phocoena.JitArm64.CodeSpace
