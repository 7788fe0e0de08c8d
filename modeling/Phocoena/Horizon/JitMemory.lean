import Phocoena.Lib.Runs
import Mathlib.Algebra.Order.Ring.Int

/-! # The registry of the executable memory

`AllocateJitMemory` gives an emitter a kernel object of its own, or some pages of one of the pools
that small emitters share. The results of `jitCreate` and `jitClose` are arguments. A vector that
grows gets its memory, and a window lies in the address space, so that an address is a number.
-/

namespace Phocoena.JitMemory

def PAGE_SIZE : Nat := 4096

def MAX_JIT_REGIONS : Nat := 1024

def MAX_JIT_ALLOCATIONS : Nat := 2048

def SMALL_JIT_POOL_SIZE : Nat := 4 * 1024 * 1024

def MAX_SMALL_JIT_POOLS : Nat := 2

def SMALL_JIT_MAX_ALLOCATION : Nat := 64 * 1024

inductive JitType where
  | setProcessMemoryPermission
  | codeMemory
  deriving DecidableEq

/-- The kernel object. An address that is zero is a null pointer. -/
structure Jit where
  type : JitType := .setProcessMemoryPermission
  size : Nat := 0
  rx_addr : Nat := 0
  rw_addr : Nat := 0
  deriving DecidableEq

structure Allocation where
  offset : Nat := 0
  size : Nat := 0
  used : Bool := false
  deriving DecidableEq

structure Region where
  jit : Jit := {}
  used : Bool := false
  pooled : Bool := false
  quarantined : Bool := false
  active_allocations : Nat := 0
  /-- zero for a free page, else the index of its allocation and one -/
  pages : List Nat := []
  allocations : List Allocation := []
  deriving DecidableEq

structure JitMemoryStats where
  allocations : Nat := 0
  releases : Nat := 0
  failures : Nat := 0
  pooled_allocations : Nat := 0
  active : Nat := 0
  peak_active : Nat := 0
  kernel_regions_active : Nat := 0
  kernel_regions_peak : Nat := 0
  pooled_pages_active : Nat := 0
  pooled_pages_peak : Nat := 0
  deriving DecidableEq

structure State where
  regions : List Region
  stats : JitMemoryStats
  small_pooling_enabled : Bool
  deriving DecidableEq

def init : State := ⟨[], {}, true⟩

def Contains (base capacity pointer size : Nat) : Prop :=
  base ≤ pointer ∧ pointer - base ≤ capacity ∧ size ≤ capacity - (pointer - base)

instance (base capacity pointer size : Nat) : Decidable (Contains base capacity pointer size) :=
  inferInstanceAs (Decidable (_ ∧ _))

/-- `none` stands for a `std::bad_alloc`. -/
def AlignSize (size : Nat) : Option Nat :=
  if size = 0 ∨ 2 ^ 64 - 1 - (PAGE_SIZE - 1) < size then none
  else some ((size + (PAGE_SIZE - 1)) / PAGE_SIZE * PAGE_SIZE)

/-- What `OpenRegion` requires of an object. -/
def Jit.Accepted (jit : Jit) : Prop :=
  jit.type = .codeMemory ∧ jit.rw_addr ≠ 0 ∧ jit.rx_addr ≠ 0 ∧ jit.rw_addr ≠ jit.rx_addr

instance (jit : Jit) : Decidable jit.Accepted := inferInstanceAs (Decidable (_ ∧ _))

/-- `std::fill_n` from the page `first`. -/
def fill_n (pages : List Nat) (first count owner : Nat) : List Nat :=
  pages.mapIdx fun page former => if first ≤ page ∧ page < first + count then owner else former

/-! ## One region -/

namespace Region

/-- The loop of `FindFreePages`, with the pages from `page` on. -/
def findFreePages (pages_needed : Nat) : List Nat → Nat → Nat → Nat
  | [], page, _ => page
  | owner :: rest, page, run =>
      let run := if owner ≠ 0 then 0 else run + 1
      if run = pages_needed then page + 1 - run else findFreePages pages_needed rest (page + 1) run

/-- The number of the pages when there is no such run. -/
def FindFreePages (region : Region) (pages_needed : Nat) : Nat :=
  findFreePages pages_needed region.pages 0 0

/-- The index of the allocation. -/
def FindPoolAllocation (region : Region) (pointer size : Nat) : Option Nat :=
  if size = 0 ∨ ¬ Contains region.jit.rx_addr region.jit.size pointer size then none
  else
    let offset := pointer - region.jit.rx_addr
    let first_page := offset / PAGE_SIZE
    let last_page := (offset + size - 1) / PAGE_SIZE
    let owner := region.pages.getD first_page 0
    if owner = 0 ∨ region.allocations.length < owner then none
    else if ∃ page < last_page + 1, first_page < page ∧ region.pages.getD page 0 ≠ owner then none
    else
      let allocation := region.allocations.getD (owner - 1) {}
      if allocation.used ∧
          Contains (region.jit.rx_addr + allocation.offset) allocation.size pointer size then
        some (owner - 1)
      else none

/-- The region that `FreeJitMemory` stops at. -/
def Holds (region : Region) (rx : Nat) : Prop :=
  region.used = true ∧ region.quarantined = false ∧
    (Contains region.jit.rx_addr region.jit.size rx 1 ∨
      Contains region.jit.rw_addr region.jit.size rx 1)

instance (region : Region) (rx : Nat) : Decidable (region.Holds rx) :=
  inferInstanceAs (Decidable (_ ∧ _))

/-- A pool that allocations are taken from. -/
def IsPool (region : Region) : Prop :=
  region.used = true ∧ region.pooled = true ∧ region.quarantined = false

instance (region : Region) : Decidable region.IsPool := inferInstanceAs (Decidable (_ ∧ _))

end Region

/-! ## The registry -/

/-- What `jitCreate` and `jitClose` do in a call. -/
structure JitResults where
  created : Option Jit
  closes : Bool

inductive JitFreeResult where
  | notJit
  | released
  | failed
  deriving DecidableEq

namespace State

def region (s : State) (index : Nat) : Region := s.regions.getD index {}

def setRegion (s : State) (index : Nat) (region : Region) : State :=
  { s with regions := s.regions.set index region }

def CountPoolRegions (s : State) : Nat := s.regions.countP fun region => region.IsPool

def failure (s : State) : State := { s with stats.failures := s.stats.failures + 1 }

def CloseRegion (closes : Bool) (index : Nat) (s : State) : Bool × State :=
  if closes then
    (true, { s.setRegion index {} with
      stats.kernel_regions_active := s.stats.kernel_regions_active - 1 })
  else (false, s)

/-- The first region that is not used, appended when there is none. -/
def emplace (s : State) : State :=
  if s.regions.findIdx (fun region => ! region.used) = s.regions.length then
    { s with regions := s.regions ++ [{}] }
  else s

/-- `OpenRegion` with an object that `jitCreate` has made. -/
def openWith (jit : Jit) (closes pooled : Bool) (index : Nat) (s : State) : Option Nat × State :=
  let region := { s.emplace.region index with jit, used := true, pooled }
  let kernel_regions_active := s.stats.kernel_regions_active + 1
  let stats := { s.stats with
    kernel_regions_active
    kernel_regions_peak := max s.stats.kernel_regions_peak kernel_regions_active }
  if jit.Accepted then
    let pages := if pooled then List.replicate (jit.size / PAGE_SIZE) 0 else region.pages
    (some index, { s.emplace.setRegion index { region with pages } with stats })
  else if closes then
    -- what was appended is popped again
    let s := if index = s.regions.length then s else s.setRegion index {}
    (none, { s with stats := { stats with kernel_regions_active := kernel_regions_active - 1 } })
  else
    (none, { s.emplace.setRegion index { region with quarantined := true, pooled := false } with
      stats })

/-- The index of the region. `none` stands for a `std::bad_alloc`. -/
def OpenRegion (results : JitResults) (pooled : Bool) (s : State) : Option Nat × State :=
  let index := s.regions.findIdx fun region => ! region.used
  if index = s.regions.length ∧ MAX_JIT_REGIONS ≤ s.regions.length then (none, s)
  else
    match results.created with
    | none => (none, s)
    | some jit => s.openWith jit results.closes pooled index

def RecordAllocation (pooled : Bool) (pages : Nat) (s : State) : State :=
  let active := s.stats.active + 1
  let stats := { s.stats with
    allocations := s.stats.allocations + 1, active, peak_active := max s.stats.peak_active active }
  if pooled then
    let pooled_pages_active := stats.pooled_pages_active + pages
    { s with stats := { stats with
        pooled_allocations := stats.pooled_allocations + 1
        pooled_pages_active
        pooled_pages_peak := max stats.pooled_pages_peak pooled_pages_active } }
  else { s with stats }

/-- `false` stands for a `std::bad_alloc`. -/
def AddPoolAllocation (index offset size : Nat) (s : State) : Bool × State :=
  let region := s.region index
  let first_page := offset / PAGE_SIZE
  let page_count := size / PAGE_SIZE
  let slot := region.allocations.findIdx fun allocation => ! allocation.used
  let allocations :=
    if slot = region.allocations.length then region.allocations ++ [⟨0, 0, false⟩]
    else region.allocations
  if 2 ^ 16 - 1 ≤ slot then (false, s.setRegion index { region with allocations })
  else
    (true, (s.setRegion index { region with
      allocations := allocations.set slot ⟨offset, size, true⟩
      pages := fill_n region.pages first_page page_count (slot + 1)
      active_allocations := region.active_allocations + 1 }).RecordAllocation true page_count)

def suballocate (index first_page aligned_size : Nat) (s : State) : Option Nat × State :=
  let offset := first_page * PAGE_SIZE
  match s.AddPoolAllocation index offset aligned_size with
  | (false, s) => (none, s)
  | (true, s) => (some ((s.region index).jit.rx_addr + offset), s)

def allocatePooled (results : JitResults) (aligned_size : Nat) (s : State) : Option Nat × State :=
  let pages_needed := aligned_size / PAGE_SIZE
  match s.regions.findIdx? fun region =>
      region.IsPool ∧ region.FindFreePages pages_needed ≠ region.pages.length with
  | some index =>
      s.suballocate index ((s.region index).FindFreePages pages_needed) aligned_size
  | none =>
      if MAX_SMALL_JIT_POOLS ≤ s.CountPoolRegions then (none, s)
      else
        match s.OpenRegion results true with
        | (none, s) => (none, s)
        | (some index, s) => s.suballocate index 0 aligned_size

def allocateDedicated (results : JitResults) (s : State) : Option Nat × State :=
  match s.OpenRegion results false with
  | (none, s) => (none, s)
  | (some index, s) => (some (s.region index).jit.rx_addr, s.RecordAllocation false 0)

/-- The size that is allocated from the pools. -/
def Pools (s : State) (aligned_size : Nat) : Prop :=
  s.small_pooling_enabled = true ∧ aligned_size ≤ SMALL_JIT_MAX_ALLOCATION

instance (s : State) (aligned_size : Nat) : Decidable (s.Pools aligned_size) :=
  inferInstanceAs (Decidable (_ ∧ _))

/-- The address that is returned, `none` for a `std::bad_alloc`, with the state it leaves. -/
def AllocateJitMemory (results : JitResults) (size : Nat) (s : State) : Option Nat × State :=
  match AlignSize size with
  | none => (none, s.failure)
  | some aligned_size =>
      if MAX_JIT_ALLOCATIONS ≤ s.stats.active then (none, s.failure)
      else
        match (if s.Pools aligned_size then s.allocatePooled results aligned_size
          else s.allocateDedicated results) with
        | (none, s) => (none, s.failure)
        | (some address, s) => (some address, s)

/-- The counters of a release. -/
def release (pages : Nat) (s : State) : State :=
  { s with stats := { s.stats with
      pooled_pages_active := s.stats.pooled_pages_active - pages
      active := s.stats.active - 1
      releases := s.stats.releases + 1 } }

def freePooled (closes : Bool) (rx aligned_size index : Nat) (s : State) : JitFreeResult × State :=
  let region := s.region index
  match region.FindPoolAllocation rx 1 with
  | none => (.failed, s)
  | some slot =>
      let allocation := region.allocations.getD slot {}
      if rx ≠ region.jit.rx_addr + allocation.offset ∨ aligned_size ≠ allocation.size then
        (.failed, s)
      else if region.active_allocations = 1 then
        match s.CloseRegion closes index with
        | (false, s) => (.failed, s)
        | (true, s) => (.released, s.release (aligned_size / PAGE_SIZE))
      else
        (.released, (s.setRegion index { region with
          pages := fill_n region.pages (allocation.offset / PAGE_SIZE)
            (allocation.size / PAGE_SIZE) 0
          allocations := region.allocations.set slot ({} : Allocation)
          active_allocations := region.active_allocations - 1 }).release
            (aligned_size / PAGE_SIZE))

def freeDedicated (closes : Bool) (rx aligned_size index : Nat) (s : State) :
    JitFreeResult × State :=
  let region := s.region index
  if rx ≠ region.jit.rx_addr ∨ aligned_size ≠ region.jit.size then (.failed, s)
  else
    match s.CloseRegion closes index with
    | (false, s) => (.failed, s)
    | (true, s) => (.released, s.release 0)

def FreeJitMemory (closes : Bool) (rx size : Nat) (s : State) : JitFreeResult × State :=
  match s.regions.findIdx? fun region => region.Holds rx with
  | none => (.notJit, s)
  | some index =>
      match AlignSize size with
      | none => (.failed, s)
      | some aligned_size =>
          if (s.region index).pooled then s.freePooled closes rx aligned_size index
          else s.freeDedicated closes rx aligned_size index

def SetSmallJitPoolingEnabled (enabled : Bool) (s : State) : State :=
  if s.stats.active ≠ 0 ∧ s.small_pooling_enabled ≠ enabled then s
  else { s with small_pooling_enabled := enabled }

end State

end Phocoena.JitMemory
