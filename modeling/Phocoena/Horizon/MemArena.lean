import Phocoena.Lib.Runs
import Mathlib.Algebra.Order.Ring.Int
import Mathlib.Data.List.Basic

/-! # The memory arena of the fastmem mappings

`MemArena` with what it asks of the kernel. The canonical mapping is the backing memory mapped as
code memory at `m_rw_mirror`; an alias maps a part of it into the reserved region. Each call of
the kernel is given its result; a call that fails changes nothing.
-/

namespace Phocoena.MemArena

def HORIZON_PAGE_SIZE : Nat := 0x1000

def HORIZON_ARENA_ALIGNMENT : Nat := 0x200000

/-- `none` stands for a `std::bad_alloc`. -/
def AlignUp (value alignment : Nat) : Option Nat :=
  if 2 ^ 64 - 1 - (alignment - 1) < value then none
  else some ((value + alignment - 1) / alignment * alignment)

/-! ## The kernel -/

structure Alias where
  base : Nat
  source : Nat
  size : Nat
  deriving DecidableEq

structure Canonical where
  mirror : Nat
  backing : Nat
  size : Nat
  deriving DecidableEq

@[ext] structure Kernel where
  aliases : List Alias
  canonical : List Canonical
  deriving DecidableEq

namespace Kernel

/-- The addresses of an alias are not in use. -/
def Free (kernel : Kernel) (view : Alias) : Prop :=
  0 < view.size ∧ ∀ other ∈ kernel.aliases,
    other.base + other.size ≤ view.base ∨ view.base + view.size ≤ other.base

instance (kernel : Kernel) (view : Alias) : Decidable (kernel.Free view) :=
  inferInstanceAs (Decidable (_ ∧ _))

def svcMapProcessMemory (succeeds : Bool) (view : Alias) (kernel : Kernel) : Bool × Kernel :=
  if succeeds ∧ kernel.Free view then
    (true, { kernel with aliases := view :: kernel.aliases })
  else (false, kernel)

def svcUnmapProcessMemory (succeeds : Bool) (view : Alias) (kernel : Kernel) : Bool × Kernel :=
  if succeeds ∧ view ∈ kernel.aliases then
    (true, { kernel with aliases := kernel.aliases.erase view })
  else (false, kernel)

def svcMapProcessCodeMemory (succeeds : Bool) (mapping : Canonical) (kernel : Kernel) :
    Bool × Kernel :=
  if succeeds then (true, { kernel with canonical := mapping :: kernel.canonical })
  else (false, kernel)

def svcUnmapProcessCodeMemory (succeeds : Bool) (mapping : Canonical) (kernel : Kernel) :
    Bool × Kernel :=
  if succeeds ∧ mapping ∈ kernel.canonical then
    (true, { kernel with canonical := kernel.canonical.erase mapping })
  else (false, kernel)

end Kernel

/-! ## The arena -/

structure Mapping where
  base : Nat
  offset : Int
  size : Nat
  deriving DecidableEq

/-- `none` stands for a null pointer. -/
structure State where
  m_shm_buffer : Option Nat
  m_shm_size : Nat
  m_fastmem_backing : Bool
  m_rw_mirror : Option Nat
  m_reserved_region : Option Nat
  m_reserved_region_size : Nat
  m_reservation : Option (Nat × Nat)
  m_fastmem_mappings : List Mapping
  kernel : Kernel
  /-- the backing memory that is not freed -/
  allocated : List Nat
  /-- the reservations that are not removed -/
  reservations : List (Nat × Nat)
  deriving DecidableEq

def init : State where
  m_shm_buffer := none
  m_shm_size := 0
  m_fastmem_backing := false
  m_rw_mirror := none
  m_reserved_region := none
  m_reserved_region_size := 0
  m_reservation := none
  m_fastmem_mappings := []
  kernel := ⟨[], []⟩
  allocated := []
  reservations := []

namespace State

/-- `m_rw_mirror` as an address. -/
def source (s : State) (offset : Int) : Nat := s.m_rw_mirror.getD 0 + offset.toNat

def aliasOf (s : State) (mapping : Mapping) : Alias :=
  ⟨mapping.base, s.source mapping.offset, mapping.size⟩

/-- The results of the kernel calls of `ReleaseSHMSegment`: the ones for the aliases by their
index. -/
structure ReleaseResults where
  unmap : Nat → Bool
  unmapCanonical : Bool

/-- The loop of `ReleaseMemoryRegion` over the indices below one. -/
def releaseMappings (unmap : Nat → Bool) : Nat → State → State
  | 0, s => s
  | index + 1, s =>
      match s.m_fastmem_mappings[index]? with
      | none => releaseMappings unmap index s
      | some mapping =>
          let (succeeded, kernel) :=
            s.kernel.svcUnmapProcessMemory (unmap index) (s.aliasOf mapping)
          if succeeded then
            releaseMappings unmap index
              { s with kernel, m_fastmem_mappings := s.m_fastmem_mappings.eraseIdx index }
          else releaseMappings unmap index { s with kernel }

def ReleaseMemoryRegion (unmap : Nat → Bool) (s : State) : State :=
  let s := releaseMappings unmap s.m_fastmem_mappings.length s
  if s.m_fastmem_mappings = [] then
    { s with
      reservations := match s.m_reservation with
        | some reservation => s.reservations.erase reservation
        | none => s.reservations
      m_reservation := none
      m_reserved_region := none
      m_reserved_region_size := 0 }
  else s

/-- `ReleaseSHMSegment` once no alias is listed. -/
def releaseBacking (unmapCanonical : Bool) (s : State) : State :=
  let kernel := match s.m_rw_mirror with
    | some mirror => (s.kernel.svcUnmapProcessCodeMemory unmapCanonical
        ⟨mirror, s.m_shm_buffer.getD 0, s.m_shm_size⟩).2
    | none => s.kernel
  { s with
    kernel
    m_rw_mirror := none
    allocated := match s.m_shm_buffer with
      | some backing => s.allocated.erase backing
      | none => s.allocated
    m_shm_buffer := none
    m_shm_size := 0
    m_fastmem_backing := false }

def ReleaseSHMSegment (results : ReleaseResults) (s : State) : State :=
  let s := s.ReleaseMemoryRegion results.unmap
  if s.m_fastmem_mappings = [] then s.releaseBacking results.unmapCanonical else s

/-- What `GrabSHMSegment` gets from the allocators and the kernel. -/
structure GrabResults where
  /-- fastmem is requested and supported -/
  fastmem : Bool
  /-- `AllocateAlignedMemory` -/
  aligned : Option Nat
  /-- `virtmemFindCodeMemory` -/
  mirror : Option Nat
  map : Bool
  permission : Bool
  unmap : Bool
  /-- `AllocateMemoryPages` -/
  pages : Option Nat

/-- The canonical mapping of a backing that has been allocated. -/
def mapCanonical (results : GrabResults) (backing aligned_size : Nat) (s : State) : State :=
  match results.mirror with
  | none => { s with m_rw_mirror := none }
  | some mirror =>
      let canonical : Canonical := ⟨mirror, backing, aligned_size⟩
      let (mapped, kernel) := s.kernel.svcMapProcessCodeMemory results.map canonical
      if mapped ∧ results.permission then { s with kernel, m_rw_mirror := mirror }
      else { s with
        kernel := (kernel.svcUnmapProcessCodeMemory results.unmap canonical).2
        m_rw_mirror := none }

/-- `GrabSHMSegment` without fastmem. -/
def allocatePages (results : GrabResults) (size : Nat) (s : State) : State :=
  match s.m_shm_buffer, results.pages with
  | some _, _ => s
  | none, none => { s with m_shm_size := 0, m_fastmem_backing := false }
  | none, some backing => { s with
      m_shm_buffer := some backing, m_shm_size := size, m_fastmem_backing := false
      allocated := backing :: s.allocated }

/-- `GrabSHMSegment` once the former segment is released. -/
def allocateSegment (results : GrabResults) (size : Nat) (s : State) : State :=
  if results.fastmem then
    match AlignUp size HORIZON_ARENA_ALIGNMENT, results.aligned with
    | none, _ => s
    | some _, none => s.allocatePages results size
    | some aligned_size, some backing =>
        mapCanonical results backing aligned_size { s with
          m_shm_buffer := some backing, m_shm_size := aligned_size, m_fastmem_backing := true
          allocated := backing :: s.allocated }
  else s.allocatePages results size

/-- With the state that an exception leaves. -/
def GrabSHMSegment (release : ReleaseResults) (results : GrabResults) (size : Nat) (s : State) :
    State :=
  let s := s.ReleaseSHMSegment release
  if s.m_shm_buffer.isSome then s else s.allocateSegment results size

/-- With the state that an exception leaves. `region` is what `virtmemFindAslr` returns. -/
def ReserveMemoryRegion (supported : Bool) (region : Option Nat) (added : Bool) (size : Nat)
    (s : State) : State :=
  if s.m_rw_mirror = none ∨ ¬ supported then s
  else
    match AlignUp size HORIZON_ARENA_ALIGNMENT, region with
    | none, _ => s
    | some _, none => { s with m_reserved_region := none, m_reservation := none }
    | some aligned_size, some region =>
        if added then
          { s with
            m_reserved_region := some region
            m_reservation := some (region, aligned_size)
            m_reserved_region_size := aligned_size
            reservations := (region, aligned_size) :: s.reservations }
        else { s with m_reserved_region := none, m_reservation := none }

/-- The arguments that `MapInMemoryRegion` goes on with. -/
def MapsIn (s : State) (offset : Int) (size base : Nat) (writeable read_only_mappings : Bool) :
    Prop :=
  s.m_rw_mirror ≠ none ∧ 0 ≤ offset ∧ offset.toNat ≤ s.m_shm_size ∧
    size ≤ s.m_shm_size - offset.toNat ∧ base % HORIZON_PAGE_SIZE = 0 ∧
    offset.toNat % HORIZON_PAGE_SIZE = 0 ∧ size % HORIZON_PAGE_SIZE = 0 ∧
    (∃ arena_begin ∈ s.m_reserved_region, arena_begin ≤ base ∧
      base - arena_begin ≤ s.m_reserved_region_size ∧
      size ≤ s.m_reserved_region_size - (base - arena_begin)) ∧
    (writeable ∨ read_only_mappings)

instance (s : State) (offset : Int) (size base : Nat) (writeable read_only_mappings : Bool) :
    Decidable (s.MapsIn offset size base writeable read_only_mappings) :=
  inferInstanceAs (Decidable (_ ∧ _))

/-- What the kernel calls and `emplace_back` of `MapInMemoryRegion` do. -/
structure MapResults where
  map : Bool
  permission : Bool
  emplace : Bool
  unmap : Bool

/-- The address that is returned comes first. -/
def MapInMemoryRegion (offset : Int) (size base : Nat) (writeable read_only_mappings : Bool)
    (results : MapResults) (s : State) : Option Nat × State :=
  if s.MapsIn offset size base writeable read_only_mappings then
    let view : Alias := ⟨base, s.source offset, size⟩
    let (mapped, kernel) := s.kernel.svcMapProcessMemory results.map view
    if mapped ∧ (writeable ∨ results.permission) ∧ results.emplace then
      (some base, { s with
        kernel, m_fastmem_mappings := s.m_fastmem_mappings ++ [⟨base, offset, size⟩] })
    else (none, { s with kernel := (kernel.svcUnmapProcessMemory results.unmap view).2 })
  else (none, s)

/-- What it returns. No mapping is made or removed. -/
def ChangeMappingProtection (view : Option Nat) (size : Nat) (writeable : Bool)
    (read_only_mappings permission : Bool) : Bool :=
  if view = none ∨ size = 0 then true
  else if ¬ read_only_mappings then writeable
  else permission

def UnmapFromMemoryRegion (view size : Nat) (unmap : Bool) (s : State) : State :=
  match s.m_fastmem_mappings.findIdx? fun mapping => mapping.base = view with
  | none => s
  | some index =>
      match s.m_fastmem_mappings[index]? with
      | none => s
      | some mapping =>
          if mapping.size ≠ size then s
          else
            let (succeeded, kernel) := s.kernel.svcUnmapProcessMemory unmap (s.aliasOf mapping)
            if succeeded then
              { s with kernel, m_fastmem_mappings := s.m_fastmem_mappings.eraseIdx index }
            else { s with kernel }

end State

open State

inductive Action where
  | grabSHMSegment (release : ReleaseResults) (results : GrabResults) (size : Nat)
  | reserveMemoryRegion (supported : Bool) (region : Option Nat) (added : Bool) (size : Nat)
  | mapInMemoryRegion (offset : Int) (size base : Nat) (writeable read_only_mappings : Bool)
      (results : MapResults)
  | changeMappingProtection (view : Option Nat) (size : Nat)
      (writeable read_only_mappings permission : Bool)
  | unmapFromMemoryRegion (view size : Nat) (unmap : Bool)
  | releaseMemoryRegion (unmap : Nat → Bool)
  | releaseSHMSegment (results : ReleaseResults)

def step (action : Action) (s : State) : Option State :=
  match action with
  | .grabSHMSegment release results size => some (s.GrabSHMSegment release results size)
  | .reserveMemoryRegion supported region added size =>
      some (s.ReserveMemoryRegion supported region added size)
  | .mapInMemoryRegion offset size base writeable read_only_mappings results =>
      some (s.MapInMemoryRegion offset size base writeable read_only_mappings results).2
  | .changeMappingProtection .. => some s
  | .unmapFromMemoryRegion view size unmap => some (s.UnmapFromMemoryRegion view size unmap)
  | .releaseMemoryRegion unmap => some (s.ReleaseMemoryRegion unmap)
  | .releaseSHMSegment results => some (s.ReleaseSHMSegment results)

end Phocoena.MemArena
