import Phocoena.Horizon.MemArena
import Mathlib.Data.List.Perm.Basic

/-! # The ledger of the fastmem mappings

`m_fastmem_mappings` is what `ReleaseSHMSegment` goes by. It lists the aliases of the kernel, and
the backing memory outlives them, in runs where no unmapping that the code does not look at fails.
-/

namespace Phocoena.MemArena

/-- What holds between the calls. -/
structure Sound (s : State) : Prop where
  listed : s.kernel.aliases.Perm (s.m_fastmem_mappings.map s.aliasOf)
  inside : ∀ view ∈ s.kernel.aliases, ∃ region ∈ s.m_reserved_region, ∃ mirror ∈ s.m_rw_mirror,
    region ≤ view.base ∧ view.base + view.size ≤ region + s.m_reserved_region_size ∧
    mirror ≤ view.source ∧ view.source + view.size ≤ mirror + s.m_shm_size
  allocated : ∀ canonical ∈ s.kernel.canonical, canonical.backing ∈ s.allocated
  mirrored : ∀ view ∈ s.kernel.aliases, ∃ canonical ∈ s.kernel.canonical,
    canonical.mirror ≤ view.source ∧ view.source + view.size ≤ canonical.mirror + canonical.size
  reserved : ∀ view ∈ s.kernel.aliases, ∃ reservation ∈ s.reservations,
    reservation.1 ≤ view.base ∧ view.base + view.size ≤ reservation.1 + reservation.2

/-- A canonical mapping that is there can be unmapped. -/
def ReleaseResults.Meets (results : State.ReleaseResults) (s : State) : Prop :=
  s.m_rw_mirror ≠ none → results.unmapCanonical = true

/-- The calls of a run that the ledger stands: the unmappings whose results are not looked at
succeed, a mapping that is listed is not taken for one that has just failed, and a region is
reserved when no alias is in the former one. -/
def Meets (action : Action) (s : State) : Prop :=
  match action with
  | .grabSHMSegment release results _ =>
      ReleaseResults.Meets release s ∧
        (results.map = true → results.permission = false → results.unmap = true)
  | .reserveMemoryRegion supported _ _ size =>
      s.m_rw_mirror = none ∨ supported = false ∨ AlignUp size HORIZON_ARENA_ALIGNMENT = none ∨
        s.m_fastmem_mappings = []
  | .mapInMemoryRegion offset size base writeable _ results =>
      (results.map = true → s.kernel.Free ⟨base, s.source offset, size⟩ →
        (writeable = false ∧ results.permission = false ∨ results.emplace = false) →
        results.unmap = true) ∧
      (⟨base, offset, size⟩ ∈ s.m_fastmem_mappings → results.unmap = false)
  | .releaseSHMSegment results => ReleaseResults.Meets results s
  | .changeMappingProtection .. | .unmapFromMemoryRegion .. | .releaseMemoryRegion _ => True

instance (results : State.ReleaseResults) (s : State) :
    Decidable (ReleaseResults.Meets results s) :=
  inferInstanceAs (Decidable (_ → _))

instance (action : Action) (s : State) : Decidable (Meets action s) :=
  match action with
  | .grabSHMSegment .. => inferInstanceAs (Decidable (_ ∧ _))
  | .reserveMemoryRegion .. => inferInstanceAs (Decidable (_ ∨ _))
  | .mapInMemoryRegion .. => inferInstanceAs (Decidable (_ ∧ _))
  | .releaseSHMSegment results => inferInstanceAs (Decidable (ReleaseResults.Meets results s))
  | .changeMappingProtection .. | .unmapFromMemoryRegion .. | .releaseMemoryRegion _ =>
      inferInstanceAs (Decidable True)

/-! ## The invariant -/

/-- The mapping lies in the reserved region and in the backing. -/
def State.Holds (s : State) (mapping : Mapping) : Prop :=
  0 ≤ mapping.offset ∧ mapping.offset.toNat + mapping.size ≤ s.m_shm_size ∧
    s.m_rw_mirror ≠ none ∧ ∃ region ∈ s.m_reserved_region, region ≤ mapping.base ∧
      mapping.base + mapping.size ≤ region + s.m_reserved_region_size

structure Inv (s : State) : Prop where
  listed : s.kernel.aliases.Perm (s.m_fastmem_mappings.map s.aliasOf)
  holds : ∀ mapping ∈ s.m_fastmem_mappings, s.Holds mapping
  canonical : s.kernel.canonical =
    s.m_rw_mirror.toList.map fun mirror => ⟨mirror, s.m_shm_buffer.getD 0, s.m_shm_size⟩
  backed : s.m_rw_mirror ≠ none → s.m_shm_buffer ≠ none
  allocated : s.allocated = s.m_shm_buffer.toList
  region : s.m_reservation = s.m_reserved_region.map (·, s.m_reserved_region_size)
  reserved : ∀ reservation ∈ s.m_reservation, reservation ∈ s.reservations

theorem Inv.init : Inv init where
  listed := .refl _
  holds := nofun
  canonical := rfl
  backed := nofun
  allocated := rfl
  region := rfl
  reserved := nofun

theorem Inv.sound {s : State} (inv : Inv s) : Sound s := by
  have listed {view : Alias} (member : view ∈ s.kernel.aliases) :
      ∃ mapping, s.Holds mapping ∧ s.aliasOf mapping = view := by
    obtain ⟨mapping, recorded, eq⟩ := List.mem_map.mp (inv.listed.mem_iff.mp member)
    exact ⟨mapping, inv.holds mapping recorded, eq⟩
  refine ⟨inv.listed, ?_, ?_, ?_, ?_⟩
  · intro view member
    obtain ⟨mapping, ⟨_, inside, mapped, region, reserved, low, high⟩, rfl⟩ := listed member
    obtain ⟨mirror, eq⟩ := Option.ne_none_iff_exists'.mp mapped
    refine ⟨region, reserved, mirror, eq, low, high, ?_⟩
    simp only [State.aliasOf, State.source, eq, Option.getD_some]
    omega
  · intro canonical member
    rw [inv.canonical] at member
    obtain ⟨mirror, mapped, rfl⟩ := List.mem_map.mp member
    rw [inv.allocated]
    obtain ⟨backing, eq⟩ := Option.ne_none_iff_exists'.mp (inv.backed
      (Option.ne_none_iff_exists'.mpr ⟨mirror, Option.mem_toList.mp mapped⟩))
    simp [eq]
  · intro view member
    obtain ⟨mapping, ⟨_, inside, mapped, _⟩, rfl⟩ := listed member
    obtain ⟨mirror, eq⟩ := Option.ne_none_iff_exists'.mp mapped
    refine ⟨⟨mirror, s.m_shm_buffer.getD 0, s.m_shm_size⟩, ?_, ?_⟩
    · rw [inv.canonical, eq]
      exact List.mem_singleton_self _
    · simp only [State.aliasOf, State.source, eq, Option.getD_some]
      omega
  · intro view member
    obtain ⟨mapping, ⟨_, _, _, region, reserved, low, high⟩, rfl⟩ := listed member
    refine ⟨(region, s.m_reserved_region_size), inv.reserved _ ?_, low, high⟩
    rw [inv.region]
    exact Option.mem_map_of_mem _ reserved

/-- Without a canonical mapping there is no alias. -/
theorem Inv.mappings_nil {s : State} (inv : Inv s) (unmapped : s.m_rw_mirror = none) :
    s.m_fastmem_mappings = [] := by
  apply List.eq_nil_iff_forall_not_mem.mpr
  intro mapping member
  exact (inv.holds mapping member).2.2.1 unmapped

/-! ## Aliases -/

theorem svcUnmapProcessMemory_cases (succeeds : Bool) (view : Alias) (kernel : Kernel) :
    view ∈ kernel.aliases ∧ kernel.svcUnmapProcessMemory succeeds view =
        (true, { kernel with aliases := kernel.aliases.erase view }) ∨
      kernel.svcUnmapProcessMemory succeeds view = (false, kernel) := by
  unfold Kernel.svcUnmapProcessMemory
  split
  · rename_i unmapped
    exact .inl ⟨unmapped.2, rfl⟩
  · exact .inr rfl

theorem perm_eraseIdx {α β : Type} [DecidableEq β] {f : α → β} {entries : List α} {views : List β}
    (listed : views.Perm (entries.map f)) {index : Nat} {entry : α}
    (found : entries[index]? = some entry) :
    (views.erase (f entry)).Perm ((entries.eraseIdx index).map f) := by
  obtain ⟨bound, rfl⟩ := List.getElem?_eq_some_iff.mp found
  have apart := (List.getElem_cons_eraseIdx_perm bound).map f
  have erased := (listed.trans apart.symm).erase (f entries[index])
  rwa [List.map_cons, List.erase_cons_head] at erased

/-- A listed alias is unmapped and taken off the list, or stays in both. -/
theorem Inv.unmap {s : State} (inv : Inv s) {index : Nat} {mapping : Mapping}
    (found : s.m_fastmem_mappings[index]? = some mapping) :
    Inv { s with
      kernel := { s.kernel with aliases := s.kernel.aliases.erase (s.aliasOf mapping) }
      m_fastmem_mappings := s.m_fastmem_mappings.eraseIdx index } where
  listed := perm_eraseIdx inv.listed found
  holds other member := inv.holds other (List.mem_of_mem_eraseIdx member)
  canonical := inv.canonical
  backed := inv.backed
  allocated := inv.allocated
  region := inv.region
  reserved := inv.reserved

theorem Inv.releaseMappings {s : State} (inv : Inv s) (unmap : Nat → Bool) (index : Nat) :
    Inv (s.releaseMappings unmap index) := by
  induction index generalizing s with
  | zero => exact inv
  | succ index ih =>
      rw [State.releaseMappings]
      split
      · exact ih inv
      · rename_i mapping found
        obtain ⟨_, eq⟩ | eq :=
          svcUnmapProcessMemory_cases (unmap index) (s.aliasOf mapping) s.kernel
        · rw [eq]
          exact ih (inv.unmap found)
        · rw [eq]
          exact ih inv

theorem Inv.releaseMemoryRegion {s : State} (inv : Inv s) (unmap : Nat → Bool) :
    Inv (s.ReleaseMemoryRegion unmap) := by
  have released := inv.releaseMappings unmap s.m_fastmem_mappings.length
  unfold State.ReleaseMemoryRegion
  dsimp only
  split
  · rename_i empty
    refine ⟨released.listed, ?_, released.canonical, released.backed, released.allocated, rfl,
      nofun⟩
    intro mapping member
    exact absurd (empty ▸ member) List.not_mem_nil
  · exact released

theorem Inv.unmapFromMemoryRegion {s : State} (inv : Inv s) (view size : Nat) (unmap : Bool) :
    Inv (s.UnmapFromMemoryRegion view size unmap) := by
  unfold State.UnmapFromMemoryRegion
  split
  · exact inv
  · split
    · exact inv
    · rename_i mapping found
      split
      · exact inv
      · obtain ⟨_, eq⟩ | eq := svcUnmapProcessMemory_cases unmap (s.aliasOf mapping) s.kernel
        · rw [eq]
          exact inv.unmap found
        · rw [eq]
          exact inv

theorem Inv.mapInMemoryRegion {s : State} (inv : Inv s) {offset : Int} {size base : Nat}
    {writeable read_only_mappings : Bool} {results : State.MapResults}
    (meets : Meets (.mapInMemoryRegion offset size base writeable read_only_mappings results) s) :
    Inv (s.MapInMemoryRegion offset size base writeable read_only_mappings results).2 := by
  obtain ⟨cleaned, unlisted⟩ := meets
  unfold State.MapInMemoryRegion
  split
  swap
  · exact inv
  rename_i accepted
  obtain ⟨mirror, nonneg, _, fits, _, _, _, ⟨region, reserved, low, _, high⟩, _⟩ := accepted
  have holds : s.Holds ⟨base, offset, size⟩ :=
    ⟨nonneg, by dsimp only; omega, mirror, region, reserved, low, by dsimp only; omega⟩
  unfold Kernel.svcMapProcessMemory
  dsimp only
  by_cases mapped : results.map ∧ s.kernel.Free ⟨base, s.source offset, size⟩
  · rw [if_pos mapped]
    dsimp only
    split
    · refine ⟨?_, ?_, inv.canonical, inv.backed, inv.allocated, inv.region, inv.reserved⟩
      · rw [List.map_append]
        exact (inv.listed.cons _).trans (List.perm_append_singleton _ _).symm
      · intro mapping member
        obtain before | rfl := List.mem_append.mp member |>.imp_right List.mem_singleton.mp
        · exact inv.holds mapping before
        · exact holds
    · rename_i failed
      -- the mapping that has just been made is undone
      have undone : results.unmap = true := by
        apply cleaned mapped.1 mapped.2
        cases writeable <;> cases permission : results.permission <;>
          cases emplace : results.emplace <;> simp_all
      have undo : (Kernel.svcUnmapProcessMemory results.unmap ⟨base, s.source offset, size⟩
          { s.kernel with aliases := ⟨base, s.source offset, size⟩ :: s.kernel.aliases }).2 =
          s.kernel := by
        simp only [Kernel.svcUnmapProcessMemory, undone, List.mem_cons_self, and_self, if_true,
          List.erase_cons_head]
      rw [undo]
      exact inv
  · rw [if_neg mapped]
    simp only [Bool.false_eq_true, false_and, if_false]
    obtain ⟨member, _⟩ | eq :=
      svcUnmapProcessMemory_cases results.unmap ⟨base, s.source offset, size⟩ s.kernel
    · -- an alias of this base and this source is listed
      obtain ⟨mapping, recorded, same⟩ := List.mem_map.mp (inv.listed.mem_iff.mp member)
      have nonneg' := (inv.holds mapping recorded).1
      obtain ⟨base', offset', size'⟩ := mapping
      simp only [State.aliasOf, State.source, Alias.mk.injEq] at same
      obtain ⟨rfl, source, rfl⟩ := same
      have offset_eq : offset' = offset := by
        dsimp only at nonneg'
        omega
      subst offset_eq
      rw [unlisted recorded]
      simp only [Kernel.svcUnmapProcessMemory, Bool.false_eq_true, false_and, if_false]
      exact inv
    · rw [eq]
      exact inv

/-! ## The backing -/

theorem Inv.aliases_nil {s : State} (inv : Inv s) (empty : s.m_fastmem_mappings = []) :
    s.kernel.aliases = [] := by
  have listed := inv.listed
  rw [empty] at listed
  exact listed.eq_nil

theorem Inv.releaseBacking {s : State} (inv : Inv s) (empty : s.m_fastmem_mappings = [])
    {unmapCanonical : Bool} (unmaps : s.m_rw_mirror ≠ none → unmapCanonical = true) :
    Inv (s.releaseBacking unmapCanonical) := by
  have aliases := inv.aliases_nil empty
  have canonical := inv.canonical
  have freed : (s.releaseBacking unmapCanonical).allocated = [] := by
    simp only [State.releaseBacking, inv.allocated]
    cases s.m_shm_buffer with
    | none => rfl
    | some backing => exact List.erase_cons_head ..
  have unmapped : (s.releaseBacking unmapCanonical).kernel = ⟨[], []⟩ := by
    simp only [State.releaseBacking]
    cases mirror : s.m_rw_mirror with
    | none =>
        rw [mirror] at canonical
        exact Kernel.ext aliases canonical
    | some mirrored =>
        rw [mirror] at canonical
        simp only [Option.toList_some, List.map_cons, List.map_nil] at canonical
        simp only [Kernel.svcUnmapProcessCodeMemory, unmaps (by simp [mirror]), canonical,
          List.mem_singleton, and_self, if_true, List.erase_cons_head, aliases]
  refine ⟨?_, ?_, ?_, nofun, freed, inv.region, inv.reserved⟩
  · rw [unmapped]
    exact (congrArg (List.map _) empty).symm ▸ .refl _
  · intro mapping member
    exact absurd (empty ▸ member) List.not_mem_nil
  · rw [unmapped]
    rfl

theorem releaseMappings_mirror (unmap : Nat → Bool) (index : Nat) (s : State) :
    (s.releaseMappings unmap index).m_rw_mirror = s.m_rw_mirror := by
  induction index generalizing s with
  | zero => rfl
  | succ index ih =>
      rw [State.releaseMappings]
      split
      · exact ih s
      · split
        split
        · rw [ih]
        · rw [ih]

theorem releaseMemoryRegion_mirror (unmap : Nat → Bool) (s : State) :
    (s.ReleaseMemoryRegion unmap).m_rw_mirror = s.m_rw_mirror := by
  unfold State.ReleaseMemoryRegion
  dsimp only
  split
  · exact releaseMappings_mirror unmap _ s
  · exact releaseMappings_mirror unmap _ s

/-- Where nothing is left of the segment, nothing is left of the canonical mapping. -/
theorem Inv.releaseSHMSegment {s : State} (inv : Inv s) {results : State.ReleaseResults}
    (meets : ReleaseResults.Meets results s) : Inv (s.ReleaseSHMSegment results) := by
  have released := inv.releaseMemoryRegion results.unmap
  unfold State.ReleaseSHMSegment
  dsimp only
  split
  · rename_i empty
    apply released.releaseBacking empty
    rw [releaseMemoryRegion_mirror]
    exact meets
  · exact released

theorem Inv.mapCanonical {s : State} (inv : Inv s) {results : State.GrabResults}
    {backing aligned_size : Nat} (buffer : s.m_shm_buffer = some backing)
    (size : s.m_shm_size = aligned_size) (unmapped : s.m_rw_mirror = none)
    (meets : results.map = true → results.permission = false → results.unmap = true) :
    Inv (s.mapCanonical results backing aligned_size) := by
  have empty := inv.mappings_nil unmapped
  have aliases := inv.aliases_nil empty
  have canonical : s.kernel.canonical = [] := by
    rw [inv.canonical, unmapped]
    rfl
  have kernel : s.kernel = ⟨[], []⟩ := Kernel.ext aliases canonical
  have listed {mirror : Option Nat} :
      ([] : List Alias).Perm
        (s.m_fastmem_mappings.map { s with m_rw_mirror := mirror }.aliasOf) := by
    rw [empty]
    exact .refl _
  have holds {P : Mapping → Prop} : ∀ mapping ∈ s.m_fastmem_mappings, P mapping := by
    rw [empty]
    exact nofun
  unfold State.mapCanonical
  split
  · exact ⟨aliases ▸ listed, holds, canonical, nofun, inv.allocated, inv.region, inv.reserved⟩
  · rename_i mirror found
    rw [kernel]
    cases map : results.map with
    | false =>
        simp only [Kernel.svcMapProcessCodeMemory, Kernel.svcUnmapProcessCodeMemory,
          Bool.false_eq_true, false_and, if_false, List.not_mem_nil, and_false]
        exact ⟨listed, holds, rfl, nofun, inv.allocated, inv.region, inv.reserved⟩
    | true =>
        cases permission : results.permission with
        | false =>
            simp only [Kernel.svcMapProcessCodeMemory, Kernel.svcUnmapProcessCodeMemory,
              Bool.false_eq_true, and_false, if_false, if_true, meets map permission,
              List.mem_singleton, and_self, List.erase_cons_head]
            exact ⟨listed, holds, rfl, nofun, inv.allocated, inv.region, inv.reserved⟩
        | true =>
            simp only [Kernel.svcMapProcessCodeMemory, and_self, if_true]
            refine ⟨listed, holds, ?_, ?_, inv.allocated, inv.region, inv.reserved⟩
            · simp only [Option.toList_some, List.map_cons, List.map_nil, buffer,
                Option.getD_some, size]
            · exact fun _ => by simp [buffer]

/-- A state that holds no backing yet gets one. -/
theorem Inv.allocate {s : State} (inv : Inv s) (freed : s.m_shm_buffer = none)
    (unmapped : s.m_rw_mirror = none) (backing size : Nat) (m_fastmem_backing : Bool) :
    Inv { s with
      m_shm_buffer := some backing, m_shm_size := size, m_fastmem_backing := m_fastmem_backing
      allocated := backing :: s.allocated } := by
  have empty := inv.mappings_nil unmapped
  refine ⟨inv.listed, ?_, ?_, nofun, ?_, inv.region, inv.reserved⟩
  · intro mapping member
    exact absurd (empty ▸ member) List.not_mem_nil
  · rw [inv.canonical, unmapped]
    rfl
  · rw [inv.allocated, freed]
    rfl

theorem Inv.allocatePages {s : State} (inv : Inv s) (results : State.GrabResults) (size : Nat)
    (unmapped : s.m_rw_mirror = none) : Inv (s.allocatePages results size) := by
  unfold State.allocatePages
  split
  · exact inv
  · have empty := inv.mappings_nil unmapped
    refine ⟨inv.listed, ?_, ?_, inv.backed, inv.allocated, inv.region, inv.reserved⟩
    · intro mapping member
      exact absurd (empty ▸ member) List.not_mem_nil
    · rw [inv.canonical, unmapped]
      rfl
  · rename_i freed _
    exact inv.allocate freed unmapped _ _ _

theorem Inv.grabSHMSegment {s : State} (inv : Inv s) {release : State.ReleaseResults}
    {results : State.GrabResults} {size : Nat}
    (meets : Meets (.grabSHMSegment release results size) s) :
    Inv (s.GrabSHMSegment release results size) := by
  have released := inv.releaseSHMSegment meets.1
  unfold State.GrabSHMSegment
  dsimp only
  split
  · exact released
  · rename_i freed
    have freed : (s.ReleaseSHMSegment release).m_shm_buffer = none := by simpa using freed
    have unmapped : (s.ReleaseSHMSegment release).m_rw_mirror = none := by
      by_contra mapped
      exact released.backed mapped freed
    unfold State.allocateSegment
    split
    · split
      · exact released
      · exact released.allocatePages results size unmapped
      · exact (released.allocate freed unmapped _ _ _).mapCanonical rfl rfl unmapped meets.2
    · exact released.allocatePages results size unmapped

theorem Inv.reserveMemoryRegion {s : State} (inv : Inv s) {supported : Bool} {region : Option Nat}
    {added : Bool} {size : Nat}
    (meets : Meets (.reserveMemoryRegion supported region added size) s) :
    Inv (s.ReserveMemoryRegion supported region added size) := by
  unfold State.ReserveMemoryRegion
  split
  · exact inv
  · rename_i goes_on
    obtain ⟨mirror, supports⟩ := not_or.mp goes_on
    have holds {aligned_size : Nat} (aligns : AlignUp size HORIZON_ARENA_ALIGNMENT =
        some aligned_size) {P : Mapping → Prop} : ∀ mapping ∈ s.m_fastmem_mappings, P mapping := by
      obtain unmapped | unsupported | threw | empty := meets
      · exact absurd unmapped mirror
      · exact absurd (by simp [unsupported]) supports
      · simp [threw] at aligns
      · rw [empty]
        exact nofun
    split
    · exact inv
    · rename_i aligns
      exact ⟨inv.listed, holds aligns, inv.canonical, inv.backed, inv.allocated, rfl, nofun⟩
    · rename_i aligns
      have holds {P : Mapping → Prop} := @holds _ aligns P
      split
      · refine ⟨inv.listed, holds, inv.canonical, inv.backed, inv.allocated, rfl, ?_⟩
        rintro reservation ⟨⟩
        exact List.mem_cons_self
      · exact ⟨inv.listed, holds, inv.canonical, inv.backed, inv.allocated, rfl, nofun⟩

/-! ## Runs -/

theorem Inv.step {action : Action} {s s' : State} (inv : Inv s) (meets : Meets action s)
    (next : step action s = some s') : Inv s' := by
  cases action with
  | grabSHMSegment =>
      cases next
      exact inv.grabSHMSegment meets
  | reserveMemoryRegion =>
      cases next
      exact inv.reserveMemoryRegion meets
  | mapInMemoryRegion =>
      cases next
      exact inv.mapInMemoryRegion meets
  | changeMappingProtection =>
      cases next
      exact inv
  | unmapFromMemoryRegion view size unmap =>
      cases next
      exact inv.unmapFromMemoryRegion view size unmap
  | releaseMemoryRegion unmap =>
      cases next
      exact inv.releaseMemoryRegion unmap
  | releaseSHMSegment =>
      cases next
      exact inv.releaseSHMSegment meets

theorem ledger_sound {s : State} (run : Reaches step Meets init s) : Sound s :=
  (run.invariant (I := Inv) .init fun _ _ _ inv meets next => inv.step meets next).sound

/-- A segment with two mappings, one of which is unmapped, and which is then released. -/
theorem ledger_sound_twoMappings :
    ∃ s, Reaches step Meets init s ∧ s.m_fastmem_mappings = [⟨0x40001000, 0x1000, 0x2000⟩] ∧
      s.allocated = [0x10000000] ∧ Sound s := by
  have ends : (runActions (fun action s => if Meets action s then step action s else none)
      [.grabSHMSegment ⟨fun _ => true, true⟩
          ⟨true, some 0x10000000, some 0x20000000, true, true, true, none⟩ 0x300000,
        .reserveMemoryRegion true (some 0x40000000) true 0x300000,
        .mapInMemoryRegion 0 0x1000 0x40000000 true true ⟨true, true, true, true⟩,
        .mapInMemoryRegion 0x1000 0x2000 0x40001000 false true ⟨true, true, true, true⟩,
        .changeMappingProtection (some 0x40001000) 0x2000 true true true,
        .unmapFromMemoryRegion 0x40000000 0x1000 true,
        .releaseSHMSegment ⟨fun _ => false, true⟩] init).any fun s =>
      s.m_fastmem_mappings = [⟨0x40001000, 0x1000, 0x2000⟩] ∧ s.allocated = [0x10000000] := by
    decide +kernel
  obtain ⟨s, run, seen⟩ := (Option.any_eq_true ..).mp ends
  obtain ⟨mappings, allocated⟩ := of_decide_eq_true seen
  have reached := Reaches.of_checked run
  exact ⟨s, reached, mappings, allocated, ledger_sound reached⟩

/-- The canonical mapping cannot be unmapped, and the backing it maps is freed. -/
theorem backing_freed_while_mapped :
    ¬ ∀ s, Reaches step (fun _ _ => True) init s →
      ∀ canonical ∈ s.kernel.canonical, canonical.backing ∈ s.allocated := by
  intro safe
  have ends : (runActions step
      [.grabSHMSegment ⟨fun _ => true, true⟩
          ⟨true, some 0x10000000, some 0x20000000, true, true, true, none⟩ 0x300000,
        .releaseSHMSegment ⟨fun _ => true, false⟩] init).any fun s =>
      ¬ ∀ canonical ∈ s.kernel.canonical, canonical.backing ∈ s.allocated := by
    decide +kernel
  obtain ⟨s, run, freed⟩ := (Option.any_eq_true ..).mp ends
  exact of_decide_eq_true freed (safe s (.of_runActions run))

end Phocoena.MemArena
