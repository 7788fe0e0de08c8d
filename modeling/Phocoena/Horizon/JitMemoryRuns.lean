import Phocoena.Horizon.JitMemoryRegions

/-! # Runs of the registry of the executable memory

`live` is kept from what the calls return: an address that is returned is live until a call with it
says that it is released. The registry agrees with it in every run.
-/

namespace Phocoena.JitMemory

/-- What `jitCreate` is relied on for: an object that is accepted has the size that was asked for,
and its RX window is apart from those of the open regions. -/
def Fresh (s : State) (size : Nat) (results : JitResults) : Prop :=
  ∀ jit ∈ results.created, jit.Accepted → jit.size = size ∧
    ∀ other ∈ s.regions, other.Open → jit.Apart other.jit

instance (s : State) (size : Nat) (results : JitResults) : Decidable (Fresh s size results) :=
  inferInstanceAs (Decidable (∀ jit ∈ results.created, _ → _ ∧ _))

/-- What an allocation does: it keeps the invariant, and it makes live what it returns. -/
def Allocates (s : State) (size : Nat) (pooled : Bool) (result : Option Nat × State) : Prop :=
  Inv result.2 ∧ result.2.live.Perm
    ((result.1.map fun address => Live.mk address size pooled).toList ++ s.live)

theorem Allocates.after {s s' : State} {size : Nat} {pooled : Bool} {result : Option Nat × State}
    (allocates : Allocates s' size pooled result) (same : s'.live.Perm s.live) :
    Allocates s size pooled result :=
  ⟨allocates.1, allocates.2.trans (same.append_left _)⟩

theorem region_eq {s : State} {index : Nat} {region : Region}
    (at_index : s.regions[index]? = some region) : s.region index = region := by
  rw [State.region, List.getD_eq_getElem?_getD, at_index, Option.getD_some]

theorem region_setRegion {s : State} {index : Nat} (bound : index < s.regions.length)
    (region : Region) : (s.setRegion index region).region index = region :=
  region_eq (List.getElem?_set_self bound)

/-! ## Opening a region -/

theorem emplace_stats (s : State) : s.emplace.stats = s.stats := by
  rw [State.emplace]
  split <;> rfl

theorem Inv.emplace {s : State} (inv : Inv s) : Inv s.emplace ∧ s.emplace.live = s.live ∧
    s.emplace.regions[s.regions.findIdx fun region => ! region.used]? = some {} := by
  have entry : s.emplace.regions[s.regions.findIdx fun region => ! region.used]? = some {} := by
    obtain ⟨region, at_index, rfl | ⟨member, unused⟩⟩ :=
      getElem?_findIdx_room (fun region : Region => ! region.used) s.regions {}
    · rw [State.emplace, apply_ite State.regions]
      exact at_index
    · obtain rfl := (inv.regular.wf region member).unused (by simpa using unused)
      rw [State.emplace, apply_ite State.regions]
      exact at_index
  by_cases last : s.regions.findIdx (fun region => ! region.used) = s.regions.length
  · rw [State.emplace, if_pos last] at entry ⊢
    have live : State.live { s with regions := s.regions ++ [{}] } = s.live := by
      simp [State.live, Region.live, Region.Open]
    refine ⟨⟨⟨?_, ?_⟩, ?_, ?_, ?_⟩, live, entry⟩
    · intro region member
      obtain former | rfl := List.mem_append.mp member |>.imp_right List.mem_singleton.mp
      · exact inv.regular.wf region former
      · exact .empty
    · intro i j a b at_i at_j distinct a_open b_open
      have former {k : Nat} {region : Region} (isOpen : region.Open)
          (at_k : (s.regions ++ [⟨{}, false, false, false, 0, [], []⟩])[k]? = some region) :
          s.regions[k]? = some region := by
        rw [List.getElem?_append] at at_k
        split at at_k
        · exact at_k
        · have closed := List.mem_singleton.mp (List.mem_of_getElem? at_k)
          rw [closed] at isOpen
          cases isOpen.1
      exact inv.regular.apart i j a b (former a_open at_i) (former b_open at_j) distinct
        a_open b_open
    · rw [live]
      exact inv.active
    · rw [live]
      exact inv.pages
    · simpa [State.held] using inv.kernel
  · rw [State.emplace, if_neg last] at entry ⊢
    exact ⟨inv, rfl, entry⟩

theorem mem_emplace {s : State} {region : Region} (member : region ∈ s.emplace.regions)
    (isOpen : region.Open) : region ∈ s.regions := by
  rw [State.emplace] at member
  split at member
  · obtain former | rfl := List.mem_append.mp member |>.imp_right List.mem_singleton.mp
    · exact former
    · cases isOpen.1
  · exact member

/-- The region that an object is opened as. -/
def opened (jit : Jit) (pooled : Bool) : Region :=
  { jit, used := true, pooled
    pages := if pooled then List.replicate (jit.size / PAGE_SIZE) 0 else [] }

/-- What `OpenRegion` does to the regions and the counters, when it opens one. -/
structure Opens (s s' : State) (results : JitResults) (pooled : Bool) (index : Nat) (jit : Jit) :
    Prop where
  created : results.created = some jit
  accepted : jit.Accepted
  entry : s.emplace.regions[index]? = some {}
  regions : s'.regions = s.emplace.regions.set index (opened jit pooled)
  active : s'.stats.active = s.stats.active
  pages : s'.stats.pooled_pages_active = s.stats.pooled_pages_active
  kernel : s'.stats.kernel_regions_active = s.stats.kernel_regions_active + 1

/-- An object that could not be closed is held by a region that is not open. -/
theorem Inv.quarantine {s s' : State} (inv : Inv s) {index : Nat} {jit : Jit}
    (entry : s.regions[index]? = some {})
    (regions : s'.regions = s.regions.set index { jit, used := true, quarantined := true })
    (active : s'.stats.active = s.stats.active)
    (pages : s'.stats.pooled_pages_active = s.stats.pooled_pages_active)
    (kernel : s'.stats.kernel_regions_active = s.stats.kernel_regions_active + 1) :
    Inv s' ∧ s'.live.Perm s.live := by
  have closed : ¬ ({ jit, used := true, quarantined := true } : Region).Open := by
    simp [Region.Open]
  refine inv.change entry _ [] [] regions ?_ ?_ ?_ ?_ ?_ ?_
  · exact .of_plain rfl rfl rfl rfl rfl (absurd · closed)
  · exact (absurd · closed)
  · exact .refl _
  · exact active
  · rw [pages]
  · rw [kernel]
    rfl

/-- The entry that a rejected object leaves. -/
theorem rejected {s : State}
    (entry : s.emplace.regions[s.regions.findIdx fun region => ! region.used]? = some {}) :
    (if (s.regions.findIdx fun region => ! region.used) = s.regions.length then s
      else s.setRegion (s.regions.findIdx fun region => ! region.used) {}) = s := by
  split
  · rfl
  · rename_i inside
    rw [State.emplace, if_neg inside] at entry
    obtain ⟨bound, same⟩ := List.getElem?_eq_some_iff.mp entry
    rw [State.setRegion, ← same, List.set_getElem_self]

theorem Inv.openRegion {s : State} (inv : Inv s) (results : JitResults) (pooled : Bool) :
    match s.OpenRegion results pooled with
    | (none, s') => Inv s' ∧ s'.live.Perm s.live
    | (some index, s') => ∃ jit, Opens s s' results pooled index jit := by
  obtain ⟨emplaced, live, entry⟩ := inv.emplace
  rw [State.OpenRegion]
  split
  · rename_i s' eq
    split at eq
    · cases eq
      exact ⟨inv, .refl _⟩
    · split at eq
      · cases eq
        exact ⟨inv, .refl _⟩
      · rw [State.openWith, region_eq entry] at eq
        dsimp only at eq
        split at eq
        · cases eq
        · split at eq
          · cases eq
            rw [rejected entry]
            exact inv.congr rfl rfl rfl rfl
          · cases eq
            rw [← live]
            exact emplaced.quarantine entry rfl (by rw [emplace_stats]) (by rw [emplace_stats])
              (by rw [emplace_stats])
  · rename_i index s' eq
    split at eq
    · cases eq
    · split at eq
      · cases eq
      · rename_i jit created
        rw [State.openWith, region_eq entry] at eq
        dsimp only at eq
        split at eq
        · rename_i accepted
          cases eq
          exact ⟨jit, created, accepted, entry, rfl, rfl, rfl, rfl⟩
        · split at eq <;> cases eq

/-! ## Allocations -/

/-- A pool whose pages are free. -/
theorem opened_wf {jit : Jit} (accepted : jit.size = SMALL_JIT_POOL_SIZE) :
    (opened jit true).WF ∧ (opened jit true).live = [] := by
  have pool : (opened jit true).IsPool := ⟨rfl, rfl, rfl⟩
  refine ⟨⟨nofun, nofun, ?_, ?_, rfl, nofun, ?_⟩, Region.live_pool pool⟩
  · intro _
    simp only [opened, accepted, if_pos, List.length_replicate]
    rfl
  · intro _
    simp only [opened, accepted]
    decide
  · intro page owner at_page k
    have free : owner = 0 := List.eq_of_mem_replicate (List.mem_of_getElem? at_page)
    simp [free, opened]

theorem opened_dedicated_wf {jit : Jit} (positive : 0 < jit.size) : (opened jit false).WF :=
  .of_plain rfl rfl rfl rfl rfl fun _ => positive

/-- An opened region has its window apart from those of the others. -/
theorem Opens.apart {s s' : State} {results : JitResults} {pooled : Bool} {index size : Nat}
    {jit : Jit} (opens : Opens s s' results pooled index jit) (fresh : Fresh s size results)
    (j : Nat) (other : Region) (at_j : s.emplace.regions[j]? = some other)
    (other_open : other.Open) : (opened jit pooled).jit.Apart other.jit :=
  (fresh jit opens.created opens.accepted).2 other
    (mem_emplace (List.mem_of_getElem? at_j) other_open) other_open

theorem Inv.opensPool {s s' : State} (inv : Inv s) {results : JitResults} {index : Nat} {jit : Jit}
    (opens : Opens s s' results true index jit) (fresh : Fresh s SMALL_JIT_POOL_SIZE results) :
    Inv s' ∧ s'.live.Perm s.live ∧ s'.regions[index]? = some (opened jit true) := by
  obtain ⟨emplaced, live, _⟩ := inv.emplace
  obtain ⟨wf, none⟩ := opened_wf (fresh jit opens.created opens.accepted).1
  have stats := emplace_stats s
  obtain ⟨inv', perm⟩ := emplaced.change opens.entry _ [] [] opens.regions wf
    (fun _ j other _ => opens.apart fresh j other) (by rw [none]; rfl)
    (by rw [stats, opens.active]) (by rw [stats, opens.pages]) (by rw [stats, opens.kernel]; rfl)
  refine ⟨inv', live ▸ perm, ?_⟩
  rw [opens.regions, List.getElem?_set_self (List.getElem?_eq_some_iff.mp opens.entry).1]

/-- The two ways that `AddPoolAllocation` goes: a slot takes the pages, or there are too many. -/
theorem Inv.suballocate {s : State} (inv : Inv s) {index first_page count : Nat} {region : Region}
    (at_index : s.regions[index]? = some region) (pool : region.IsPool) (positive : 0 < count)
    (fits : first_page + count ≤ region.pages.length)
    (free : ∀ page, first_page ≤ page → page < first_page + count → region.pages[page]? = some 0) :
    Allocates s (count * PAGE_SIZE) true (s.suballocate index first_page (count * PAGE_SIZE)) := by
  have bound := (List.getElem?_eq_some_iff.mp at_index).1
  have wf := inv.regular.wf region (List.mem_of_getElem? at_index)
  have isOpen : region.Open := ⟨pool.1, pool.2.2⟩
  obtain ⟨room_wf, room_live, former, at_slot, unused⟩ := wf.room pool
  have first_eq : first_page * PAGE_SIZE / PAGE_SIZE = first_page :=
    Nat.mul_div_cancel _ (by decide)
  have count_eq : count * PAGE_SIZE / PAGE_SIZE = count := Nat.mul_div_cancel _ (by decide)
  rw [State.suballocate, State.AddPoolAllocation, region_eq at_index, first_eq, count_eq]
  by_cases many : 2 ^ 16 - 1 ≤ region.allocations.findIdx fun allocation => ! allocation.used
  · rw [if_pos many]
    exact inv.change at_index _ [] [] rfl room_wf
      (fun _ j other => inv.regular.stays at_index isOpen j other) (.of_eq room_live) rfl rfl rfl
  · rw [if_neg many]
    obtain ⟨fill_wf, fill_live⟩ := room_wf.fill pool at_slot unused positive fits free
    rw [room_live] at fill_live
    have at_index' (region' : Region) :
        ((s.setRegion index region').RecordAllocation true count).region index = region' :=
      region_setRegion bound region'
    dsimp only
    rw [at_index']
    refine inv.change at_index _ [] [_] rfl fill_wf
      (fun _ j other => inv.regular.stays at_index isOpen j other) fill_live rfl ?_ rfl
    change s.stats.pooled_pages_active + count + 0 = s.stats.pooled_pages_active + _
    simp [pooledPages, count_eq]

theorem AlignSize_spec {size aligned_size : Nat} (aligns : AlignSize size = some aligned_size) :
    ∃ count, 0 < count ∧ aligned_size = count * PAGE_SIZE ∧ size ≤ aligned_size := by
  rw [AlignSize] at aligns
  split at aligns
  · cases aligns
  · cases aligns
    refine ⟨_, ?_, rfl, ?_⟩
    all_goals
      unfold PAGE_SIZE
      omega

/-- The size that `jitCreate` is asked for. -/
def State.requested (s : State) (aligned_size : Nat) : Nat :=
  if s.Pools aligned_size then SMALL_JIT_POOL_SIZE else aligned_size

theorem Inv.allocatePooled {s : State} (inv : Inv s) {results : JitResults} {count : Nat}
    (positive : 0 < count) (small : count * PAGE_SIZE ≤ SMALL_JIT_MAX_ALLOCATION)
    (fresh : Fresh s SMALL_JIT_POOL_SIZE results) :
    Allocates s (count * PAGE_SIZE) true (s.allocatePooled results (count * PAGE_SIZE)) := by
  rw [State.allocatePooled]
  rw [Nat.mul_div_cancel _ (by decide)]
  split
  · rename_i index found
    obtain ⟨bound, meets, _⟩ := List.findIdx?_eq_some_iff_getElem.mp found
    have at_index := List.getElem?_eq_getElem bound
    obtain ⟨pool, finds⟩ := of_decide_eq_true meets
    obtain ⟨fits, free⟩ := Region.FindFreePages_spec positive finds
    rw [region_eq at_index]
    exact inv.suballocate at_index pool positive fits free
  · split
    · exact ⟨inv, .refl _⟩
    · have opening := inv.openRegion results true
      split <;> rename_i eq <;> rw [eq] at opening
      · exact opening
      · obtain ⟨jit, opens⟩ := opening
        obtain ⟨inv', live, at_index⟩ := inv.opensPool opens fresh
        have sized := (fresh jit opens.created opens.accepted).1
        have pages : (opened jit true).pages =
            List.replicate (SMALL_JIT_POOL_SIZE / PAGE_SIZE) 0 := by
          rw [← sized]
          rfl
        have fits : count ≤ SMALL_JIT_POOL_SIZE / PAGE_SIZE := by
          simp only [PAGE_SIZE, SMALL_JIT_MAX_ALLOCATION, SMALL_JIT_POOL_SIZE] at small ⊢
          omega
        refine Allocates.after (inv'.suballocate at_index ⟨rfl, rfl, rfl⟩ positive ?_ ?_) live
        · rw [pages, List.length_replicate]
          omega
        · intro page _ high
          rw [pages, List.getElem?_replicate, if_pos (by omega)]

theorem Inv.allocateDedicated {s : State} (inv : Inv s) {results : JitResults} {size : Nat}
    (positive : 0 < size) (fresh : Fresh s size results) :
    Allocates s size false (s.allocateDedicated results) := by
  have opening := inv.openRegion results false
  rw [State.allocateDedicated]
  split <;> rename_i eq <;> rw [eq] at opening
  · exact opening
  · rename_i index s'
    obtain ⟨jit, opens⟩ := opening
    have sized := (fresh jit opens.created opens.accepted).1
    obtain ⟨emplaced, live, _⟩ := inv.emplace
    have stats := emplace_stats s
    have at_index : s'.regions[index]? = some (opened jit false) := by
      rw [opens.regions, List.getElem?_set_self (List.getElem?_eq_some_iff.mp opens.entry).1]
    rw [region_eq at_index]
    have done := @Inv.change _ (s'.RecordAllocation false 0) emplaced _ _ opens.entry
      (opened jit false) [] [⟨jit.rx_addr, jit.size, false⟩] opens.regions
      (opened_dedicated_wf (sized ▸ positive)) (fun _ j other _ => opens.apart fresh j other)
      ?_ ?_ ?_ ?_
    · rw [live, sized] at done
      exact done
    · rw [Region.live_dedicated ⟨rfl, rfl⟩ rfl]
      rfl
    · rw [stats, ← opens.active]
      rfl
    · rw [stats, ← opens.pages]
      rfl
    · rw [stats]
      exact opens.kernel

theorem Inv.failure {s : State} (inv : Inv s) : Inv s.failure :=
  (@Inv.congr s s.failure inv rfl rfl rfl rfl).1

/-- The allocation of `AllocateJitMemory`, with what it makes live. -/
theorem Inv.allocate {s : State} (inv : Inv s) {results : JitResults} {size : Nat}
    (fresh : ∀ aligned_size ∈ AlignSize size, Fresh s (s.requested aligned_size) results) :
    Allocates s ((AlignSize size).getD 0) (s.Pools ((AlignSize size).getD 0))
      (s.AllocateJitMemory results size) := by
  rw [State.AllocateJitMemory]
  split
  · exact ⟨inv.failure, .refl _⟩
  · rename_i aligned_size aligns
    have fresh := fresh aligned_size aligns
    obtain ⟨count, positive, rfl, _⟩ := AlignSize_spec aligns
    rw [aligns, Option.getD_some]
    split
    · exact ⟨inv.failure, .refl _⟩
    · rw [State.requested] at fresh
      have allocates : Allocates s (count * PAGE_SIZE) (s.Pools (count * PAGE_SIZE))
          (if s.Pools (count * PAGE_SIZE) then s.allocatePooled results (count * PAGE_SIZE)
            else s.allocateDedicated results) := by
        by_cases pools : s.Pools (count * PAGE_SIZE)
        · rw [if_pos pools] at fresh ⊢
          rw [decide_eq_true pools]
          exact inv.allocatePooled positive pools.2 fresh
        · rw [if_neg pools] at fresh ⊢
          rw [decide_eq_false pools]
          exact inv.allocateDedicated (Nat.mul_pos positive (by decide)) fresh
      split <;> rename_i eq <;> rw [eq] at allocates
      · exact ⟨allocates.1.failure, allocates.2⟩
      · exact allocates

/-! ## Releases -/

/-- What a call of `FreeJitMemory` does: it releases the allocation at the address, or nothing. -/
def Frees (s : State) (rx : Nat) : JitFreeResult × State → Prop
  | (.released, s') => Inv s' ∧ ∃ a : Live, a.address = rx ∧ s.live.Perm (a :: s'.live)
  | (.failed, s') => s' = s
  | (.notJit, s') => s' = s

theorem Frees.of_change {s s' : State} {a : Live}
    (change : Inv s' ∧ ([a] ++ s'.live).Perm ([] ++ s.live)) :
    Frees s a.address (.released, s') := ⟨change.1, a, rfl, change.2.symm⟩

/-- The counters of what is live. -/
theorem Inv.counts {s : State} (inv : Inv s) {a : Live} (alive : a ∈ s.live) :
    1 ≤ s.stats.active ∧ pooledPages [a] ≤ s.stats.pooled_pages_active := by
  have perm := List.perm_cons_erase alive
  have length := perm.length_eq
  have pages := pooledPages_perm perm
  rw [← List.singleton_append, pooledPages_append, ← inv.pages] at pages
  rw [← inv.active, List.length_cons] at length
  omega

theorem mem_live {s : State} {index : Nat} {region : Region}
    (at_index : s.regions[index]? = some region) {a : Live} (alive : a ∈ region.live) :
    a ∈ s.live := List.mem_flatMap.mpr ⟨region, List.mem_of_getElem? at_index, alive⟩

/-- The last allocation of a region is released with it. -/
theorem Inv.close {s : State} (inv : Inv s) {index : Nat} {region : Region} {a : Live}
    (at_index : s.regions[index]? = some region) (isOpen : region.Open) (last : region.live = [a])
    {pages : Nat} (counted : pooledPages [a] = pages) (closes : Bool) :
    Frees s a.address (match s.CloseRegion closes index with
      | (false, s) => (.failed, s)
      | (true, s) => (.released, s.release pages)) := by
  rw [State.CloseRegion]
  cases closes with
  | false => exact rfl
  | true =>
      obtain ⟨active, pooled⟩ := inv.counts (mem_live at_index (last ▸ List.mem_singleton_self a))
      have kernel : 1 ≤ s.stats.kernel_regions_active := by
        rw [inv.kernel]
        exact List.countP_pos_iff.mpr ⟨region, List.mem_of_getElem? at_index, isOpen.1⟩
      have done := @Inv.change s ((s.CloseRegion true index).2.release pages) inv _ _ at_index {}
        [a] [] rfl .empty nofun (by rw [last]; rfl) (Nat.sub_add_cancel active)
        (by rw [counted]; exact Nat.sub_add_cancel (counted ▸ pooled))
        (by rw [isOpen.1]; exact Nat.sub_add_cancel kernel)
      exact .of_change done

theorem Inv.freePooled {s : State} (inv : Inv s) {index : Nat} {region : Region}
    (at_index : s.regions[index]? = some region) (pool : region.IsPool) (closes : Bool)
    (rx aligned_size : Nat) : Frees s rx (s.freePooled closes rx aligned_size index) := by
  have wf := inv.regular.wf region (List.mem_of_getElem? at_index)
  have isOpen : region.Open := ⟨pool.1, pool.2.2⟩
  rw [State.freePooled, region_eq at_index]
  split
  · exact rfl
  · rename_i slot found
    obtain ⟨allocation, at_slot, used, eq⟩ := Region.FindPoolAllocation_spec found
    dsimp only
    rw [eq]
    split
    · exact rfl
    · rename_i exactly
      obtain ⟨rfl, rfl⟩ : rx = region.jit.rx_addr + allocation.offset ∧
        aligned_size = allocation.size := by simpa using exactly
      have counted (address : Nat) : pooledPages [⟨address, allocation.size, true⟩] =
        allocation.size / PAGE_SIZE := by simp [pooledPages]
      split
      · rename_i last
        exact inv.close at_index isOpen (wf.live_of_last pool at_slot used last) (counted _) closes
      · obtain ⟨cleared, perm⟩ := wf.clear pool at_slot used
        obtain ⟨active, pooled⟩ := inv.counts (mem_live at_index
          (perm.mem_iff.mpr List.mem_cons_self))
        rw [counted] at pooled
        exact @Frees.of_change s _ ⟨_, allocation.size, true⟩ (inv.change at_index _ _ [] rfl
          cleared (fun _ j other => inv.regular.stays at_index isOpen j other) perm.symm
          (Nat.sub_add_cancel active) (by rw [counted]; exact Nat.sub_add_cancel pooled) rfl)

theorem Inv.freeDedicated {s : State} (inv : Inv s) {index : Nat} {region : Region}
    (at_index : s.regions[index]? = some region) (isOpen : region.Open)
    (dedicated : region.pooled = false) (closes : Bool) (rx aligned_size : Nat) :
    Frees s rx (s.freeDedicated closes rx aligned_size index) := by
  rw [State.freeDedicated, region_eq at_index]
  split
  · exact rfl
  · rename_i exactly
    obtain ⟨rfl, _⟩ : rx = region.jit.rx_addr ∧ aligned_size = region.jit.size := by
      simpa using exactly
    exact inv.close at_index isOpen (Region.live_dedicated isOpen dedicated) rfl closes

theorem Inv.free {s : State} (inv : Inv s) (closes : Bool) (rx size : Nat) :
    Frees s rx (s.FreeJitMemory closes rx size) := by
  rw [State.FreeJitMemory]
  split
  · exact rfl
  · rename_i index found
    obtain ⟨bound, meets, _⟩ := List.findIdx?_eq_some_iff_getElem.mp found
    obtain ⟨used, quarantined, _⟩ := of_decide_eq_true meets
    have at_index := List.getElem?_eq_getElem bound
    split
    · exact rfl
    · rw [region_eq at_index]
      split
      · rename_i pooled
        exact inv.freePooled at_index ⟨used, pooled, quarantined⟩ closes rx _
      · rename_i dedicated
        exact inv.freeDedicated at_index ⟨used, quarantined⟩ (by simpa using dedicated) closes rx _

/-! ## Runs -/

/-- The registry with the allocations that are not released, by what the calls returned. -/
structure Ledger where
  memory : State
  live : List Live

inductive Action where
  | allocateJitMemory (results : JitResults) (size : Nat)
  | freeJitMemory (closes : Bool) (rx size : Nat)
  | setSmallJitPoolingEnabled (enabled : Bool)

def step (action : Action) (l : Ledger) : Option Ledger :=
  match action with
  | .allocateJitMemory results size =>
      match l.memory.AllocateJitMemory results size with
      | (none, memory) => some { l with memory }
      | (some address, memory) =>
          let aligned_size := (AlignSize size).getD 0
          some ⟨memory, ⟨address, aligned_size, l.memory.Pools aligned_size⟩ :: l.live⟩
  | .freeJitMemory closes rx size =>
      match l.memory.FreeJitMemory closes rx size with
      | (.released, memory) => some ⟨memory, l.live.filter fun a => a.address ≠ rx⟩
      | (_, memory) => some { l with memory }
  | .setSmallJitPoolingEnabled enabled =>
      some { l with memory := l.memory.SetSmallJitPoolingEnabled enabled }

/-- What `jitCreate` would make is fresh. -/
def Meets (action : Action) (l : Ledger) : Prop :=
  match action with
  | .allocateJitMemory results size =>
      ∀ aligned_size ∈ AlignSize size, Fresh l.memory (l.memory.requested aligned_size) results
  | .freeJitMemory .. | .setSmallJitPoolingEnabled _ => True

instance (action : Action) (l : Ledger) : Decidable (Meets action l) :=
  match action with
  | .allocateJitMemory .. => inferInstanceAs (Decidable (∀ aligned_size ∈ AlignSize _, _))
  | .freeJitMemory .. | .setSmallJitPoolingEnabled _ => inferInstanceAs (Decidable True)

/-- The call throws, or it returns `Failed` or `NotJit`. -/
def Action.Fails (action : Action) (s : State) : Prop :=
  match action with
  | .allocateJitMemory results size => (s.AllocateJitMemory results size).1 = none
  | .freeJitMemory closes rx size => (s.FreeJitMemory closes rx size).1 ≠ .released
  | .setSmallJitPoolingEnabled _ => False

/-- What holds after every call. -/
structure Sound (l : Ledger) : Prop where
  registered : l.live.Perm l.memory.live
  apart : l.live.Pairwise Live.Apart
  owned : ∀ region ∈ l.memory.regions, region.Owned
  /-- a page that no slot in use covers is free -/
  free : ∀ region ∈ l.memory.regions, ∀ page owner, region.pages[page]? = some owner →
    (owner = 0 ↔ ∀ allocation ∈ region.allocations, allocation.used = true →
      ¬ allocation.Covers page)
  sized : ∀ region ∈ l.memory.regions, region.IsPool →
    region.jit.size = region.pages.length * PAGE_SIZE
  active_allocations : ∀ region ∈ l.memory.regions,
    region.active_allocations = region.allocations.countP (·.used)
  active : l.memory.stats.active = l.live.length
  pooled_pages_active : l.memory.stats.pooled_pages_active = pooledPages l.live
  kernel_regions_active :
    l.memory.stats.kernel_regions_active = l.memory.regions.countP (·.used)

theorem Region.Owned.free {region : Region} (owned : region.Owned) {page owner : Nat}
    (at_page : region.pages[page]? = some owner) :
    owner = 0 ↔ ∀ allocation ∈ region.allocations, allocation.used = true →
      ¬ allocation.Covers page := by
  constructor
  · intro none allocation member used covers
    obtain ⟨k, at_k⟩ := List.mem_iff_getElem?.mp member
    have mine := (owned page owner at_page k).mpr ⟨allocation, at_k, used, covers⟩
    omega
  · intro none
    by_contra taken
    obtain ⟨allocation, at_k, used, covers⟩ := (owned page owner at_page (owner - 1)).mp (by omega)
    exact none allocation (List.mem_of_getElem? at_k) used covers

/-- The registry keeps its invariant, and it stands for what the ledger lists. -/
def Agrees (l : Ledger) : Prop := Inv l.memory ∧ l.live.Perm l.memory.live

theorem Agrees.sound {l : Ledger} (agrees : Agrees l) : Sound l := by
  obtain ⟨inv, registered⟩ := agrees
  have wf := inv.regular.wf
  refine ⟨registered, ?_, fun region member => (wf region member).owned,
    fun region member _ _ at_page => (wf region member).owned.free at_page,
    fun region member => (wf region member).sized,
    fun region member => (wf region member).counted, ?_, ?_, inv.kernel⟩
  · exact inv.regular.live_apart.perm registered.symm Or.symm
  · rw [inv.active, registered.length_eq]
  · rw [inv.pages, pooledPages_perm registered]

/-- What is live at other addresses is all that a release leaves. -/
theorem filter_released {live rest : List Live} {a : Live} (perm : live.Perm (a :: rest))
    (apart : live.Pairwise Live.Apart) (positive : ∀ b ∈ live, 0 < b.size) :
    (live.filter fun b => b.address ≠ a.address).Perm rest := by
  have apart := apart.perm perm Or.symm
  have kept : rest.filter (fun b => b.address ≠ a.address) = rest := by
    rw [List.filter_eq_self]
    intro b member
    have between := (List.pairwise_cons.mp apart).1 b member
    have a_positive := positive a (perm.mem_iff.mpr List.mem_cons_self)
    have b_positive := positive b (perm.mem_iff.mpr (List.mem_cons_of_mem a member))
    rw [Live.Apart] at between
    exact decide_eq_true (by omega)
  have filtered := perm.filter fun b => b.address ≠ a.address
  rw [List.filter_cons_of_neg (by simp), kept] at filtered
  exact filtered

theorem Agrees.step {action : Action} {l l' : Ledger} (agrees : Agrees l) (meets : Meets action l)
    (next : step action l = some l') : Agrees l' := by
  obtain ⟨inv, registered⟩ := agrees
  cases action with
  | allocateJitMemory results size =>
      have allocates := inv.allocate meets
      rw [JitMemory.step] at next
      dsimp only at next
      split at next <;> rename_i eq <;> rw [eq] at allocates <;> cases next
      · exact ⟨allocates.1, registered.trans allocates.2.symm⟩
      · exact ⟨allocates.1, (registered.cons _).trans allocates.2.symm⟩
  | freeJitMemory closes rx size =>
      have frees := inv.free closes rx size
      rw [JitMemory.step] at next
      split at next
      · rename_i eq
        rw [eq] at frees
        cases next
        obtain ⟨inv', a, rfl, perm⟩ := frees
        have apart := inv.regular.live_apart.perm registered.symm Or.symm
        exact ⟨inv', filter_released (registered.trans perm) apart fun b member =>
          inv.regular.live_positive (registered.mem_iff.mp member)⟩
      · rename_i result memory kept eq
        cases next
        have same : memory = l.memory := by
          rw [eq] at frees
          cases result with
          | released => exact (kept rfl).elim
          | failed => exact frees
          | notJit => exact frees
        rw [same]
        exact ⟨inv, registered⟩
  | setSmallJitPoolingEnabled enabled =>
      cases next
      rw [State.SetSmallJitPoolingEnabled]
      split
      · exact ⟨inv, registered⟩
      · obtain ⟨inv', perm⟩ := @Inv.congr l.memory
          { l.memory with small_pooling_enabled := enabled } inv rfl rfl rfl rfl
        exact ⟨inv', registered.trans perm.symm⟩

/-- A call that fails changes nothing that is live. -/
theorem fails_live {action : Action} {l l' : Ledger} (next : step action l = some l')
    (fails : action.Fails l.memory) : l'.live = l.live := by
  cases action with
  | allocateJitMemory results size =>
      rw [step] at next
      dsimp only at next
      split at next
      · cases next
        rfl
      · rename_i eq
        rw [Action.Fails, eq] at fails
        cases fails
  | freeJitMemory closes rx size =>
      rw [step] at next
      split at next
      · rename_i eq
        rw [Action.Fails, eq] at fails
        exact absurd rfl fails
      · cases next
        rfl
  | setSmallJitPoolingEnabled enabled => cases fails

def start : Ledger := ⟨init, []⟩

theorem agrees_of_run {l : Ledger} (run : Reaches step Meets start l) : Agrees l :=
  run.invariant ⟨.init, .refl _⟩ fun _ _ _ agrees meets next => agrees.step meets next

theorem registry_sound {l : Ledger} (run : Reaches step Meets start l) :
    Sound l ∧ ∀ action l', Meets action l → step action l = some l' → action.Fails l.memory →
      l'.live = l.live ∧ l'.memory.live.Perm l.memory.live := by
  have agrees := agrees_of_run run
  refine ⟨agrees.sound, ?_⟩
  intro action l' meets next fails
  have same := fails_live next fails
  obtain ⟨_, registered⟩ := agrees.step meets next
  refine ⟨same, registered.symm.trans ?_⟩
  rw [same]
  exact agrees.2

/-- An allocation from a pool and a dedicated one, after a kernel object that is rejected. -/
theorem registry_sound_pool : ∃ l, Reaches step Meets start l ∧
    l.live = [⟨0x20000000, 0x20000, false⟩, ⟨0x10000000, 0x2000, true⟩] ∧ Sound l := by
  have ends : (runActions (fun action l => if Meets action l then step action l else none)
      [.allocateJitMemory ⟨none, true⟩ 0x1000,
        .allocateJitMemory ⟨some ⟨.codeMemory, 0x400000, 0x10000000, 0x30000000⟩, true⟩ 0x1800,
        .allocateJitMemory ⟨some ⟨.setProcessMemoryPermission, 0x20000, 0x60000000, 0⟩, false⟩
          0x20000,
        .allocateJitMemory ⟨some ⟨.codeMemory, 0x30000, 0x70000000, 0x80000000⟩, true⟩ 0x30000,
        .allocateJitMemory ⟨some ⟨.codeMemory, 0x20000, 0x20000000, 0x50000000⟩, true⟩ 0x20000,
        .freeJitMemory true 0x10000000 0x1000,
        .freeJitMemory true 0x70000000 0x30000] start).any fun l =>
      l.live = [⟨0x20000000, 0x20000, false⟩, ⟨0x10000000, 0x2000, true⟩] := by
    decide +kernel
  obtain ⟨l, run, live⟩ := (Option.any_eq_true ..).mp ends
  have reached := Reaches.of_checked run
  exact ⟨l, reached, of_decide_eq_true live, (registry_sound reached).1⟩

end Phocoena.JitMemory
