import Phocoena.Horizon.JitMemory
import Phocoena.Lib.Update
import Mathlib.Algebra.BigOperators.Group.List.Basic

/-! # The regions of the executable memory

A region stands for the allocations that are live in it: a dedicated region for one, a pool for its
slots in use. The owners of the pages tell the slots apart.
-/

namespace Phocoena.JitMemory

/-- An allocation that is not released, with its bytes in whole pages. -/
structure Live where
  address : Nat
  size : Nat
  pooled : Bool
  deriving DecidableEq

def Live.Apart (a b : Live) : Prop :=
  a.address + a.size ≤ b.address ∨ b.address + b.size ≤ a.address

/-- The RX windows have no byte in common. -/
def Jit.Apart (a b : Jit) : Prop := a.rx_addr + a.size ≤ b.rx_addr ∨ b.rx_addr + b.size ≤ a.rx_addr

instance (a b : Jit) : Decidable (a.Apart b) := inferInstanceAs (Decidable (_ ∨ _))

namespace Allocation

def Covers (allocation : Allocation) (page : Nat) : Prop :=
  allocation.offset ≤ page * PAGE_SIZE ∧ page * PAGE_SIZE < allocation.offset + allocation.size

def live (rx_addr : Nat) (allocation : Allocation) : List Live :=
  if allocation.used then [⟨rx_addr + allocation.offset, allocation.size, true⟩] else []

end Allocation

namespace Region

/-- A region that is neither free nor quarantined. -/
def Open (region : Region) : Prop := region.used = true ∧ region.quarantined = false

instance (region : Region) : Decidable region.Open := inferInstanceAs (Decidable (_ ∧ _))

/-- The allocations that the region stands for. -/
def live (region : Region) : List Live :=
  if region.Open then
    if region.pooled then region.allocations.flatMap (·.live region.jit.rx_addr)
    else [⟨region.jit.rx_addr, region.jit.size, false⟩]
  else []

/-- The owner of a page is the allocation that covers it, by its index and one. -/
def Owned (region : Region) : Prop :=
  ∀ page owner, region.pages[page]? = some owner → ∀ k, owner = k + 1 ↔
    ∃ allocation : Allocation, region.allocations[k]? = some allocation ∧ allocation.used = true ∧
      allocation.Covers page

/-- A slot in use is a run of pages. -/
def Aligned (region : Region) (allocation : Allocation) : Prop :=
  ∃ first count, allocation.offset = first * PAGE_SIZE ∧ allocation.size = count * PAGE_SIZE ∧
    0 < count ∧ first + count ≤ region.pages.length

structure WF (region : Region) : Prop where
  unused : region.used = false → region = {}
  plain : region.pooled = false → region.pages = [] ∧ region.allocations = []
  sized : region.IsPool → region.jit.size = region.pages.length * PAGE_SIZE
  positive : region.Open → 0 < region.jit.size
  counted : region.active_allocations = region.allocations.countP (·.used)
  aligned : ∀ allocation ∈ region.allocations, allocation.used = true → region.Aligned allocation
  owned : region.Owned

theorem WF.empty : WF {} where
  unused := fun _ => rfl
  plain := fun _ => ⟨rfl, rfl⟩
  sized := nofun
  positive := nofun
  counted := rfl
  aligned := nofun
  owned := nofun

/-- A region that has no slots. -/
theorem WF.of_plain {region : Region} (used : region.used = true) (pages : region.pages = [])
    (allocations : region.allocations = []) (active : region.active_allocations = 0)
    (dedicated : region.pooled = false) (positive : region.Open → 0 < region.jit.size) :
    region.WF where
  unused := fun free => absurd free (by simp [used])
  plain := fun _ => ⟨pages, allocations⟩
  sized := fun pool => absurd pool.2.1 (by simp [dedicated])
  positive := positive
  counted := by simp [active, allocations]
  aligned := by simp [allocations]
  owned := by simp [Owned, pages]

variable {region : Region}

theorem WF.live_nil (closed : ¬ region.Open) : region.live = [] := if_neg closed

theorem live_pool (pool : region.IsPool) :
    region.live = region.allocations.flatMap (·.live region.jit.rx_addr) := by
  obtain ⟨used, pooled, quarantined⟩ := pool
  have isOpen : region.Open := ⟨used, quarantined⟩
  rw [live, if_pos isOpen, if_pos pooled]

theorem live_dedicated (isOpen : region.Open) (dedicated : region.pooled = false) :
    region.live = [⟨region.jit.rx_addr, region.jit.size, false⟩] := by
  rw [live, if_pos isOpen, if_neg (by simp [dedicated])]

theorem mem_live_pool (pool : region.IsPool) {a : Live} : a ∈ region.live ↔
    ∃ allocation ∈ region.allocations, allocation.used = true ∧
      a = ⟨region.jit.rx_addr + allocation.offset, allocation.size, true⟩ := by
  rw [live_pool pool, List.mem_flatMap]
  constructor
  · rintro ⟨allocation, member, alive⟩
    rw [Allocation.live] at alive
    split at alive
    · rename_i used
      exact ⟨allocation, member, used, List.mem_singleton.mp alive⟩
    · cases alive
  · rintro ⟨allocation, member, used, rfl⟩
    refine ⟨allocation, member, ?_⟩
    rw [Allocation.live, if_pos used]
    exact List.mem_singleton_self _

/-- What is live lies in the window. -/
theorem WF.live_inside (wf : region.WF) {a : Live} (alive : a ∈ region.live) :
    region.Open ∧ 0 < a.size ∧ region.jit.rx_addr ≤ a.address ∧
      a.address + a.size ≤ region.jit.rx_addr + region.jit.size := by
  have isOpen : region.Open := by
    by_contra closed
    rw [WF.live_nil closed] at alive
    cases alive
  refine ⟨isOpen, ?_⟩
  cases kind : region.pooled with
  | false =>
      rw [live_dedicated isOpen kind, List.mem_singleton] at alive
      subst alive
      exact ⟨wf.positive isOpen, Nat.le_refl _, Nat.le_refl _⟩
  | true =>
      have pool : region.IsPool := ⟨isOpen.1, kind, isOpen.2⟩
      obtain ⟨allocation, member, used, rfl⟩ := (mem_live_pool pool).mp alive
      obtain ⟨first, count, offset, size, positive, fits⟩ := wf.aligned allocation member used
      have sized := wf.sized pool
      dsimp only
      rw [offset, size, sized]
      unfold PAGE_SIZE
      omega

/-- Two slots with a byte in common have a page in common, and the page has one owner. -/
theorem WF.slots_apart (wf : region.WF) {i j : Nat} {a b : Allocation}
    (at_i : region.allocations[i]? = some a) (at_j : region.allocations[j]? = some b)
    (a_used : a.used = true) (b_used : b.used = true) (distinct : i ≠ j) :
    a.offset + a.size ≤ b.offset ∨ b.offset + b.size ≤ a.offset := by
  by_contra overlap
  obtain ⟨first, count, offset, size, positive, fits⟩ :=
    wf.aligned a (List.mem_of_getElem? at_i) a_used
  obtain ⟨first', count', offset', size', positive', fits'⟩ :=
    wf.aligned b (List.mem_of_getElem? at_j) b_used
  have bound : max first first' < region.pages.length := by omega
  have owner := wf.owned _ _ (List.getElem?_eq_getElem bound)
  rw [offset, size, offset', size'] at overlap
  unfold PAGE_SIZE at overlap
  have owner_i := (owner i).mpr ⟨a, at_i, a_used, by
    rw [Allocation.Covers, offset, size, PAGE_SIZE]
    omega⟩
  have owner_j := (owner j).mpr ⟨b, at_j, b_used, by
    rw [Allocation.Covers, offset', size', PAGE_SIZE]
    omega⟩
  omega

theorem WF.live_apart (wf : region.WF) : region.live.Pairwise Live.Apart := by
  by_cases isOpen : region.Open
  · cases kind : region.pooled with
    | false =>
        rw [live_dedicated isOpen kind]
        exact List.pairwise_singleton ..
    | true =>
        rw [live_pool ⟨isOpen.1, kind, isOpen.2⟩, List.pairwise_flatMap]
        refine ⟨?_, ?_⟩
        · intro allocation _
          rw [Allocation.live]
          split
          · exact List.pairwise_singleton ..
          · exact .nil
        · rw [List.pairwise_iff_getElem]
          intro i j i_lt j_lt lt a alive b alive'
          have at_i := List.getElem?_eq_getElem i_lt
          have at_j := List.getElem?_eq_getElem j_lt
          rw [Allocation.live] at alive alive'
          split at alive
          · split at alive'
            · rename_i used used'
              have apart := wf.slots_apart at_i at_j used used' (by omega)
              rw [List.mem_singleton] at alive alive'
              subst alive alive'
              simp only [Live.Apart]
              omega
            · cases alive'
          · cases alive
  · rw [WF.live_nil isOpen]
    exact .nil

/-! ## Free pages -/

theorem findFreePages_spec {pages_needed : Nat} {before : List Nat} (pages : List Nat) {run : Nat}
    (within : run ≤ before.length) (short : run < pages_needed)
    (free : ∀ page, before.length - run ≤ page → page < before.length →
      before[page]? = some 0) :
    findFreePages pages_needed pages before.length run = (before ++ pages).length ∨
    findFreePages pages_needed pages before.length run + pages_needed ≤ (before ++ pages).length ∧
      ∀ page, findFreePages pages_needed pages before.length run ≤ page →
        page < findFreePages pages_needed pages before.length run + pages_needed →
        (before ++ pages)[page]? = some 0 := by
  induction pages generalizing before run with
  | nil =>
      left
      simp [findFreePages]
  | cons owner rest ih =>
      have next := @ih (before ++ [owner])
      simp only [List.length_append, List.length_singleton, List.append_assoc,
        List.singleton_append] at next ⊢
      simp only [findFreePages]
      by_cases taken : owner ≠ 0
      · rw [if_pos taken, if_neg (by omega)]
        exact @next 0 (by omega) (by omega) (by omega)
      · rw [if_neg taken]
        obtain rfl : owner = 0 := not_not.mp taken
        have free' : ∀ page, before.length + 1 - (run + 1) ≤ page → page < before.length + 1 →
            (before ++ [0])[page]? = some 0 := by
          intro page low high
          obtain inside | rfl : page < before.length ∨ page = before.length := by omega
          · rw [List.getElem?_append_left inside]
            exact free page (by omega) inside
          · simp
        split
        · rename_i reached
          right
          refine ⟨by rw [List.length_cons]; omega, ?_⟩
          intro page low high
          rw [List.append_cons, List.getElem?_append_left (by simp; omega)]
          exact free' page (by omega) (by omega)
        · exact @next (run + 1) (by omega) (by omega) free'

theorem FindFreePages_spec {pages_needed : Nat} (positive : 0 < pages_needed)
    (found : region.FindFreePages pages_needed ≠ region.pages.length) :
    region.FindFreePages pages_needed + pages_needed ≤ region.pages.length ∧
      ∀ page, region.FindFreePages pages_needed ≤ page →
        page < region.FindFreePages pages_needed + pages_needed → region.pages[page]? = some 0 := by
  have spec := @findFreePages_spec pages_needed [] region.pages 0 (Nat.le_refl 0) positive nofun
  exact spec.resolve_left found

/-! ## Slots that are taken and freed -/

theorem getElem?_fill_n (pages : List Nat) (first count owner page : Nat) :
    (fill_n pages first count owner)[page]? = pages[page]?.map fun former =>
      if first ≤ page ∧ page < first + count then owner else former :=
  List.getElem?_mapIdx ..

@[simp] theorem length_fill_n (pages : List Nat) (first count owner : Nat) :
    (fill_n pages first count owner).length = pages.length := List.length_mapIdx

theorem covers_iff {first count page : Nat} {used : Bool} :
    Allocation.Covers ⟨first * PAGE_SIZE, count * PAGE_SIZE, used⟩ page ↔
      first ≤ page ∧ page < first + count := by
  simp only [Allocation.Covers, PAGE_SIZE]
  omega

theorem WF.emplaced (wf : region.WF) (pool : region.IsPool) :
    let region' : Region := { region with allocations := region.allocations ++ [⟨0, 0, false⟩] }
    region'.WF ∧ region'.live = region.live := by
  intro region'
  have pool' : region'.IsPool := pool
  refine ⟨⟨?_, ?_, ?_, ?_, ?_, ?_, ?_⟩, ?_⟩
  · exact fun free => absurd pool.1 (by simp [show region.used = false from free])
  · exact fun plain => absurd pool.2.1 (by simp [show region.pooled = false from plain])
  · exact wf.sized
  · exact wf.positive
  · simp [region', wf.counted]
  · intro allocation member used
    obtain former | rfl := List.mem_append.mp member |>.imp_right List.mem_singleton.mp
    · exact wf.aligned allocation former used
    · cases used
  · intro page owner at_page k
    rw [wf.owned page owner at_page k]
    constructor
    · rintro ⟨allocation, at_k, used, covers⟩
      refine ⟨allocation, ?_, used, covers⟩
      rw [List.getElem?_append_left (List.getElem?_eq_some_iff.mp at_k).1]
      exact at_k
    · rintro ⟨allocation, at_k, used, covers⟩
      rw [List.getElem?_append] at at_k
      split at at_k
      · exact ⟨allocation, at_k, used, covers⟩
      · have := List.mem_singleton.mp (List.mem_of_getElem? at_k)
        subst this
        cases used
  · rw [live_pool pool, live_pool pool']
    simp [region', Allocation.live]

/-- The region with the slot that `AddPoolAllocation` takes. -/
theorem WF.room (wf : region.WF) (pool : region.IsPool) :
    let slot := region.allocations.findIdx fun allocation => ! allocation.used
    let region' : Region := { region with
      allocations := if slot = region.allocations.length then region.allocations ++ [⟨0, 0, false⟩]
        else region.allocations }
    region'.WF ∧ region'.live = region.live ∧
      ∃ former, region'.allocations[slot]? = some former ∧ former.used = false := by
  intro slot region'
  obtain ⟨former, at_slot, unused⟩ := getElem?_findIdx_room
    (fun allocation : Allocation => ! allocation.used) region.allocations ⟨0, 0, false⟩
  have unused : former.used = false := by
    obtain rfl | ⟨_, unused⟩ := unused
    · rfl
    · simpa using unused
  have kept : region'.WF ∧ region'.live = region.live := by
    by_cases last : slot = region.allocations.length
    · simp only [region', if_pos last]
      exact wf.emplaced pool
    · simp only [region', if_neg last]
      exact ⟨wf, trivial⟩
  exact ⟨kept.1, kept.2, former, at_slot, unused⟩

/-- A slot that is not in use takes a run of free pages. -/
theorem WF.fill (wf : region.WF) (pool : region.IsPool) {slot first count : Nat}
    {former : Allocation} (at_slot : region.allocations[slot]? = some former)
    (unused : former.used = false) (positive : 0 < count)
    (fits : first + count ≤ region.pages.length)
    (free : ∀ page, first ≤ page → page < first + count → region.pages[page]? = some 0) :
    let region' : Region := { region with
      allocations := region.allocations.set slot ⟨first * PAGE_SIZE, count * PAGE_SIZE, true⟩
      pages := fill_n region.pages first count (slot + 1)
      active_allocations := region.active_allocations + 1 }
    region'.WF ∧ region'.live.Perm
      (⟨region.jit.rx_addr + first * PAGE_SIZE, count * PAGE_SIZE, true⟩ :: region.live) := by
  have bound := (List.getElem?_eq_some_iff.mp at_slot).1
  intro region'
  have pool' : region'.IsPool := pool
  refine ⟨⟨?_, ?_, ?_, ?_, ?_, ?_, ?_⟩, ?_⟩
  · exact fun idle => absurd pool.1 (by simp [show region.used = false from idle])
  · exact fun plain => absurd pool.2.1 (by simp [show region.pooled = false from plain])
  · intro _
    rw [length_fill_n]
    exact wf.sized pool
  · exact wf.positive
  · have counts := countP_set_add (·.used) ⟨first * PAGE_SIZE, count * PAGE_SIZE, true⟩ at_slot
    simp only [unused, Bool.toNat_false, Bool.toNat_true] at counts
    change region.active_allocations + 1 = List.countP _ (region.allocations.set slot _)
    rw [wf.counted]
    omega
  · intro allocation member used
    rw [Aligned, length_fill_n]
    obtain member | rfl := List.mem_or_eq_of_mem_set member
    · exact wf.aligned allocation member used
    · exact ⟨first, count, rfl, rfl, positive, fits⟩
  · intro page owner at_page k
    rw [getElem?_fill_n, Option.map_eq_some_iff] at at_page
    obtain ⟨old, at_page, rfl⟩ := at_page
    have owned := wf.owned page old at_page
    rw [List.getElem?_set]
    by_cases inside : first ≤ page ∧ page < first + count
    · obtain rfl : 0 = old := Option.some.inj ((free page inside.1 inside.2).symm.trans at_page)
      rw [if_pos inside]
      split
      · rename_i same
        subst same
        exact iff_of_true rfl ⟨_, rfl, rfl, covers_iff.mpr inside⟩
      · exact iff_of_false (by omega) fun other => absurd ((owned k).mpr other) (by omega)
    · rw [if_neg inside]
      split
      · rename_i same
        subst same
        refine iff_of_false ?_ ?_
        · intro mine
          obtain ⟨allocation, at_slot', used, _⟩ := (owned slot).mp mine
          rw [at_slot] at at_slot'
          cases at_slot'
          exact absurd used (by simp [unused])
        · rintro ⟨allocation, ⟨⟩, _, covers⟩
          exact inside (covers_iff.mp covers)
      · exact owned k
  · have perm := flatMap_set_perm (·.live region.jit.rx_addr)
      ⟨first * PAGE_SIZE, count * PAGE_SIZE, true⟩ at_slot
    rw [live_pool pool, live_pool pool']
    simpa [region', Allocation.live, unused] using perm

/-- The pages of a slot in use are free again. -/
theorem WF.clear (wf : region.WF) (pool : region.IsPool) {slot : Nat} {allocation : Allocation}
    (at_slot : region.allocations[slot]? = some allocation) (used : allocation.used = true) :
    let region' : Region := { region with
      pages := fill_n region.pages (allocation.offset / PAGE_SIZE) (allocation.size / PAGE_SIZE) 0
      allocations := region.allocations.set slot {}
      active_allocations := region.active_allocations - 1 }
    region'.WF ∧ region.live.Perm
      (⟨region.jit.rx_addr + allocation.offset, allocation.size, true⟩ :: region'.live) := by
  have bound := (List.getElem?_eq_some_iff.mp at_slot).1
  obtain ⟨first, count, offset, size, positive, fits⟩ :=
    wf.aligned allocation (List.mem_of_getElem? at_slot) used
  have covers {page : Nat} : allocation.Covers page ↔ first ≤ page ∧ page < first + count := by
    rw [Allocation.Covers, offset, size]
    exact @covers_iff first count page true
  have first_page : allocation.offset / PAGE_SIZE = first := by
    rw [offset]
    exact Nat.mul_div_cancel _ (by decide)
  have page_count : allocation.size / PAGE_SIZE = count := by
    rw [size]
    exact Nat.mul_div_cancel _ (by decide)
  rw [first_page, page_count]
  intro region'
  have pool' : region'.IsPool := pool
  refine ⟨⟨?_, ?_, ?_, ?_, ?_, ?_, ?_⟩, ?_⟩
  · exact fun idle => absurd pool.1 (by simp [show region.used = false from idle])
  · exact fun plain => absurd pool.2.1 (by simp [show region.pooled = false from plain])
  · intro _
    rw [length_fill_n]
    exact wf.sized pool
  · exact wf.positive
  · have counts := countP_set_add (·.used) {} at_slot
    simp only [used, Bool.toNat_false, Bool.toNat_true] at counts
    change region.active_allocations - 1 = List.countP _ (region.allocations.set slot {})
    rw [wf.counted]
    omega
  · intro other member other_used
    rw [Aligned, length_fill_n]
    obtain member | rfl := List.mem_or_eq_of_mem_set member
    · exact wf.aligned other member other_used
    · cases other_used
  · intro page owner at_page k
    rw [getElem?_fill_n, Option.map_eq_some_iff] at at_page
    obtain ⟨old, at_page, rfl⟩ := at_page
    have owned := wf.owned page old at_page
    have mine : old = slot + 1 ↔ first ≤ page ∧ page < first + count := by
      rw [owned slot, ← covers]
      constructor
      · rintro ⟨_, at_slot', _, covered⟩
        rw [at_slot] at at_slot'
        cases at_slot'
        exact covered
      · exact fun covered => ⟨allocation, at_slot, used, covered⟩
    rw [List.getElem?_set]
    by_cases inside : first ≤ page ∧ page < first + count
    · have slots := mine.mpr inside
      rw [if_pos inside]
      refine iff_of_false (by omega) ?_
      split
      · rintro ⟨_, ⟨⟩, unused, _⟩
        cases unused
      · exact fun other => absurd ((owned k).mpr other) (by omega)
    · rw [if_neg inside]
      split
      · rename_i same
        subst same
        refine iff_of_false (mt mine.mp inside) ?_
        rintro ⟨_, ⟨⟩, unused, _⟩
        cases unused
      · exact owned k
  · have perm := flatMap_set_perm (·.live region.jit.rx_addr) {} at_slot
    rw [live_pool pool, live_pool pool']
    simpa [region', Allocation.live, used] using perm.symm

theorem WF.live_of_none (wf : region.WF) (pool : region.IsPool)
    (none : region.active_allocations = 0) : region.live = [] := by
  have counted := wf.counted
  rw [none, eq_comm, List.countP_eq_zero] at counted
  rw [live_pool pool, List.flatMap_eq_nil_iff]
  exact fun slot member => if_neg (counted slot member)

/-- The last slot in use is all that is live. -/
theorem WF.live_of_last (wf : region.WF) (pool : region.IsPool) {slot : Nat}
    {allocation : Allocation} (at_slot : region.allocations[slot]? = some allocation)
    (used : allocation.used = true) (last : region.active_allocations = 1) :
    region.live = [⟨region.jit.rx_addr + allocation.offset, allocation.size, true⟩] := by
  obtain ⟨cleared, perm⟩ := wf.clear pool at_slot used
  rw [cleared.live_of_none pool (by simp [last])] at perm
  exact List.perm_singleton.mp perm

theorem FindPoolAllocation_spec {pointer size slot : Nat}
    (found : region.FindPoolAllocation pointer size = some slot) :
    ∃ allocation, region.allocations[slot]? = some allocation ∧ allocation.used = true ∧
      region.allocations.getD slot {} = allocation := by
  rw [FindPoolAllocation] at found
  split at found
  · cases found
  · dsimp only at found
    split at found
    · cases found
    · rename_i registered
      split at found
      · cases found
      · split at found
        · rename_i holds
          cases found
          have bound : region.pages.getD ((pointer - region.jit.rx_addr) / PAGE_SIZE) 0 - 1 <
              region.allocations.length := by omega
          have entry := List.getElem?_eq_getElem bound
          have allocation := congrArg (·.getD ({} : Allocation)) entry
          rw [← List.getD_eq_getElem?_getD, Option.getD_some] at allocation
          exact ⟨_, entry, allocation ▸ holds.1, allocation⟩
        · cases found

end Region

/-! ## What the registry of the executable memory keeps

Each operation changes one region, and with it what is live by one allocation at most. The counters
are those of the allocations that are live and of the regions that the kernel holds.
-/

/-- The pages of the allocations that come from the pools. -/
def pooledPages (live : List Live) : Nat :=
  (live.map fun a => if a.pooled then a.size / PAGE_SIZE else 0).sum

@[simp] theorem pooledPages_append (a b : List Live) :
    pooledPages (a ++ b) = pooledPages a + pooledPages b := by simp [pooledPages]

theorem pooledPages_perm {a b : List Live} (perm : a.Perm b) : pooledPages a = pooledPages b :=
  (perm.map _).sum_nat

/-- The regions, each by itself and each against the others. -/
structure Regular (regions : List Region) : Prop where
  wf : ∀ region ∈ regions, region.WF
  apart : ∀ (i j : Nat) (region other : Region), regions[i]? = some region →
    regions[j]? = some other → i ≠ j → region.Open → other.Open → region.jit.Apart other.jit

theorem Jit.Apart.symm {a b : Jit} (apart : a.Apart b) : b.Apart a := Or.symm apart

namespace State

/-- The allocations that the regions stand for. -/
def live (s : State) : List Live := s.regions.flatMap Region.live

/-- The number of regions that the kernel holds. -/
def held (s : State) : Nat := s.regions.countP (·.used)

end State

structure Inv (s : State) : Prop where
  regular : Regular s.regions
  active : s.stats.active = s.live.length
  pages : s.stats.pooled_pages_active = pooledPages s.live
  kernel : s.stats.kernel_regions_active = s.held

theorem Inv.init : Inv init where
  regular := ⟨nofun, by simp [JitMemory.init]⟩
  active := rfl
  pages := rfl
  kernel := rfl

theorem Regular.set {regions : List Region} (regular : Regular regions) {index : Nat}
    {region : Region} (wf : region.WF)
    (apart : region.Open → ∀ (j : Nat) (other : Region), j ≠ index →
      regions[j]? = some other → other.Open → region.jit.Apart other.jit) :
    Regular (regions.set index region) := by
  refine ⟨?_, ?_⟩
  · intro other member
    obtain member | rfl := List.mem_or_eq_of_mem_set member
    · exact regular.wf other member
    · exact wf
  · intro i j a b at_i at_j distinct a_open b_open
    rw [List.getElem?_set] at at_i at_j
    split at at_i
    · rename_i same
      subst same
      rw [if_neg distinct] at at_j
      split at at_i
      · cases at_i
        exact apart a_open j b (Ne.symm distinct) at_j b_open
      · cases at_i
    · split at at_j
      · rename_i other same
        subst same
        split at at_j
        · cases at_j
          exact (apart b_open i a distinct at_i a_open).symm
        · cases at_j
      · exact regular.apart i j a b at_i at_j distinct a_open b_open

/-- One region is changed: `removed` is what it does not stand for any more, `added` what it stands
for now, and the counters follow. -/
theorem Inv.change {s s' : State} (inv : Inv s) {index : Nat} {region : Region}
    (at_index : s.regions[index]? = some region) (region' : Region) (removed added : List Live)
    (regions : s'.regions = s.regions.set index region') (wf : region'.WF)
    (apart : region'.Open → ∀ (j : Nat) (other : Region), j ≠ index →
      s.regions[j]? = some other → other.Open → region'.jit.Apart other.jit)
    (live : (removed ++ region'.live).Perm (added ++ region.live))
    (active : s'.stats.active + removed.length = s.stats.active + added.length)
    (pages : s'.stats.pooled_pages_active + pooledPages removed =
      s.stats.pooled_pages_active + pooledPages added)
    (kernel : s'.stats.kernel_regions_active + region.used.toNat =
      s.stats.kernel_regions_active + region'.used.toNat) :
    Inv s' ∧ (removed ++ s'.live).Perm (added ++ s.live) := by
  have flat := flatMap_set_perm Region.live region' at_index
  have count := countP_set_add (·.used) region' at_index
  have perm : (removed ++ s'.live).Perm (added ++ s.live) := by
    rw [List.perm_iff_count] at flat live ⊢
    intro a
    have flat := flat a
    have live := live a
    simp only [List.count_append, State.live, regions] at flat live ⊢
    omega
  have length := perm.length_eq
  have sums := pooledPages_perm perm
  simp only [List.length_append, pooledPages_append] at length sums
  refine ⟨⟨regions ▸ inv.regular.set wf apart, ?_, ?_, ?_⟩, perm⟩
  · have := inv.active
    omega
  · have := inv.pages
    omega
  · have := inv.kernel
    simp only [State.held, regions] at this ⊢
    omega

/-- The windows of a region that stays where it is. -/
theorem Regular.stays {regions : List Region} (regular : Regular regions) {index : Nat}
    {region : Region} (at_index : regions[index]? = some region) (isOpen : region.Open) (j : Nat)
    (other : Region) (distinct : j ≠ index) (at_j : regions[j]? = some other)
    (other_open : other.Open) : region.jit.Apart other.jit :=
  regular.apart index j region other at_index at_j (Ne.symm distinct) isOpen other_open

/-- All that is live, by its addresses. -/
theorem Regular.live_apart {regions : List Region} (regular : Regular regions) :
    (regions.flatMap Region.live).Pairwise Live.Apart := by
  rw [List.pairwise_flatMap]
  refine ⟨fun region member => (regular.wf region member).live_apart, ?_⟩
  rw [List.pairwise_iff_getElem]
  intro i j i_lt j_lt lt a alive b alive'
  obtain ⟨a_open, _, a_low, a_high⟩ := (regular.wf _ (List.getElem_mem i_lt)).live_inside alive
  obtain ⟨b_open, _, b_low, b_high⟩ := (regular.wf _ (List.getElem_mem j_lt)).live_inside alive'
  have apart := regular.apart i j _ _ (List.getElem?_eq_getElem i_lt)
    (List.getElem?_eq_getElem j_lt) (by omega) a_open b_open
  simp only [Jit.Apart, Live.Apart] at apart ⊢
  omega

theorem Regular.live_positive {regions : List Region} (regular : Regular regions) {a : Live}
    (alive : a ∈ regions.flatMap Region.live) : 0 < a.size := by
  obtain ⟨region, member, alive⟩ := List.mem_flatMap.mp alive
  exact ((regular.wf region member).live_inside alive).2.1

theorem Inv.congr {s s' : State} (inv : Inv s) (regions : s'.regions = s.regions)
    (active : s'.stats.active = s.stats.active)
    (pages : s'.stats.pooled_pages_active = s.stats.pooled_pages_active)
    (kernel : s'.stats.kernel_regions_active = s.stats.kernel_regions_active) :
    Inv s' ∧ s'.live.Perm s.live := by
  have live : s'.live = s.live := congrArg (List.flatMap Region.live) regions
  refine ⟨⟨regions ▸ inv.regular, ?_, ?_, ?_⟩, .of_eq live⟩
  · rw [active, live, inv.active]
  · rw [pages, live, inv.pages]
  · rw [kernel, State.held, regions]
    exact inv.kernel

end Phocoena.JitMemory
