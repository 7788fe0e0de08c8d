import Phocoena.JitArm64.CodeLedger
import Phocoena.JitArm64.CodeSpace

/-! # Runs of the code space

The ledgers of near and far code stay balanced through every call: compilations, failed ones
included, move addresses from the free ranges to a block, `DestroyBlock` to a queue, and
`FreeRanges` back.
-/

namespace Phocoena.JitArm64.CodeSpace

namespace State
variable {s s' : State} {r : Range} {b : JitBlock} {near far : List Range}

/-- The account of a state in which `near` and `far` are still to be freed. -/
structure Account (s : State) (near far : List Range) : Prop where
  nearCode : Ledger (m_near_code_0 s.region).To (m_near_code_0 s.region)
    ⟨(m_near_code_1 s.region).From + s.routines.near, (m_near_code_1 s.region).To⟩
    s.m_free_ranges_near_0 s.m_free_ranges_near_1 (s.block_map.map JitBlock.near ++ near)
  farCode : Ledger (m_far_code_0 s.region).To
    ⟨(m_far_code_0 s.region).From + s.routines.near, (m_far_code_0 s.region).To⟩
    ⟨(m_far_code_1 s.region).From + s.routines.far, (m_far_code_1 s.region).To⟩
    s.m_free_ranges_far_0 s.m_free_ranges_far_1 (s.block_map.map JitBlock.far ++ far)
  handlers : ∀ area ∈ s.m_fault_to_handler, area.From < area.To ∧
    ∃ r ∈ s.block_map.map JitBlock.near ++ near, r.From ≤ area.From ∧ area.To ≤ r.To

/-- The invariant of the code space. -/
def Accounted (s : State) : Prop :=
  s.Account s.m_ranges_to_free_on_next_codegen_near s.m_ranges_to_free_on_next_codegen_far

/-! ## Starting over -/

theorem near_regions_meet (region : Nat) :
    (m_near_code_1 region).From = (m_near_code_0 region).To := rfl

theorem far_regions_apart (region : Nat) :
    (m_far_code_0 region).To ≤ (m_far_code_1 region).From := by
  simp only [m_far_code_0, m_far_code_1, m_near_code_0, m_near_code_1]
  omega

theorem account_clearCache (s : State) (r : Routines) : (s.clearCache r).Account [] [] := by
  refine ⟨?_, ?_, fun area mem => absurd mem List.not_mem_nil⟩
  · simp only [clearCache, generateAsmAndResetFreeMemoryRanges, resetFreeMemoryRanges]
    refine Ledger.reset (Nat.le_refl _) ?_
    rw [near_regions_meet]
    exact Nat.le_add_right _ _
  · simp only [clearCache, generateAsmAndResetFreeMemoryRanges, resetFreeMemoryRanges]
    exact Ledger.reset (Nat.le_refl _) (Nat.le_add_right_of_le (far_regions_apart _))

theorem accounted_clearCache (s : State) (r : Routines) : (s.clearCache r).Accounted :=
  account_clearCache s r

theorem accounted_init (region : Nat) (r : Routines) : (init region r).Accounted :=
  account_clearCache ⟨region, r, .empty, .empty, .empty, .empty, [], [], [], []⟩ r

theorem accounted_clears (h : s.Accounted) (clears : List Routines) :
    (clears.foldl clearCache s).Accounted := by
  induction clears generalizing s with
  | nil => exact h
  | cons r clears ih => exact ih (accounted_clearCache s r)

/-! ## Freeing -/

/-- The handlers of the other ranges stay, and those of the freed one go. -/
theorem handlers_freed {handlers used : List Range}
    (h : ∀ area ∈ handlers, area.From < area.To ∧
      ∃ q ∈ r :: used, q.From ≤ area.From ∧ area.To ≤ q.To) :
    ∀ area ∈ handlers.filter (fun area => ¬ (r.From < area.To ∧ area.To ≤ r.To)),
      area.From < area.To ∧ ∃ q ∈ used, q.From ≤ area.From ∧ area.To ≤ q.To := by
  intro area mem
  obtain ⟨mem, kept⟩ := List.mem_filter.mp mem
  obtain ⟨nonempty, q, hq, first, last⟩ := h area mem
  refine ⟨nonempty, q, ?_, first, last⟩
  cases List.mem_cons.mp hq with
  | inl same =>
      subst same
      simp only [decide_not, Bool.not_eq_true', decide_eq_false_iff_not] at kept
      omega
  | inr hq => exact hq

theorem Account.freeRangeNear (h : s.Account (r :: near) far) :
    (s.freeRangeNear r).Account near far := by
  have ledger := h.nearCode.perm List.perm_middle
  have known : ∀ area ∈ s.m_fault_to_handler, area.From < area.To ∧
      ∃ q ∈ r :: (s.block_map.map JitBlock.near ++ near),
        q.From ≤ area.From ∧ area.To ≤ q.To := by
    intro area mem
    simpa [or_left_comm] using h.handlers area mem
  have handlers := handlers_freed known
  unfold State.freeRangeNear
  dsimp only
  split
  · next lt => exact ⟨ledger.release_low lt, h.farCode, handlers⟩
  · next ge => exact ⟨ledger.release_high ge, h.farCode, handlers⟩

theorem Account.freeRangeFar (h : s.Account near (r :: far)) :
    (s.freeRangeFar r).Account near far := by
  have ledger := h.farCode.perm List.perm_middle
  unfold State.freeRangeFar
  split
  · next lt => exact ⟨h.nearCode, ledger.release_low lt, h.handlers⟩
  · next ge => exact ⟨h.nearCode, ledger.release_high ge, h.handlers⟩

theorem Account.freeNear (h : s.Account near far) :
    (near.foldl State.freeRangeNear s).Account [] far := by
  induction near generalizing s with
  | nil => exact h
  | cons r near ih => exact ih h.freeRangeNear

theorem Account.freeFar (h : s.Account near far) :
    (far.foldl State.freeRangeFar s).Account near [] := by
  induction far generalizing s with
  | nil => exact h
  | cons r far ih => exact ih h.freeRangeFar

theorem accounted_freeRanges (h : s.Accounted) : s.freeRanges.Accounted := by
  have freed := h.freeNear.freeFar
  exact ⟨freed.nearCode, freed.farCode, freed.handlers⟩

/-- The ranges of a destroyed block move from the block map to the queue, empty ones
excepted. -/
theorem ledger_queue {split : Nat} {low high : Range} {free0 free1 : RangeSizeSet}
    {blocks : List JitBlock} {queue : List Range} (code : JitBlock → Range)
    (h : Ledger split low high free0 free1 (blocks.map code ++ queue)) (mem : b ∈ blocks) :
    Ledger split low high free0 free1 ((blocks.erase b).map code ++
      if (code b).From ≠ (code b).To then queue ++ [code b] else queue) := by
  have moved := h.perm (((List.perm_cons_erase mem).map code).append_right queue)
  split
  · rw [← List.append_assoc]
    exact moved.perm (List.perm_append_singleton _ _).symm
  · next empty => exact moved.uncons_empty (by omega)

theorem accounted_destroyBlock (h : s.Accounted) (mem : b ∈ s.block_map) :
    (s.destroyBlock b).Accounted := by
  refine ⟨ledger_queue JitBlock.near h.nearCode mem, ledger_queue JitBlock.far h.farCode mem, ?_⟩
  intro area ha
  obtain ⟨nonempty, q, hq, first, last⟩ := h.handlers area ha
  refine ⟨nonempty, q, ?_, first, last⟩
  cases List.mem_append.mp hq with
  | inl live =>
      obtain ⟨c, hc, rfl⟩ := List.mem_map.mp live
      by_cases same : c = b
      · subst same
        have holds : c.near.From ≠ c.near.To := by omega
        simp [destroyBlock, holds]
      · exact List.mem_append_left _
          (List.mem_map_of_mem ((List.mem_erase_of_ne same).mpr hc))
  | inr queued =>
      refine List.mem_append_right _ ?_
      simp only [destroyBlock]
      split
      · exact List.mem_append_left _ queued
      · exact queued

theorem accounted_handleFastmemFault (h : s.Accounted) (pc : Nat) :
    (s.handleFastmemFault pc).Accounted := by
  unfold handleFastmemFault
  split
  · exact h
  · split
    · exact h
    · exact ⟨h.nearCode, h.farCode, fun area mem => h.handlers area (List.mem_of_mem_erase mem)⟩

/-! ## Compiling -/

theorem mem_of_dereference {free : RangeSizeSet} (valid : free.Valid) {f : Range}
    (read : dereference free = .ok f) : f ∈ free.Map := by
  unfold dereference at read
  split at read
  · cases read
  · next largest =>
    cases read
    exact mem_of_bySizeBegin valid largest

/-- The emitters are set to free ranges of the chosen region. -/
theorem setEmitterStateToFreeCodeRegion_mem (h : s.Account near far) {i : CodeRegion}
    {free_near free_far : Range}
    (set : s.setEmitterStateToFreeCodeRegion = .ok (some (i, free_near, free_far))) :
    match i with
    | .zero => free_near ∈ s.m_free_ranges_near_0.Map ∧ free_far ∈ s.m_free_ranges_far_0.Map
    | .one => free_near ∈ s.m_free_ranges_near_1.Map ∧ free_far ∈ s.m_free_ranges_far_1.Map := by
  have near_1 := fun f => mem_of_dereference h.nearCode.high.valid (f := f)
  have far_1 := fun f => mem_of_dereference h.farCode.high.valid (f := f)
  have near_0 := fun f => mem_of_dereference h.nearCode.low.valid (f := f)
  have far_0 := fun f => mem_of_dereference h.farCode.low.valid (f := f)
  unfold setEmitterStateToFreeCodeRegion at set
  cases read1 : dereference s.m_free_ranges_near_1 with
  | error => simp [read1, bind, Except.bind] at set
  | ok n1 =>
  cases read2 : dereference s.m_free_ranges_far_1 with
  | error => simp [read1, read2, bind, Except.bind] at set
  | ok f1 =>
  simp only [read1, read2, bind, Except.bind] at set
  split at set
  · cases set
    exact ⟨near_1 _ read1, far_1 _ read2⟩
  · cases read3 : dereference s.m_free_ranges_near_0 with
    | error => simp [read3] at set
    | ok n0 =>
    cases read4 : dereference s.m_free_ranges_far_0 with
    | error => simp [read3, read4] at set
    | ok f0 =>
    simp only [read3, read4] at set
    split at set
    · cases set
    · split at set
      · cases set
        exact ⟨near_0 _ read3, far_0 _ read4⟩
      · cases set
        exact ⟨near_1 _ read1, far_1 _ read2⟩

theorem setEmitterStateToFreeCodeRegion_ordered (h : s.Account near far) {i : CodeRegion}
    {free_near free_far : Range}
    (set : s.setEmitterStateToFreeCodeRegion = .ok (some (i, free_near, free_far))) :
    free_near.From < free_near.To ∧ free_far.From < free_far.To := by
  have mem := setEmitterStateToFreeCodeRegion_mem h set
  cases i with
  | zero =>
      exact ⟨h.nearCode.low.valid.separated.nonempty _ mem.1,
        h.farCode.low.valid.separated.nonempty _ mem.2⟩
  | one =>
      exact ⟨h.nearCode.high.valid.separated.nonempty _ mem.1,
        h.farCode.high.valid.separated.nonempty _ mem.2⟩

/-- Storing an entry replaces the one with the same key. -/
theorem mem_storeHandlers {area : Range} {fastmem handlers : List Range}
    (mem : area ∈ fastmem.foldl
      (fun handlers area => area :: handlers.filter (·.To ≠ area.To)) handlers) :
    area ∈ fastmem ∨ area ∈ handlers := by
  induction fastmem generalizing handlers with
  | nil => exact .inr mem
  | cons a fastmem ih =>
      cases ih mem with
      | inl new => exact .inl (List.mem_cons_of_mem _ new)
      | inr old =>
          cases List.mem_cons.mp old with
          | inl same => exact .inl (same ▸ List.mem_cons_self)
          | inr kept => exact .inr (List.mem_filter.mp kept).1

section
variable (i : CodeRegion) (near_code far_code : Range) (fastmem : List Range)

@[simp] theorem storeBlock_near_queue :
    (s.storeBlock i near_code far_code fastmem).m_ranges_to_free_on_next_codegen_near =
      s.m_ranges_to_free_on_next_codegen_near := by
  cases i <;> rfl

@[simp] theorem storeBlock_far_queue :
    (s.storeBlock i near_code far_code fastmem).m_ranges_to_free_on_next_codegen_far =
      s.m_ranges_to_free_on_next_codegen_far := by
  cases i <;> rfl

end

theorem Account.storeBlock (h : s.Account near far) {i : CodeRegion}
    {free_near free_far near_code far_code : Range} {fastmem : List Range}
    (set : s.setEmitterStateToFreeCodeRegion = .ok (some (i, free_near, free_far)))
    (near_fits : near_code.From = free_near.From ∧ near_code.To ≤ free_near.To)
    (far_fits : far_code.From = free_far.From ∧ far_code.To ≤ free_far.To)
    (accesses : ∀ area ∈ fastmem, area.From < area.To ∧ near_code.From ≤ area.From ∧
      area.To ≤ near_code.To) :
    (s.storeBlock i near_code far_code fastmem).Account near far := by
  have mem := setEmitterStateToFreeCodeRegion_mem h set
  have handlers : ∀ area ∈ fastmem.foldl (fun handlers area =>
      area :: handlers.filter (·.To ≠ area.To)) s.m_fault_to_handler, area.From < area.To ∧
      ∃ q ∈ near_code :: s.block_map.map JitBlock.near ++ near,
        q.From ≤ area.From ∧ area.To ≤ q.To := by
    intro area stored
    cases mem_storeHandlers stored with
    | inl new =>
        obtain ⟨nonempty, first, last⟩ := accesses area new
        exact ⟨nonempty, near_code, by simp, first, last⟩
    | inr old =>
        obtain ⟨nonempty, q, hq, first, last⟩ := h.handlers area old
        exact ⟨nonempty, q, List.mem_cons_of_mem _ hq, first, last⟩
  cases i with
  | zero =>
      exact ⟨h.nearCode.take_low mem.1 near_fits.1 near_fits.2,
        h.farCode.take_low mem.2 far_fits.1 far_fits.2, handlers⟩
  | one =>
      exact ⟨h.nearCode.take_high mem.1 near_fits.1 near_fits.2,
        h.farCode.take_high mem.2 far_fits.1 far_fits.2, handlers⟩

theorem accounted_tryJit (h : s.Accounted) {a : Attempt} {returned : Bool}
    (tried : s.tryJit a = .ok (s', returned)) : s'.Accounted := by
  have freed := accounted_freeRanges (accounted_clears h a.clears)
  unfold tryJit at tried
  split at tried
  · cases tried
    exact freed
  · cases set : (a.clears.foldl clearCache s).freeRanges.setEmitterStateToFreeCodeRegion with
    | error => simp [set, bind, Except.bind] at tried
    | ok found =>
    simp only [set, bind, Except.bind] at tried
    split at tried
    · cases tried
      exact freed
    · cases tried
      exact freed
    · next _ i free_near free_far e _ =>
      split at tried
      · next fits =>
        cases tried
        obtain ⟨near_ordered, far_ordered⟩ := setEmitterStateToFreeCodeRegion_ordered freed set
        have near_size := fits.1
        have far_size := fits.2
        unfold calcSize at near_size far_size
        unfold Accounted
        rw [storeBlock_near_queue, storeBlock_far_queue]
        refine Account.storeBlock freed set ⟨rfl, ?_⟩ ⟨rfl, ?_⟩ ?_
        · simp only
          omega
        · simp only
          omega
        · intro area mem
          obtain ⟨offset, ho, rfl⟩ := List.mem_map.mp mem
          have := e.inside offset ho
          simp only
          omega
      · cases tried
        exact freed

theorem accounted_jit (h : s.Accounted) {first retry : Attempt} {r : Routines}
    (compiled : s.jit first r retry = .ok s') : s'.Accounted := by
  unfold jit at compiled
  cases tried : s.tryJit first with
  | error => simp [tried, bind, Except.bind] at compiled
  | ok outcome =>
  obtain ⟨s₁, returned⟩ := outcome
  simp only [tried, bind, Except.bind] at compiled
  split at compiled
  · cases compiled
    exact accounted_tryJit h tried
  · cases retried : (s₁.clearCache r).tryJit retry with
    | error => simp [retried] at compiled
    | ok outcome =>
    obtain ⟨s₂, returned⟩ := outcome
    simp only [retried] at compiled
    split at compiled
    · cases compiled
      exact accounted_tryJit (accounted_clearCache s₁ r) retried
    · cases compiled

end State

/-! ## Runs -/

theorem accounted_step {s s' : State} (h : s.Accounted) {a : Action} (next : step a s = some s') :
    s'.Accounted := by
  cases a with
  | jit first r retry =>
      cases compiled : s.jit first r retry with
      | error => simp [step, compiled, Except.toOption] at next
      | ok t =>
          simp only [step, compiled, Except.toOption, Option.some.injEq] at next
          exact next ▸ State.accounted_jit h compiled
  | destroyBlock b =>
      simp only [step] at next
      split at next
      · next mem =>
        cases next
        exact State.accounted_destroyBlock h mem
      · cases next
  | eraseSingleBlock b =>
      simp only [step] at next
      split at next
      · next mem =>
        cases next
        exact State.accounted_freeRanges (State.accounted_destroyBlock h mem)
      · cases next
  | freeRanges =>
      cases next
      exact State.accounted_freeRanges h
  | clearCache r =>
      cases next
      exact State.accounted_clearCache s r
  | handleFastmemFault pc =>
      cases next
      exact State.accounted_handleFastmemFault h pc

theorem Reachable.accounted {s : State} (h : Reachable s) : s.Accounted := by
  obtain ⟨region, r, run⟩ := h
  exact run.invariant (State.accounted_init region r) fun _ _ _ inv _ next =>
    accounted_step inv next

/-! ## The division of the code space -/

namespace State
variable (s : State)

/-- The near and far code of the live blocks. -/
def codeRanges : List Range := s.block_map.map JitBlock.near ++ s.block_map.map JitBlock.far

/-- The ranges of the free range sets. -/
def free : List Range :=
  s.m_free_ranges_near_0.Map ++ s.m_free_ranges_near_1.Map ++
    (s.m_free_ranges_far_0.Map ++ s.m_free_ranges_far_1.Map)

def queued : List Range :=
  s.m_ranges_to_free_on_next_codegen_near ++ s.m_ranges_to_free_on_next_codegen_far

/-- The generated routines in `m_near_code_1` and in `m_far_code_1`. -/
def routineRanges : List Range :=
  [⟨(m_near_code_1 s.region).From, (m_near_code_1 s.region).From + s.routines.near⟩,
    ⟨(m_far_code_1 s.region).From, (m_far_code_1 s.region).From + s.routines.far⟩]

/-- The unused space in front of the far code in `m_far_code_0`, of the size of the near
routines. -/
def unused : Range := ⟨(m_far_code_0 s.region).From, (m_far_code_0 s.region).From + s.routines.near⟩

def InRegions (x : Nat) : Prop :=
  x ∈ m_far_code_0 s.region ∨ x ∈ m_near_code_0 s.region ∨ x ∈ m_near_code_1 s.region ∨
    x ∈ m_far_code_1 s.region

instance (x : Nat) : Decidable (s.InRegions x) :=
  inferInstanceAs (Decidable (x ∈ m_far_code_0 s.region ∨ x ∈ m_near_code_0 s.region ∨
    x ∈ m_near_code_1 s.region ∨ x ∈ m_far_code_1 s.region))

def pieces : List Range := s.free ++ s.codeRanges ++ s.queued ++ s.routineRanges

/-- The address is free, in a live block, queued to be freed or in a routine. -/
def Covered (x : Nat) : Prop := Within x s.pieces

/-- Live code overlaps neither other live code, nor the routines, nor free space, and no fast
access with a handler is in free space. -/
structure Partitioned : Prop where
  blocks : s.codeRanges.Pairwise Range.Apart
  routines : ∀ r ∈ s.codeRanges, ∀ q ∈ s.routineRanges, r.Apart q
  free : ∀ r ∈ s.codeRanges, ∀ f ∈ s.free, r.Apart f
  handlers : ∀ area ∈ s.m_fault_to_handler, ∀ x ∈ area, ¬ Within x s.free

variable {s}

/-- Every address of the regions is in exactly one piece, the unused ones in none. -/
theorem covers_pieces (h : s.Accounted) (x : Nat) :
    covers s.pieces x = if s.InRegions x ∧ x ∉ s.unused then 1 else 0 := by
  have near := h.nearCode.total x
  have far := h.farCode.total x
  have near_le := s.routines.near_le
  have far_le := s.routines.far_le
  simp only [pieces, free, codeRanges, queued, routineRanges, covers_append, covers_cons,
    covers_nil] at near far ⊢
  simp only [InRegions, unused, m_far_code_0, m_near_code_0, m_near_code_1, m_far_code_1,
    Range.mem_def, NEAR_CODE_SIZE, FAR_CODE_SIZE] at near far near_le far_le ⊢
  split_ifs at near far ⊢ <;> omega

theorem Accounted.partitioned (h : s.Accounted) : s.Partitioned := by
  have once : ∀ x, covers s.pieces x ≤ 1 := by
    intro x
    rw [covers_pieces h]
    split <;> decide
  obtain ⟨rest, -, routines⟩ := List.pairwise_append.mp (pairwise_apart once)
  obtain ⟨rest, -, queued⟩ := List.pairwise_append.mp rest
  obtain ⟨-, blocks, free⟩ := List.pairwise_append.mp rest
  refine ⟨blocks, fun r hr q hq => routines r (by simp [hr]) q hq,
    fun r hr f hf => (free f hf r hr).symm, ?_⟩
  rintro area mem x inArea ⟨f, hf, inFree⟩
  obtain ⟨-, q, hq, first, last⟩ := h.handlers area mem
  have inCode : x ∈ q := by
    rw [Range.mem_def] at inArea ⊢
    omega
  cases List.mem_append.mp hq with
  | inl live => exact free f hf q (List.mem_append_left _ live) x inFree inCode
  | inr waiting =>
      exact queued f (List.mem_append_left _ hf) q (List.mem_append_left _ waiting) x inFree inCode

end State

/-- In every state that calls of the JIT lead to, the code space is divided up without
overlaps, and nothing but the unused space is lost. -/
theorem partitioned_of_reachable {s : State} (h : Reachable s) :
    s.Partitioned ∧ ∀ x, s.InRegions x → x ∉ s.unused → s.Covered x := by
  refine ⟨h.accounted.partitioned, fun x inside used => within_iff_covers.mpr ?_⟩
  rw [State.covers_pieces h.accounted, if_pos ⟨inside, used⟩]
  exact Nat.one_pos

/-! Routines of a page, and a block whose near code takes up the rest of `m_near_code_1`. -/

def pageOfRoutines : Routines := ⟨4096, 4096, by decide, by decide⟩

def emptyBlock : Attempt := ⟨[], false, some ⟨0, 0, [], by simp⟩⟩

def smallBlock : Attempt := ⟨[], false, some ⟨64, 32, [⟨8, 12⟩], by simp⟩⟩

def fillingBlock : Attempt := ⟨[], false, some ⟨NEAR_CODE_SIZE - 4096, 0, [], by simp⟩⟩

theorem partitioned_smallBlock : ∃ s, Reachable s ∧ s.codeRanges.length = 2 ∧
    s.m_fault_to_handler.length = 1 ∧ s.Partitioned ∧
    ∀ x, s.InRegions x → x ∉ s.unused → s.Covered x := by
  obtain ⟨s, run, live, handled⟩ : ∃ s, runActions step
      [.jit smallBlock pageOfRoutines smallBlock] (.init 0 pageOfRoutines) = some s ∧
      s.codeRanges.length = 2 ∧ s.m_fault_to_handler.length = 1 :=
    ⟨_, rfl, by decide +kernel, by decide +kernel⟩
  have reachable : Reachable s := ⟨0, pageOfRoutines, .of_runActions run⟩
  have divided := partitioned_of_reachable reachable
  exact ⟨s, reachable, live, handled, divided.1, divided.2⟩

/-- The start of `m_far_code_0` is in no piece from the start, and after a block that takes up
all that is free in `m_near_code_1` the next compilation reads through an end iterator. -/
theorem uncovered_and_endDereferenced :
    (Reachable (.init 0 pageOfRoutines) ∧ (State.init 0 pageOfRoutines).InRegions 0 ∧
      ¬ (State.init 0 pageOfRoutines).Covered 0) ∧
    ∃ s, Reachable s ∧ s.jit emptyBlock pageOfRoutines emptyBlock = .error .endDereferenced := by
  refine ⟨⟨⟨0, pageOfRoutines, .refl⟩, by decide, ?_⟩, ?_⟩
  · simp only [State.Covered, within_iff_covers]
    decide +kernel
  · obtain ⟨s, run, aborts⟩ : ∃ s, runActions step
        [.jit fillingBlock pageOfRoutines fillingBlock] (.init 0 pageOfRoutines) = some s ∧
        s.jit emptyBlock pageOfRoutines emptyBlock = .error .endDereferenced :=
      ⟨_, rfl, by decide +kernel⟩
    exact ⟨s, ⟨0, pageOfRoutines, .of_runActions run⟩, aborts⟩

end Phocoena.JitArm64.CodeSpace
