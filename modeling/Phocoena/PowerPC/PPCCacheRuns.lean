import Phocoena.PowerPC.PPCCacheAccess

/-! # Runs of the cache

Any sequence of operations on the cache acts on the guest memories like a write-back memory:
a program finds what it wrote last until it invalidates a block, and memory holds what a program
finds wherever it was told to.
-/

namespace Phocoena.PowerPC.Cache

open WriteBack (overwrite)

variable {L : MemoryLayout}

/-! ## Operations on one block -/

/-- A block found for a locked access. -/
structure Found (L : MemoryLayout) (s : State) (addr : BitVec 32) (way : Fin 8) : Prop where
  coherent : Coherent L s
  valid : s.1.isValid (setOf addr) way = true
  entry : L.entry (s.1.addrs (setOf addr) way) = L.entry addr

theorem Coherent.found {s s₁ : State} (h : Coherent L s) {addr : BitVec 32} (proper : L.Proper addr)
    {set : Fin 128} {way : Fin 8} (got : Cache.getCache L s addr true = (s₁, set, some way)) :
    Settled L s s₁ ∧ s₁.2 = s.2 ∧ set = setOf addr ∧ Found L s₁ addr way := by
  have settled := h.getCache proper true
  have result := getCache_result (L := L) s addr true
  have memory := getCache_locked (L := L) s addr
  rw [got] at settled result memory
  simp only [Prod.mk.injEq] at result
  obtain ⟨rfl, known⟩ := result
  obtain ⟨valid, entry⟩ := settled.coherent.indexed.at_set known.symm
  exact ⟨settled, memory, rfl, settled.coherent, valid, entry⟩

theorem Coherent.notFound {s s₁ : State} (h : Coherent L s) {addr : BitVec 32}
    (proper : L.Proper addr) {set : Fin 128} (got : Cache.getCache L s addr true = (s₁, set, none)) :
    Settled L s s₁ ∧ s₁.2 = s.2 ∧ ∀ p : Place L, L.entry addr = p.entry →
      view s p = s.2 p.region p.offset := by
  have settled := h.getCache proper true
  have result := getCache_result (L := L) s addr true
  have memory := getCache_locked (L := L) s addr
  rw [got] at settled result memory
  simp only [Prod.mk.injEq] at result
  refine ⟨settled, memory, fun p same => ?_⟩
  rw [← settled.visible p, view_missing (by rw [← same, ← result.2]), memory]

theorem Coherent.discard {s : State} (h : Coherent L s) {set : Fin 128} {way : Fin 8}
    (valid : s.1.isValid set way = true) (mem : Memory)
    (others : ∀ p : Place L, L.entry (s.1.addrs set way) ≠ p.entry →
      mem p.region p.offset = s.2 p.region p.offset) :
    Coherent L (s.1.discard L set way, mem) ∧ ∀ p : Place L,
      view (s.1.discard L set way, mem) p =
        if L.entry (s.1.addrs set way) = p.entry then mem p.region p.offset else view s p := by
  have left : (s.1.discard L set way).isValid = put s.1.isValid set way false :=
    hasBit_update_clearBit s.1.valid set way
  have marked : (s.1.discard L set way).isModified = put s.1.isModified set way false :=
    hasBit_update_clearBit s.1.modified set way
  have lookup : ∀ p : Place L, (s.1.discard L set way).lookup p.entry =
      if L.entry (s.1.addrs set way) = p.entry then none else s.1.lookup p.entry := by
    intro p
    by_cases here : L.entry (s.1.addrs set way) = p.entry
    · rw [if_pos here, ← here]
      exact Function.update_self ..
    · rw [if_neg here]
      exact Function.update_of_ne (Ne.symm here) ..
  constructor
  · refine ⟨h.indexed.discard valid, h.whole, ?_, ?_⟩
    · intro set' way' valid'
      dsimp only at valid'
      rw [left, put_apply] at valid'
      split at valid'
      · cases valid'
      · exact h.proper set' way' valid'
    · intro set' way' valid' unmodified p same
      dsimp only at valid' unmodified same ⊢
      rw [left, put_apply] at valid'
      rw [marked, put_apply] at unmodified
      split at valid'
      · cases valid'
      · rename_i other
        rw [if_neg other] at unmodified
        rw [others p fun here => other (h.indexed.unique valid' valid (same.trans here.symm))]
        exact h.clean set' way' valid' unmodified p same
  · intro p
    rw [view]
    dsimp only
    rw [lookup]
    by_cases here : L.entry (s.1.addrs set way) = p.entry
    · rw [if_pos here, if_pos here]
    · rw [if_neg here, if_neg here, others p here]
      rfl

/-- Memory took over the bytes of a block. -/
structure Synced (L : MemoryLayout) (s s' : State) (here : Place L → Prop) : Prop where
  coherent : Coherent L s'
  visible : (view s' : Place L → Byte) = view s
  stored : ∀ p, here p → s'.2 p.region p.offset = view s p
  kept : ∀ p, ¬ here p → s'.2 p.region p.offset = s.2 p.region p.offset

theorem Settled.synced {s s₁ s' : State} (first : Settled L s s₁) (memory : s₁.2 = s.2)
    {here : Place L → Prop} (second : Synced L s₁ s' here) : Synced L s s' here where
  coherent := second.coherent
  visible := by rw [second.visible, show (view s₁ : Place L → Byte) = view s from funext first.visible]
  stored p inside := by rw [second.stored p inside, first.visible]
  kept p outside := by rw [second.kept p outside, memory]

theorem Coherent.markClean {s : State} (h : Coherent L s) {set : Fin 128} {way : Fin 8}
    (valid : s.1.isValid set way = true) {mem : Memory}
    (copied : ∀ p : Place L, mem p.region p.offset =
      if L.entry (s.1.addrs set way) = p.entry then view s p else s.2 p.region p.offset) :
    Synced L s ({ s.1 with
      modified := Function.update s.1.modified set (clearBit (s.1.modified set) way) }, mem)
      fun p => L.entry (s.1.addrs set way) = p.entry where
  coherent := by
    refine ⟨h.indexed, h.whole, h.proper, fun set' way' valid' unmodified p same => ?_⟩
    have marked := congrFun (congrFun (hasBit_update_clearBit s.1.modified set way) set') way'
    dsimp only at same ⊢
    rw [isModified, marked, put_apply] at unmodified
    rw [copied]
    by_cases this : set' = set ∧ way' = way
    · obtain ⟨rfl, rfl⟩ := this
      rw [if_pos same, h.indexed.view_valid valid same]
    · rw [if_neg this] at unmodified
      rw [if_neg fun here => this (h.indexed.unique valid' valid (same.trans here.symm))]
      exact h.clean set' way' valid' unmodified p same
  visible := by
    funext p
    cases known : s.1.lookup p.entry with
    | some w =>
        rw [view, view]
        dsimp only
        rw [known]
    | none =>
        refine Eq.trans (b := mem p.region p.offset) (view_missing known) ?_
        rw [view_missing known, copied, if_neg]
        intro same
        have cached := (h.indexed.home set way valid).2
        rw [same, known] at cached
        cases cached
  stored p here := by
    dsimp only
    rw [copied, if_pos here]
  kept p there := by
    dsimp only
    rw [copied, if_neg there]

theorem Coherent.store {s : State} (h : Coherent L s) {addr : BitVec 32} (proper : L.Proper addr) :
    Synced L s (store L s addr) fun p => L.entry addr = p.entry := by
  simp only [Cache.store]
  split
  · rename_i got
    obtain ⟨settled, memory, missing⟩ := h.notFound proper got
    refine ⟨settled.coherent, funext settled.visible, fun p same => ?_, fun p _ => ?_⟩
    · rw [memory, missing p same]
    · rw [memory]
  · rename_i s₁ set way got
    obtain ⟨settled, memory, rfl, found⟩ := h.found proper got
    have aligned := MemoryLayout.blockOf_blockOf addr
    refine settled.synced memory ?_
    rw [← found.entry, found.valid, Bool.true_and]
    refine found.coherent.markClean found.valid fun p => ?_
    rw [found.entry, ← L.entry_blockOf addr]
    refine found.coherent.writeBack found.valid (proper.congr aligned.symm) aligned ?_ p
    rw [L.entry_blockOf, found.entry]

theorem Coherent.flush {s : State} (h : Coherent L s) {addr : BitVec 32} (proper : L.Proper addr) :
    Synced L s (flush L s addr) fun p => L.entry addr = p.entry := by
  simp only [Cache.flush]
  split
  · rename_i got
    obtain ⟨settled, memory, missing⟩ := h.notFound proper got
    refine ⟨settled.coherent, funext settled.visible, fun p same => ?_, fun p _ => ?_⟩
    · rw [memory, missing p same]
    · rw [memory]
  · rename_i s₁ set way got
    obtain ⟨settled, memory, rfl, found⟩ := h.found proper got
    have aligned := MemoryLayout.blockOf_blockOf addr
    have copied : ∀ p : Place L,
        Cache.writeBack L s₁.1 s₁.2 (setOf addr) way (blockOf addr) p.region p.offset =
          if L.entry addr = p.entry then view s₁ p else s₁.2 p.region p.offset := by
      intro p
      rw [← L.entry_blockOf addr]
      refine found.coherent.writeBack found.valid (proper.congr aligned.symm) aligned ?_ p
      rw [L.entry_blockOf, found.entry]
    refine settled.synced memory ?_
    rw [if_pos found.valid]
    obtain ⟨coherent, visible⟩ := found.coherent.discard found.valid
      (Cache.writeBack L s₁.1 s₁.2 (setOf addr) way (blockOf addr)) fun p other => by
        rw [copied, if_neg (found.entry ▸ other)]
    refine ⟨coherent, ?_, fun p here => ?_, fun p there => ?_⟩
    · funext p
      rw [visible, copied, found.entry]
      split
      · rfl
      · rfl
    · exact (copied p).trans (if_pos here)
    · exact (copied p).trans (if_neg there)

/-- Bytes that were not in memory yet are gone. -/
structure Dropped (L : MemoryLayout) (s s' : State) (here : Place L → Prop) : Prop where
  coherent : Coherent L s'
  memory : s'.2 = s.2
  forgotten : ∀ p, here p → view s' p = s.2 p.region p.offset
  kept : ∀ p, ¬ here p → view s' p = view s p

theorem Coherent.invalidate {s : State} (h : Coherent L s) {addr : BitVec 32}
    (proper : L.Proper addr) : Dropped L s (invalidate L s addr) fun p => L.entry addr = p.entry := by
  simp only [Cache.invalidate]
  split
  · rename_i got
    obtain ⟨settled, memory, missing⟩ := h.notFound proper got
    refine ⟨settled.coherent, memory, fun p same => ?_, fun p _ => settled.visible p⟩
    rw [settled.visible, missing p same]
  · rename_i s₁ set way got
    obtain ⟨settled, memory, rfl, found⟩ := h.found proper got
    rw [if_pos found.valid]
    obtain ⟨coherent, visible⟩ := found.coherent.discard found.valid s₁.2 fun _ _ => rfl
    refine ⟨coherent, memory, fun p here => ?_, fun p there => ?_⟩
    · rw [visible, if_pos (found.entry.trans here), memory]
    · rw [visible, if_neg (found.entry ▸ there), settled.visible]

theorem Indexed.place_set {c : Cache} (h : c.Indexed L) {p : Place L} {way : Fin 8}
    (known : c.lookup p.entry = some way) : c.isValid p.set way = true := by
  obtain ⟨set, valid, same⟩ := h.found _ _ known
  rwa [← MemoryLayout.setOf_of_entry_eq same, (h.home set way valid).1]

theorem Coherent.invalidateSet {s : State} (h : Coherent L s) (addr : BitVec 32) :
    Dropped L s (s.1.icacheInvalidate L addr, s.2) fun p => p.set = setOf addr := by
  have indexed := h.indexed.icacheInvalidate addr
  have parts := foldl_updateLookup (L := L) (fun _ => none) s.1
    ((List.finRange 8).map fun way => (setOf addr, way))
  have same : (s.1.icacheInvalidate L addr).data = s.1.data ∧
      (s.1.icacheInvalidate L addr).addrs = s.1.addrs := by
    rw [icacheInvalidate, parts]
    exact ⟨rfl, rfl⟩
  have left : ∀ set way, (s.1.icacheInvalidate L addr).isValid set way = true →
      set ≠ setOf addr ∧ s.1.isValid set way = true := by
    intro set way valid
    rwa [icacheInvalidate_valid, Bool.and_eq_true, decide_eq_true_iff] at valid
  have marked : ∀ set way, set ≠ setOf addr →
      (s.1.icacheInvalidate L addr).isModified set way = s.1.isModified set way := by
    intro set way other
    rw [icacheInvalidate, parts]
    simp [isModified, other]
  refine ⟨⟨indexed, ?_, ?_, ?_⟩, rfl, ?_, ?_⟩
  · rw [same.1]
    exact h.whole
  · intro set way valid
    rw [same.2]
    exact h.proper set way (left set way valid).2
  · intro set way valid unmodified p entry
    obtain ⟨other, valid⟩ := left set way valid
    dsimp only at unmodified entry ⊢
    rw [marked set way other] at unmodified
    rw [same.2] at entry
    rw [same.1]
    exact h.clean set way valid unmodified p entry
  · intro p here
    refine view_missing ?_
    cases known : (s.1.icacheInvalidate L addr).lookup p.entry with
    | none => rfl
    | some way => exact absurd here (left _ _ (indexed.place_set known)).1
  · intro p there
    have kept : (s.1.icacheInvalidate L addr).lookup p.entry = s.1.lookup p.entry := by
      rcases foldl_updateLookup_cases (L := L) (fun _ => none) s.1
        ((List.finRange 8).map fun way => (setOf addr, way)) p.entry with
        ⟨line, member, valid, entry, -⟩ | ⟨-, kept⟩
      · obtain ⟨way, -, rfl⟩ := List.mem_map.mp member
        have right := (h.indexed.home _ _ valid).1
        rw [MemoryLayout.setOf_of_entry_eq entry] at right
        exact absurd right there
      · exact kept
    rw [view, view]
    dsimp only
    rw [kept, same.1]

/-! ## Flushing everything -/

theorem Coherent.flushLine {s : State} (h : Coherent L s) (mem : Memory) (line : Fin 128 × Fin 8)
    (p : Place L) :
    Cache.flushLine L s.1 mem line p.region p.offset =
      if s.1.isValid line.1 line.2 = true ∧ s.1.isModified line.1 line.2 = true ∧
        L.entry (s.1.addrs line.1 line.2) = p.entry then view s p
      else mem p.region p.offset := by
  rw [Cache.flushLine]
  split
  · rename_i valid
    obtain ⟨proper, aligned⟩ := h.proper line.1 line.2 valid
    rw [writeBack_place mem (h.whole _ _) proper aligned]
    simp only [valid, true_and]
    split
    · rename_i both
      rw [h.indexed.view_valid valid both.2]
    · rfl
  · rename_i invalid
    rw [if_neg fun all => invalid all.1]

theorem Coherent.flushLines {s : State} (h : Coherent L s) (mem : Memory)
    (ls : List (Fin 128 × Fin 8)) (p : Place L) :
    ls.foldl (Cache.flushLine L s.1) mem p.region p.offset = view s p ∨
      (∀ line ∈ ls, ¬ (s.1.isValid line.1 line.2 = true ∧ s.1.isModified line.1 line.2 = true ∧
        L.entry (s.1.addrs line.1 line.2) = p.entry)) ∧
      ls.foldl (Cache.flushLine L s.1) mem p.region p.offset = mem p.region p.offset := by
  induction ls generalizing mem with
  | nil => exact .inr ⟨by simp, rfl⟩
  | cons line ls ih =>
      rw [List.foldl_cons]
      rcases ih (Cache.flushLine L s.1 mem line) with seen | ⟨none, kept⟩
      · exact .inl seen
      · rw [kept, h.flushLine mem line p]
        split
        · exact .inl rfl
        · rename_i other
          refine .inr ⟨fun line' member => ?_, rfl⟩
          rcases List.mem_cons.mp member with rfl | later
          · exact other
          · exact none line' later

theorem coherent_reset (c : Cache) (mem : Memory) (whole : ∀ set way, (c.data set way).length = 32) :
    Coherent L (c.reset, mem) := by
  refine ⟨indexed_reset c, whole, fun set way valid => ?_, fun set way valid => ?_⟩ <;>
  · rw [show (c.reset, mem).1.isValid set way = false from hasBit_zero way] at valid
    cases valid

theorem Coherent.flushAll {s : State} (h : Coherent L s) :
    Synced L s (flushAll L s) fun _ => True := by
  have all : ∀ p : Place L, (Cache.flushAll L s).2 p.region p.offset = view s p := by
    intro p
    rw [Cache.flushAll]
    rcases h.flushLines s.2 lines p with seen | ⟨none, kept⟩
    · exact seen
    · refine kept.trans ?_
      cases known : s.1.lookup p.entry with
      | none => exact (view_missing known).symm
      | some way =>
          obtain ⟨set, valid, same⟩ := h.indexed.found _ _ known
          have unmodified : s.1.isModified set way = false := by
            cases modified : s.1.isModified set way with
            | false => rfl
            | true => exact absurd ⟨valid, modified, same⟩ (none (set, way) (mem_lines set way))
          rw [h.indexed.view_valid valid same, h.clean set way valid unmodified p same]
  refine ⟨coherent_reset s.1 _ h.whole, ?_, fun p _ => all p, fun p never => (never trivial).elim⟩
  funext p
  rw [← all p]
  rfl

/-! ## Runs -/

/-- An operation on the cache. `locked` is the lock bit of `HID0` at the time. -/
inductive Op where
  | read (addr : BitVec 32) (buffer : List Byte) (locked : Bool)
  | write (addr : BitVec 32) (bytes : List Byte) (locked : Bool)
  | touch (addr : BitVec 32)
  | store (addr : BitVec 32)
  | flush (addr : BitVec 32)
  | invalidate (addr : BitVec 32)
  /-- `icbi`, on the instruction cache. -/
  | invalidateSet (addr : BitVec 32)
  | flushAll
  deriving DecidableEq

def Op.apply (L : MemoryLayout) : Op → State → State
  | .read addr buffer locked, s => (Cache.read L s addr buffer locked).1
  | .write addr bytes locked, s => Cache.write L s addr bytes locked
  | .touch addr, s => Cache.touch L s addr
  | .store addr, s => Cache.store L s addr
  | .flush addr, s => Cache.flush L s addr
  | .invalidate addr, s => Cache.invalidate L s addr
  | .invalidateSet addr, s => (s.1.icacheInvalidate L addr, s.2)
  | .flushAll, s => Cache.flushAll L s

def run (L : MemoryLayout) (ops : List Op) (s : State) : State :=
  ops.foldl (fun s op => op.apply L s) s

def Op.Proper (L : MemoryLayout) : Op → Prop
  | .read addr buffer _ => ProperRange L addr buffer.length
  | .write addr bytes _ => ProperRange L addr bytes.length
  | .touch addr => L.Proper addr
  | .store addr => L.Proper addr
  | .flush addr => L.Proper addr
  | .invalidate addr => L.Proper addr
  | .invalidateSet _ => True
  | .flushAll => True

/-- What the operation means for a write-back memory. -/
def Op.action (L : MemoryLayout) : Op → WriteBack.Action (Place L) Byte
  | .read _ _ _ => .put []
  | .write addr bytes _ => .put (writes L addr bytes)
  | .touch _ => .put []
  | .store addr => .sync fun p => L.entry addr = p.entry
  | .flush addr => .sync fun p => L.entry addr = p.entry
  | .invalidate addr => .drop fun p => L.entry addr = p.entry
  | .invalidateSet addr => .drop fun p => p.set = setOf addr
  | .flushAll => .sync fun _ => True

/-- The write-back memory a cache and the guest memories make up. -/
def memory (L : MemoryLayout) (s : State) : WriteBack.Memory (Place L) Byte :=
  ⟨view s, fun p => s.2 p.region p.offset⟩

theorem Settled.step {s s' : State} (h : Settled L s s') :
    WriteBack.Step (.put []) (memory L s) (memory L s') :=
  .put (funext h.visible) fun p => (h.stored p).imp_right .inl

theorem Synced.step {s s' : State} {here : Place L → Prop} (h : Synced L s s' here) :
    WriteBack.Step (.sync here) (memory L s) (memory L s') := .sync h.visible h.stored h.kept

theorem Dropped.step {s s' : State} {here : Place L → Prop} (h : Dropped L s s' here) :
    WriteBack.Step (.drop here) (Cache.memory L s) (Cache.memory L s') :=
  .drop (funext fun p => congrFun (congrFun h.memory p.region) p.offset) h.forgotten h.kept

theorem Coherent.apply {s : State} (h : Coherent L s) {op : Op} (proper : op.Proper L) :
    Coherent L (op.apply L s) ∧
      WriteBack.Step (op.action L) (memory L s) (memory L (op.apply L s)) := by
  cases op with
  | read addr buffer locked =>
      obtain ⟨settled, -⟩ := h.read proper locked
      exact ⟨settled.coherent, settled.step⟩
  | write addr bytes locked =>
      have written := h.write proper locked
      exact ⟨written.coherent, .put written.visible written.stored⟩
  | touch addr =>
      have settled := h.getCache proper false
      exact ⟨settled.coherent, settled.step⟩
  | store addr =>
      have synced := h.store proper
      exact ⟨synced.coherent, synced.step⟩
  | flush addr =>
      have synced := h.flush proper
      exact ⟨synced.coherent, synced.step⟩
  | invalidate addr =>
      have dropped := h.invalidate proper
      exact ⟨dropped.coherent, dropped.step⟩
  | invalidateSet addr =>
      have dropped := h.invalidateSet addr
      exact ⟨dropped.coherent, dropped.step⟩
  | flushAll =>
      have synced := h.flushAll
      exact ⟨synced.coherent, synced.step⟩

theorem Coherent.run {s : State} (h : Coherent L s) {ops : List Op}
    (proper : ∀ op ∈ ops, op.Proper L) :
    Coherent L (run L ops s) ∧
      WriteBack.Run (ops.map (Op.action L)) (memory L s) (memory L (Cache.run L ops s)) := by
  induction ops generalizing s with
  | nil => exact ⟨h, .nil _⟩
  | cons op ops ih =>
      obtain ⟨coherent, step⟩ := h.apply (proper op List.mem_cons_self)
      obtain ⟨later, rest⟩ := ih coherent fun op' member => proper op' (List.mem_cons_of_mem _ member)
      exact ⟨later, .cons step rest⟩

theorem coherent_init (mem : Memory) : Coherent L (Cache.init, mem) :=
  coherent_reset _ mem fun _ _ => rfl

/-- A memory at its places. -/
def places (L : MemoryLayout) (mem : Memory) (p : Place L) : Byte := mem p.region p.offset

theorem memory_init (mem : Memory) : memory L (Cache.init, mem) = ⟨places L mem, places L mem⟩ := rfl

/-- Everything the operations write, in their order. -/
def written (L : MemoryLayout) (ops : List Op) : List (Place L × Byte) :=
  ops.flatMap fun op => (op.action L).writes

def Op.Keeps : Op → Prop
  | .invalidate _ => False
  | .invalidateSet _ => False
  | _ => True

instance : DecidablePred Op.Keeps := fun op => by
  cases op <;> simp only [Op.Keeps] <;> infer_instance

theorem Op.Keeps.action {op : Op} (keeps : op.Keeps) : (op.action L).Keeps := by
  cases op <;> first | exact trivial | exact keeps.elim

theorem Indexed.apply {s : State} (h : s.1.Indexed L) (op : Op) : (op.apply L s).1.Indexed L := by
  cases op with
  | read addr buffer locked => exact h.read addr buffer locked
  | write addr bytes locked => exact h.write addr bytes locked
  | touch addr => exact h.getCache addr false
  | store addr => exact h.store addr
  | flush addr => exact h.flush addr
  | invalidate addr => exact h.invalidate addr
  | invalidateSet addr => exact h.icacheInvalidate addr
  | flushAll => exact indexed_reset _

theorem Indexed.run {s : State} (h : s.1.Indexed L) (ops : List Op) :
    (run L ops s).1.Indexed L := by
  induction ops generalizing s with
  | nil => exact h
  | cons op ops ih => exact ih (h.apply op)

/-- Loading a save state over any cache gives the cache that was saved, although the lookup
tables are not part of it and are only corrected where the caches hold blocks. -/
theorem load_restores (mem mem' : Memory) (ops ops' : List Op) :
    doStateRead L (run L ops (Cache.init, mem)).1 (run L ops' (Cache.init, mem')).1 =
      (run L ops' (Cache.init, mem')).1 :=
  doStateRead_eq (Indexed.run (s := (Cache.init, mem)) (indexed_reset _) ops)
    (Indexed.run (s := (Cache.init, mem')) (indexed_reset _) ops')

/-! ## A retail console -/

/-- `MEM1_SIZE_RETAIL`, `MEM2_SIZE_RETAIL` and the size of the fake VMEM. -/
def retail : MemoryLayout where
  ramSizeReal := 0x01800000
  exRamSizeReal := 0x04000000
  fakeVMemSize := 0x02000000
  hasExRam := true
  ram_bounds := by decide
  exRam_bounds := by decide
  fakeVMem_bounds := by decide

theorem proper_of_backed {addr : BitVec 32}
    (inside : addr.toNat % 2 ^ 28 < L.sizeReal (Table.ofAddress addr)) : L.Proper addr :=
  .inr (Nat.lt_of_lt_of_le inside (L.sizeReal_le _))

/-- Two words in blocks of one set and a touch of the first block in between. -/
def accesses : List Op :=
  [.write 0x80001000#32 [1, 2, 3, 4] false, .write 0x80002004#32 [5, 6] true, .touch 0x80001000#32]

theorem accesses_proper : ∀ op ∈ accesses, op.Proper retail := by
  intro op member
  have near : ∀ i < 4, retail.Proper (0x80001000#32 + BitVec.ofNat 32 i) := by
    intro i lt
    apply proper_of_backed
    revert i
    decide
  have far : ∀ i < 2, retail.Proper (0x80002004#32 + BitVec.ofNat 32 i) := by
    intro i lt
    apply proper_of_backed
    revert i
    decide
  simp only [accesses, List.mem_cons, List.not_mem_nil, or_false] at member
  rcases member with rfl | rfl | rfl
  · exact near
  · exact far
  · exact near 0 (by decide)

end Phocoena.PowerPC.Cache
