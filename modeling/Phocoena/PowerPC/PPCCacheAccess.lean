import Phocoena.Lib.WriteBack
import Phocoena.PowerPC.PPCCacheCoherent

/-! # What reads and writes do

An access goes through the blocks of its range one after the other. Getting a block settles the
cache: the bytes a program finds stay as they are, and memory takes over some of them.
-/

namespace Phocoena.PowerPC.Cache

open WriteBack (overwrite)

variable {L : MemoryLayout}

/-! ## Getting a block -/

/-- The cache changed without any byte changing for the program. -/
structure Settled (L : MemoryLayout) (s s' : State) : Prop where
  coherent : Coherent L s'
  visible : ∀ p : Place L, view s' p = view s p
  stored : ∀ p : Place L, s'.2 p.region p.offset = s.2 p.region p.offset ∨
    s'.2 p.region p.offset = view s p

theorem Coherent.settled {s : State} (h : Coherent L s) : Settled L s s :=
  ⟨h, fun _ => rfl, fun _ => .inl rfl⟩

theorem Settled.trans {s s₁ s' : State} (first : Settled L s s₁) (second : Settled L s₁ s') :
    Settled L s s' where
  coherent := second.coherent
  visible p := by rw [second.visible, first.visible]
  stored p := by
    rcases second.stored p with old | seen
    · rw [old]
      exact first.stored p
    · rw [seen, first.visible]
      exact .inr rfl

theorem Settled.updatePlru {s s' : State} (h : Settled L s s') (set : Fin 128) (way : Fin 8) :
    Settled L s (s'.1.updatePlru set way, s'.2) :=
  ⟨⟨h.coherent.indexed, h.coherent.whole, h.coherent.proper, h.coherent.clean⟩, h.visible, h.stored⟩

theorem Coherent.getCache {s : State} (h : Coherent L s) {addr : BitVec 32}
    (proper : L.Proper addr) (locked : Bool) : Settled L s (getCache L s addr locked).1 := by
  simp only [Cache.getCache]
  cases known : s.1.lookup (L.entry (blockOf addr)) with
  | some way => exact h.settled.updatePlru _ _
  | none =>
      cases locked with
      | true => exact h.settled
      | false =>
          have aligned := MemoryLayout.blockOf_blockOf addr
          have loaded : ∀ way, Settled L s (Cache.loadBlock L s (blockOf addr) way) := fun way =>
            ⟨h.loadBlock way (proper.congr aligned.symm) aligned known,
              h.view_loadBlock way (proper.congr aligned.symm) aligned known, h.evict_stored _ _⟩
          exact (loaded _).updatePlru _ _

theorem getCache_result (s : State) (addr : BitVec 32) (locked : Bool) :
    (getCache L s addr locked).2 =
      (setOf addr, (getCache L s addr locked).1.1.lookup (L.entry addr)) := by
  simp only [getCache, MemoryLayout.setOf_blockOf, L.entry_blockOf]
  cases known : s.1.lookup (L.entry addr) with
  | some way => exact Prod.ext rfl known.symm
  | none =>
      cases locked with
      | true => exact Prod.ext rfl known.symm
      | false =>
          refine Prod.ext rfl ?_
          have loaded := @loadBlock_lookup L s (blockOf addr) (s.1.selectWay (setOf addr)) (L.entry addr)
          rw [loadBlock, MemoryLayout.setOf_blockOf, L.entry_blockOf, if_pos rfl] at loaded
          exact loaded.symm

theorem getCache_locked (s : State) (addr : BitVec 32) : (getCache L s addr true).1.2 = s.2 := by
  simp only [getCache]
  cases s.1.lookup (L.entry (blockOf addr)) <;> rfl

/-! ## The bytes of a range -/

/-- The places and bytes that writing the bytes from an address on means. -/
def writes (L : MemoryLayout) : BitVec 32 → List Byte → List (Place L × Byte)
  | _, [] => []
  | addr, b :: bs => ((L.placeOf addr).map fun p => (p, b)).toList ++ writes L (addr + 1#32) bs

theorem writes_append (addr : BitVec 32) (bs cs : List Byte) :
    writes L addr (bs ++ cs) = writes L addr bs ++ writes L (addr + BitVec.ofNat 32 bs.length) cs := by
  induction bs generalizing addr with
  | nil => simp [writes]
  | cons b bs ih =>
      have next : addr + 1#32 + BitVec.ofNat 32 bs.length =
          addr + BitVec.ofNat 32 (bs.length + 1) := by
        rw [BitVec.add_assoc, Nat.add_comm bs.length, BitVec.ofNat_add]
      rw [List.cons_append, writes, writes, ih, next, List.append_assoc, List.length_cons]

theorem toNat_add_of_block {addr : BitVec 32} {i : Nat} (fits : addr.toNat % 32 + i < 32) :
    (addr + BitVec.ofNat 32 i).toNat = addr.toNat + i := by
  have := addr.isLt
  rw [BitVec.toNat_add, BitVec.toNat_ofNat]
  omega

theorem blockOf_add {addr : BitVec 32} {i : Nat} (fits : addr.toNat % 32 + i < 32) :
    blockOf (addr + BitVec.ofNat 32 i) = blockOf addr := by
  apply BitVec.eq_of_toNat_eq
  rw [blockOf_eq, blockOf_eq, toNat_add_of_block fits]
  omega

theorem Proper.placeOf_iff {addr : BitVec 32} (proper : L.Proper addr) {p : Place L} :
    L.placeOf addr = some p ↔ L.entry addr = p.entry ∧ p.offset % 32 = addr.toNat % 32 := by
  constructor
  · intro means
    obtain ⟨-, offset⟩ := MemoryLayout.placeOf_iff.mp means
    exact ⟨MemoryLayout.entry_of_place means, by omega⟩
  · rintro ⟨same, low⟩
    obtain ⟨q, means, region, block, at_byte⟩ := proper.place same
    rw [means]
    exact congrArg some (Place.ext region (by omega))

theorem overwrite_single {addr : BitVec 32} (proper : L.Proper addr) (b : Byte)
    (f : Place L → Byte) (p : Place L) :
    overwrite f (writes L addr [b]) p =
      if L.entry addr = p.entry ∧ p.offset % 32 = addr.toNat % 32 then b else f p := by
  cases means : L.placeOf addr with
  | none =>
      rw [if_neg fun both => by rw [(Proper.placeOf_iff proper).mpr both] at means; cases means]
      simp [writes, means, overwrite]
  | some q =>
      simp only [writes, means, Option.map_some, Option.toList_some, overwrite, List.append_nil,
        List.foldl_cons, List.foldl_nil]
      by_cases here : p = q
      · rw [here, Function.update_self, if_pos ((Proper.placeOf_iff proper).mp means)]
      · rw [Function.update_of_ne here, if_neg]
        intro both
        rw [(Proper.placeOf_iff proper).mpr both] at means
        exact here (Option.some.inj means)

/-- Writing bytes within one block. -/
theorem overwrite_writes {addr : BitVec 32} (proper : L.Proper addr) {bs : List Byte}
    (fits : addr.toNat % 32 + bs.length ≤ 32) (f : Place L → Byte) (p : Place L) :
    overwrite f (writes L addr bs) p =
      if L.entry addr = p.entry ∧ addr.toNat % 32 ≤ p.offset % 32 then
        (bs[p.offset % 32 - addr.toNat % 32]?).getD (f p)
      else f p := by
  induction bs using List.reverseRecOn with
  | nil => simp [writes, overwrite]
  | append_singleton bs b ih =>
      rw [List.length_append, List.length_singleton] at fits
      have within : addr.toNat % 32 + bs.length < 32 := by omega
      rw [writes_append, WriteBack.overwrite_append,
        overwrite_single (proper.congr (blockOf_add within).symm), ih (by omega),
        L.entry_congr (blockOf_add within), toNat_add_of_block within, List.getElem?_append]
      by_cases same : L.entry addr = p.entry
      · simp only [same, true_and]
        by_cases after : addr.toNat % 32 ≤ p.offset % 32
        · simp only [after, if_true]
          rcases Nat.lt_trichotomy (p.offset % 32 - addr.toNat % 32) bs.length with lt | eq | gt
          · rw [if_neg (by omega), if_pos lt]
          · rw [if_pos (by omega), if_neg (by omega), eq, Nat.sub_self]
            rfl
          · rw [if_neg (by omega), if_neg (by omega), List.getElem?_eq_none (by omega),
              List.getElem?_eq_none (by simp; omega)]
        · rw [if_neg (by omega), if_neg after, if_neg after]
      · simp only [same, false_and, if_false]

/-! ## One block of an access -/

theorem Coherent.readPart {s : State} (h : Coherent L s) {addr : BitVec 32} (proper : L.Proper addr)
    (value : List Byte) (locked : Bool) : Settled L s (readPart L s addr value locked).1 := by
  have settled := h.getCache proper locked
  simp only [Cache.readPart]
  split <;>
  · rename_i got
    rw [got] at settled
    exact settled

theorem Coherent.length_readPart {s : State} (h : Coherent L s) {addr : BitVec 32}
    (proper : L.Proper addr) {value : List Byte} (fits : addr.toNat % 32 + value.length ≤ 32)
    (locked : Bool) : (Cache.readPart L s addr value locked).2.length = value.length := by
  have settled := h.getCache proper locked
  simp only [Cache.readPart]
  split
  · rename_i set way got
    rw [got] at settled
    dsimp only
    rw [List.length_take, List.length_drop, settled.coherent.whole, offsetInBlock_eq]
    omega
  · exact MemoryLayout.length_copyFromEmu ..

/-- The bytes read are those a program finds at their places. -/
theorem Coherent.readPart_get {s : State} (h : Coherent L s) {addr : BitVec 32}
    (proper : L.Proper addr) {value : List Byte} (fits : addr.toNat % 32 + value.length ≤ 32)
    (locked : Bool) {i : Nat} (lt : i < value.length) {p : Place L} (same : L.entry addr = p.entry)
    (low : p.offset % 32 = addr.toNat % 32 + i) :
    (Cache.readPart L s addr value locked).2[i]? = some (view s p) := by
  have settled := h.getCache proper locked
  have result := getCache_result (L := L) s addr locked
  rw [← settled.visible p]
  simp only [Cache.readPart]
  split
  · rename_i s₁ set way got
    rw [got] at settled result ⊢
    simp only [Prod.mk.injEq] at result
    obtain ⟨rfl, found⟩ := result
    have whole : (s₁.1.data (setOf addr) way).length = 32 := settled.coherent.whole _ _
    dsimp only
    rw [view, ← same, ← found]
    dsimp only
    rw [← MemoryLayout.setOf_of_entry_eq same, List.getElem?_take_of_lt lt, List.getElem?_drop,
      offsetInBlock_eq, ← low, List.getElem?_eq_getElem (by omega), List.getD_eq_getElem?_getD,
      List.getElem?_eq_getElem (by omega)]
    rfl
  · rename_i s₁ set got
    rw [got] at settled result ⊢
    simp only [Prod.mk.injEq] at result
    obtain ⟨q, means, region, block, at_start⟩ := proper.place same
    rw [view_missing (by rw [← same, ← result.2]), MemoryLayout.copyFromEmu_place means _ fits,
      List.getElem?_map, List.getElem?_range lt, region]
    rw [Option.map_some, show q.offset + i = p.offset by omega]

theorem length_patch {block bytes : List Byte} {offset : Nat} (whole : block.length = 32)
    (fits : offset + bytes.length ≤ 32) : (patch block offset bytes).length = 32 := by
  simp only [patch, List.length_append, List.length_take, List.length_drop]
  omega

theorem getD_patch {block bytes : List Byte} {offset : Nat} (whole : block.length = 32)
    (fits : offset + bytes.length ≤ 32) (i : Nat) :
    (patch block offset bytes).getD i 0 =
      if offset ≤ i then (bytes[i - offset]?).getD (block.getD i 0) else block.getD i 0 := by
  rw [List.getD_eq_getElem?_getD, List.getD_eq_getElem?_getD, patch, List.append_assoc,
    List.getElem?_append, List.length_take, Nat.min_eq_left (by omega)]
  by_cases before : i < offset
  · rw [if_pos before, if_neg (by omega), List.getElem?_take_of_lt before]
  · rw [if_neg before, if_pos (by omega), List.getElem?_append]
    by_cases inside : i - offset < bytes.length
    · rw [if_pos inside, List.getElem?_eq_getElem inside]
      rfl
    · rw [if_neg inside, List.getElem?_eq_none (l := bytes) (by omega), List.getElem?_drop,
        show offset + bytes.length + (i - offset - bytes.length) = i by omega]
      rfl

/-- The state after a write, seen from the state before it. -/
structure Written (L : MemoryLayout) (s s' : State) (addr : BitVec 32) (bytes : List Byte) : Prop where
  coherent : Coherent L s'
  visible : (view s' : Place L → Byte) = overwrite (view s) (writes L addr bytes)
  stored : ∀ p : Place L, s'.2 p.region p.offset = s.2 p.region p.offset ∨
    s'.2 p.region p.offset = view s p ∨ (p, s'.2 p.region p.offset) ∈ writes L addr bytes

/-- The branch of `Write` for a block in the cache. -/
def putBlock (s : State) (set : Fin 128) (way : Fin 8) (offset : Nat) (value : List Byte) : State :=
  ({ s.1 with
      data := put s.1.data set way (patch (s.1.data set way) offset value)
      modified := Function.update s.1.modified set (setBit (s.1.modified set) way) }, s.2)

theorem putBlock_modified (s : State) (set : Fin 128) (way : Fin 8) (offset : Nat)
    (value : List Byte) :
    (putBlock s set way offset value).1.isModified = put s.1.isModified set way true :=
  hasBit_update_setBit s.1.modified set way

theorem Coherent.putBlock {s : State} (h : Coherent L s) {addr : BitVec 32} (proper : L.Proper addr)
    {value : List Byte} (fits : addr.toNat % 32 + value.length ≤ 32) {way : Fin 8}
    (found : s.1.lookup (L.entry addr) = some way) :
    Written L s (putBlock s (setOf addr) way (addr.toNat % 32) value) addr value where
  coherent := {
    indexed := h.indexed
    whole := by
      intro set w
      show (put s.1.data _ way _ set w).length = 32
      rw [put_apply]
      split
      · exact length_patch (h.whole _ _) fits
      · exact h.whole set w
    proper := h.proper
    clean := by
      intro set w valid unmodified p same
      rw [putBlock_modified, put_apply] at unmodified
      split at unmodified
      · cases unmodified
      · rename_i other
        show (put s.1.data _ way _ set w).getD _ 0 = _
        rw [put_apply, if_neg other]
        exact h.clean set w valid unmodified p same }
  visible := by
    funext p
    rw [overwrite_writes proper fits]
    show view (Cache.putBlock s (setOf addr) way (addr.toNat % 32) value) p = _
    rw [view, Cache.putBlock]
    dsimp only
    by_cases same : L.entry addr = p.entry
    · have seen : view s p = (s.1.data (setOf addr) way).getD (p.offset % 32) 0 := by
        rw [view, ← same, found, ← MemoryLayout.setOf_of_entry_eq same]
      rw [← same, found, ← MemoryLayout.setOf_of_entry_eq same]
      dsimp only
      rw [put_same, getD_patch (h.whole _ _) fits, seen]
      simp only [true_and]
    · rw [if_neg fun both => same both.1, view]
      cases known : s.1.lookup p.entry with
      | none => rfl
      | some w =>
          dsimp only
          rw [put_apply, if_neg]
          rintro ⟨same_set, rfl⟩
          have here := h.indexed.at_set found
          obtain ⟨set, valid, entry⟩ := h.indexed.found _ _ known
          have right : set = setOf addr := by
            rw [← (h.indexed.home set w valid).1, MemoryLayout.setOf_of_entry_eq entry, same_set]
          rw [right] at entry
          exact same (here.2.symm.trans entry)
  stored _ := .inl rfl

/-- The branch of `Write` for a block that stays out of the cache. -/
theorem Coherent.putMemory {s : State} (h : Coherent L s) {addr : BitVec 32} (proper : L.Proper addr)
    {value : List Byte} (fits : addr.toNat % 32 + value.length ≤ 32)
    (missing : s.1.lookup (L.entry addr) = none) :
    Written L s (s.1, L.copyToEmu s.2 addr value) addr value := by
  have elsewhere : ∀ p : Place L, L.entry addr ≠ p.entry →
      L.copyToEmu s.2 addr value p.region p.offset = s.2 p.region p.offset := by
    intro p other
    rw [MemoryLayout.copyToEmu_place proper s.2 fits, if_neg fun both => other both.1]
  have visible : (view (s.1, L.copyToEmu s.2 addr value) : Place L → Byte) =
      overwrite (view s) (writes L addr value) := by
    funext p
    rw [overwrite_writes proper fits]
    by_cases same : L.entry addr = p.entry
    · have gone : s.1.lookup p.entry = none := by rw [← same, missing]
      have now : view (s.1, L.copyToEmu s.2 addr value) p =
          L.copyToEmu s.2 addr value p.region p.offset := view_missing gone
      rw [now, MemoryLayout.copyToEmu_place proper s.2 fits, view_missing gone]
    · rw [if_neg fun both => same both.1, view, view]
      cases known : s.1.lookup p.entry with
      | none => exact elsewhere p same
      | some w => rfl
  refine ⟨⟨h.indexed, h.whole, h.proper, ?_⟩, visible, ?_⟩
  · intro set way valid unmodified p same
    rw [h.clean set way valid unmodified p same]
    refine (elsewhere p fun here => ?_).symm
    have known := (h.indexed.home set way valid).2
    rw [same, ← here, missing] at known
    cases known
  · intro p
    by_cases same : L.entry addr = p.entry
    · have now : view (s.1, L.copyToEmu s.2 addr value) p =
          L.copyToEmu s.2 addr value p.region p.offset := view_missing (by rw [← same, missing])
      have cases := WriteBack.overwrite_cases (view s) (writes L addr value) p
      rw [← visible, now] at cases
      exact .inr cases
    · exact .inl (elsewhere p same)

theorem Settled.written {s s₁ s' : State} {addr : BitVec 32} {bytes : List Byte}
    (first : Settled L s s₁) (second : Written L s₁ s' addr bytes) : Written L s s' addr bytes where
  coherent := second.coherent
  visible := by rw [second.visible, show (view s₁ : Place L → Byte) = view s from funext first.visible]
  stored p := by
    rcases second.stored p with old | seen | new
    · rw [old]
      exact (first.stored p).imp_right .inl
    · rw [seen, first.visible]
      exact .inr (.inl rfl)
    · exact .inr (.inr new)

theorem Coherent.writePart {s : State} (h : Coherent L s) {addr : BitVec 32} (proper : L.Proper addr)
    {value : List Byte} (fits : addr.toNat % 32 + value.length ≤ 32) (locked : Bool) :
    Written L s (writePart L s addr value locked) addr value := by
  have settled := h.getCache proper locked
  have result := getCache_result (L := L) s addr locked
  simp only [Cache.writePart]
  split
  · rename_i s₁ set way got
    rw [got] at settled result
    simp only [Prod.mk.injEq] at result
    obtain ⟨rfl, found⟩ := result
    have written := settled.coherent.putBlock proper fits found.symm
    rw [← offsetInBlock_eq] at written
    exact settled.written written
  · rename_i s₁ set got
    rw [got] at settled result
    simp only [Prod.mk.injEq] at result
    exact settled.written (settled.coherent.putMemory proper fits result.2.symm)

/-! ## Whole accesses -/

theorem Written.append {s s₁ s' : State} {addr : BitVec 32} {bs cs : List Byte}
    (first : Written L s s₁ addr bs) (second : Written L s₁ s' (addr + BitVec.ofNat 32 bs.length) cs) :
    Written L s s' addr (bs ++ cs) where
  coherent := second.coherent
  visible := by rw [second.visible, first.visible, writes_append, WriteBack.overwrite_append]
  stored p := by
    rw [writes_append, List.mem_append]
    rcases second.stored p with old | seen | new
    · rw [old]
      exact (first.stored p).imp_right (Or.imp_right .inl)
    · rw [seen, first.visible]
      exact .inr ((WriteBack.overwrite_cases ..).imp_right .inl)
    · exact .inr (.inr (.inr new))

theorem add_ofNat (addr : BitVec 32) (m n : Nat) :
    addr + BitVec.ofNat 32 m + BitVec.ofNat 32 n = addr + BitVec.ofNat 32 (m + n) := by
  rw [BitVec.add_assoc, BitVec.ofNat_add]

/-- Every address of a range is proper. -/
def ProperRange (L : MemoryLayout) (addr : BitVec 32) (n : Nat) : Prop :=
  ∀ i < n, L.Proper (addr + BitVec.ofNat 32 i)

theorem ProperRange.first {addr : BitVec 32} {n : Nat} (proper : ProperRange L addr n) (pos : 0 < n) :
    L.Proper addr := by
  have := proper 0 pos
  rwa [show addr + BitVec.ofNat 32 0 = addr by simp] at this

theorem ProperRange.drop {addr : BitVec 32} {n : Nat} (proper : ProperRange L addr n) (m : Nat) :
    ProperRange L (addr + BitVec.ofNat 32 m) (n - m) := by
  intro i lt
  rw [add_ofNat]
  exact proper (m + i) (by omega)

theorem Coherent.write {s : State} (h : Coherent L s) {addr : BitVec 32} {buffer : List Byte}
    (proper : ProperRange L addr buffer.length) (locked : Bool) :
    Written L s (write L s addr buffer locked) addr buffer := by
  fun_induction Cache.write L s addr buffer locked with
  | case1 s addr buffer more len s₁ ih =>
      have short : len = min buffer.length (32 - addr.toNat % 32) := lenInBlock_eq ..
      have taken : (buffer.take len).length = len := by
        rw [List.length_take]
        omega
      have fits : addr.toNat % 32 + (buffer.take len).length ≤ 32 := by omega
      have first := h.writePart (proper.first more) fits locked
      have rest := ih first.coherent (by rw [List.length_drop]; exact proper.drop len)
      rw [← taken] at rest
      have both := first.append rest
      rwa [taken, List.take_append_drop] at both
  | case2 s addr buffer none =>
      obtain rfl : buffer = [] := List.length_eq_zero_iff.mp (by omega)
      exact ⟨h, rfl, fun _ => .inl rfl⟩

/-- What a read gives back. -/
structure Answer (L : MemoryLayout) (s : State) (addr : BitVec 32) (n : Nat) (out : List Byte) : Prop where
  length : out.length = n
  bytes : ∀ i < n, ∀ p, L.placeOf (addr + BitVec.ofNat 32 i) = some p → out[i]? = some (view s p)

theorem Coherent.read {s : State} (h : Coherent L s) {addr : BitVec 32} {buffer : List Byte}
    (proper : ProperRange L addr buffer.length) (locked : Bool) :
    Settled L s (read L s addr buffer locked).1 ∧
      Answer L s addr buffer.length (Cache.read L s addr buffer locked).2 := by
  fun_induction Cache.read L s addr buffer locked with
  | case1 s addr buffer more len s₁ value part s₂ rest got ih =>
      have short : len = min buffer.length (32 - addr.toNat % 32) := lenInBlock_eq ..
      have taken : (buffer.take len).length = len := by
        rw [List.length_take]
        omega
      have fits : addr.toNat % 32 + (buffer.take len).length ≤ 32 := by omega
      have first := h.readPart (proper.first more) (buffer.take len) locked
      have long := h.length_readPart (proper.first more) fits locked
      have get := fun i lt p => h.readPart_get (proper.first more) fits locked (i := i) lt (p := p)
      rw [part] at first long get
      obtain ⟨later, answer⟩ := ih first.coherent (by rw [List.length_drop]; exact proper.drop len)
      rw [got] at later answer
      rw [List.length_drop] at answer
      refine ⟨first.trans later, ?_, ?_⟩
      · rw [List.length_append, long, taken, answer.length]
        omega
      · intro i lt p means
        dsimp only at long get
        by_cases here : i < len
        · have within : addr.toNat % 32 + i < 32 := by omega
          obtain ⟨-, offset⟩ := MemoryLayout.placeOf_iff.mp means
          rw [toNat_add_of_block within] at offset
          rw [List.getElem?_append_left (by omega)]
          refine get i (by omega) p ?_ (by omega)
          rw [← MemoryLayout.entry_of_place means, L.entry_congr (blockOf_add within)]
        · rw [List.getElem?_append_right (by omega), long, taken, ← first.visible p]
          refine answer.bytes (i - len) (by omega) p ?_
          rw [add_ofNat, show len + (i - len) = i by omega, means]
  | case2 s addr buffer none =>
      have empty : buffer.length = 0 := by omega
      refine ⟨h.settled, empty.symm, fun i lt => ?_⟩
      omega

end Phocoena.PowerPC.Cache
