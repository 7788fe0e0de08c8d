import Phocoena.PowerPC.PPCCacheIndex

/-! # The bytes behind the cache

A place is a byte of one of the guest memories whose whole block is backed. Several addresses
can mean a place; they all have its entry in the lookup tables. An address is proper when it
has no bits beyond the ones its table is indexed with, so that it does not share an entry with a
place it does not mean.
-/

namespace Phocoena.PowerPC

def Region.table : Region → Table
  | .ram => .ram
  | .exRam => .exRam

namespace MemoryLayout

/-- The memory the addresses of a table mean. -/
def backing (L : MemoryLayout) : Table → Option Region
  | .ram => some .ram
  | .exRam => if L.hasExRam then some .exRam else none
  | .vmem => none

theorem table_of_backing {L : MemoryLayout} {t : Table} {r : Region} (backs : L.backing t = some r) :
    t = r.table := by
  cases t with
  | ram =>
      cases backs
      rfl
  | exRam =>
      simp only [backing] at backs
      split at backs
      · cases backs
        rfl
      · cases backs
  | vmem => cases backs

def Proper (L : MemoryLayout) (addr : BitVec 32) : Prop :=
  Table.ofAddress addr = .vmem ∨ addr.toNat % 2 ^ 28 < L.size (Table.ofAddress addr)

instance (L : MemoryLayout) (addr : BitVec 32) : Decidable (L.Proper addr) :=
  inferInstanceAs (Decidable (_ ∨ _))

theorem mod_size (L : MemoryLayout) (t : Table) (n : Nat) :
    n % 2 ^ 28 % L.size t = n % L.size t := by
  obtain ⟨k, size, -, high⟩ := L.size_eq t
  rw [size]
  exact Nat.mod_mod_of_dvd n (Nat.pow_dvd_pow 2 high)

theorem and_exRamMask (L : MemoryLayout) (addr : BitVec 32) :
    (addr &&& L.exRamMask).toNat = addr.toNat % L.size .exRam := L.and_mask .exRam addr

theorem getPointerForRange_iff (L : MemoryLayout) (addr : BitVec 32) (n : Nat) (r : Region)
    (o : Nat) :
    L.getPointerForRange addr n = some (r, o) ↔
      L.backing (Table.ofAddress addr) = some r ∧ o = addr.toNat % 2 ^ 28 ∧
        o < L.sizeReal r.table ∧ o + n ≤ L.sizeReal r.table := by
  have low : (addr &&& 0x3FFFFFFF#32).toNat = addr.toNat % 2 ^ 30 := by
    rw [BitVec.toNat_and]
    exact Nat.and_two_pow_sub_one_eq_mod _ 30
  have lower : (addr &&& 0x3FFFFFFF#32 &&& 0x0FFFFFFF#32).toNat = addr.toNat % 2 ^ 28 := by
    rw [BitVec.toNat_and, low, show (0x0FFFFFFF#32).toNat = 2 ^ 28 - 1 by decide,
      Nat.and_two_pow_sub_one_eq_mod]
    omega
  have upper : (addr &&& 0x3FFFFFFF#32) >>> 28 = 1#32 ↔ addr.toNat % 2 ^ 30 / 2 ^ 28 = 1 := by
    rw [← BitVec.toNat_inj, BitVec.toNat_ushiftRight, low, Nat.shiftRight_eq_div_pow]
    rfl
  have real := L.ram_bounds
  have real' := L.exRam_bounds
  rw [getPointerForRange, getSpanForAddress]
  simp only [low, lower, upper]
  by_cases ram : addr.toNat % 2 ^ 30 < L.ramSizeReal
  · have table : Table.ofAddress addr = .ram := by
      rw [ofAddress_eq, if_neg (by omega), if_neg (by omega)]
    rw [if_pos ram, table]
    simp only [backing, Option.some.injEq]
    constructor
    · intro got
      split at got
      · cases got
      · cases got
        refine ⟨rfl, by omega, ?_, ?_⟩ <;> simp only [Region.table, sizeReal] <;> omega
    · rintro ⟨rfl, rfl, inside, fits⟩
      simp only [Region.table, sizeReal] at fits inside
      rw [if_neg (by omega)]
      simp only [Option.some.injEq, Prod.mk.injEq, true_and]
      omega
  · rw [if_neg ram]
    have masked : (addr &&& 0x3FFFFFFF#32 &&& L.exRamMask).toNat =
        addr.toNat % 2 ^ 28 % L.size .exRam := by
      rw [and_exRamMask, low, ← mod_size]
      congr 1
      omega
    by_cases ex : L.hasExRam = true ∧ addr.toNat % 2 ^ 30 / 2 ^ 28 = 1 ∧
        addr.toNat % 2 ^ 28 < L.exRamSizeReal
    · have table : Table.ofAddress addr = .exRam := by
        rw [ofAddress_eq, if_neg (by omega), if_pos (by omega)]
      have whole : addr.toNat % 2 ^ 28 % L.size .exRam = addr.toNat % 2 ^ 28 :=
        Nat.mod_eq_of_lt (Nat.lt_of_lt_of_le ex.2.2 (L.sizeReal_le .exRam))
      rw [if_pos ex, masked, table, whole]
      simp only [backing, ex.1, if_true, Option.some.injEq]
      constructor
      · intro got
        split at got
        · cases got
        · cases got
          refine ⟨rfl, rfl, ?_, ?_⟩ <;> simp only [Region.table, sizeReal] <;> omega
      · rintro ⟨rfl, rfl, inside, fits⟩
        simp only [Region.table, sizeReal] at fits inside
        rw [if_neg (by omega)]
    · rw [if_neg ex]
      constructor
      · intro got
        cases got
      · rintro ⟨backs, rfl, inside, fits⟩
        exfalso
        rw [ofAddress_eq] at backs
        split at backs
        · cases backs
        · split at backs
          · simp only [backing] at backs
            split at backs
            · rename_i exRam
              cases backs
              exact ex ⟨exRam, by omega, inside⟩
            · cases backs
          · cases backs
            simp only [Region.table, sizeReal] at inside
            omega

end MemoryLayout

/-- A byte of a guest memory in a block that is backed as a whole. -/
structure Place (L : MemoryLayout) where
  region : Region
  offset : Nat
  present : L.backing region.table = some region
  backed : offset / 32 * 32 + 32 ≤ L.sizeReal region.table

namespace Place

variable {L : MemoryLayout}

theorem ext {p q : Place L} (region : p.region = q.region) (offset : p.offset = q.offset) : p = q := by
  cases p
  cases q
  cases region
  cases offset
  rfl

instance : DecidableEq (Place L) := fun p q =>
  decidable_of_iff (p.region = q.region ∧ p.offset = q.offset)
    ⟨fun same => ext same.1 same.2, fun same => by rw [same]; exact ⟨rfl, rfl⟩⟩

def entry (p : Place L) : Table × Nat := (p.region.table, p.offset / 32)

def set (p : Place L) : Fin 128 := ⟨p.offset / 32 % 128, Nat.mod_lt _ (by decide)⟩

end Place

namespace MemoryLayout

/-- The place an address means. -/
def placeOf (L : MemoryLayout) (addr : BitVec 32) : Option (Place L) :=
  match backs : L.backing (Table.ofAddress addr) with
  | none => none
  | some region =>
      if backed : addr.toNat % 2 ^ 28 / 32 * 32 + 32 ≤ L.sizeReal region.table then
        some ⟨region, addr.toNat % 2 ^ 28, table_of_backing backs ▸ backs, backed⟩
      else none

variable {L : MemoryLayout}

theorem placeOf_iff {addr : BitVec 32} {p : Place L} :
    L.placeOf addr = some p ↔
      Table.ofAddress addr = p.region.table ∧ p.offset = addr.toNat % 2 ^ 28 := by
  rw [placeOf]
  split
  · rename_i backs
    constructor
    · intro got
      cases got
    · rintro ⟨table, -⟩
      rw [table, p.present] at backs
      cases backs
  · rename_i region backs
    have table := table_of_backing backs
    constructor
    · intro got
      split at got
      · cases got
        exact ⟨table, rfl⟩
      · cases got
    · rintro ⟨table', offset⟩
      obtain rfl : region = p.region := by
        rw [table', p.present] at backs
        exact (Option.some.inj backs).symm
      rw [dif_pos (by rw [← offset]; exact p.backed)]
      exact congrArg some (Place.ext rfl offset.symm)

/-- Being proper is a matter of the block. -/
theorem Proper.congr {a b : BitVec 32} (proper : L.Proper a) (same : blockOf a = blockOf b) :
    L.Proper b := by
  have block := congrArg BitVec.toNat same
  rw [blockOf_eq, blockOf_eq] at block
  have table : Table.ofAddress b = Table.ofAddress a := ofAddress_congr (by omega)
  obtain ⟨k, size, low, -⟩ := L.size_eq (Table.ofAddress a)
  obtain ⟨m, split⟩ : 32 ∣ L.size (Table.ofAddress a) := by
    rw [size]
    exact Nat.pow_dvd_pow 2 (by omega : 5 ≤ k)
  rw [Proper, table]
  refine proper.imp_right fun inside => ?_
  omega

theorem entry_of_place {addr : BitVec 32} {p : Place L} (means : L.placeOf addr = some p) :
    L.entry addr = p.entry := by
  obtain ⟨table, offset⟩ := placeOf_iff.mp means
  have backed := p.backed
  have inside : p.offset < L.size p.region.table := by
    have := L.sizeReal_le p.region.table
    omega
  rw [entry_eq, table, ← mod_size, ← offset, Nat.mod_eq_of_lt inside, Place.entry]

theorem setOf_of_entry_eq {addr : BitVec 32} {p : Place L} (same : L.entry addr = p.entry) :
    setOf addr = p.set := by
  apply Fin.ext
  rw [← L.entry_set, same]
  rfl

/-- A proper address with the entry of a place means a place of the same block. -/
theorem Proper.place {addr : BitVec 32} {p : Place L} (proper : L.Proper addr)
    (same : L.entry addr = p.entry) :
    ∃ q, L.placeOf addr = some q ∧ q.region = p.region ∧ q.offset / 32 = p.offset / 32 ∧
      q.offset % 32 = addr.toNat % 32 := by
  rw [entry_eq, Place.entry, Prod.mk.injEq] at same
  obtain ⟨table, block⟩ := same
  have inside : addr.toNat % 2 ^ 28 < L.size (Table.ofAddress addr) := by
    refine proper.resolve_left fun vmem => ?_
    rw [vmem] at table
    cases region : p.region <;> rw [region] at table <;> cases table
  rw [← mod_size, Nat.mod_eq_of_lt inside] at block
  have backed := p.backed
  refine ⟨⟨p.region, addr.toNat % 2 ^ 28, p.present, by omega⟩, ?_, rfl, block, ?_⟩
  · exact placeOf_iff.mpr ⟨table, rfl⟩
  · show addr.toNat % 2 ^ 28 % 32 = addr.toNat % 32
    omega

theorem pointer_of_place {addr : BitVec 32} {p : Place L} (means : L.placeOf addr = some p)
    {n : Nat} (fits : addr.toNat % 32 + n ≤ 32) :
    L.getPointerForRange addr n = some (p.region, p.offset) := by
  obtain ⟨table, offset⟩ := placeOf_iff.mp means
  have backed := p.backed
  rw [getPointerForRange_iff, table]
  exact ⟨p.present, offset, by omega, by omega⟩

theorem copyFromEmu_place {addr : BitVec 32} {p : Place L} (means : L.placeOf addr = some p)
    (mem : Memory) {buffer : List Byte} (fits : addr.toNat % 32 + buffer.length ≤ 32) :
    L.copyFromEmu mem buffer addr =
      (List.range buffer.length).map fun i => mem p.region (p.offset + i) := by
  rw [copyFromEmu, pointer_of_place means fits]
  split
  · rename_i empty
    rw [empty, List.length_eq_zero_iff.mp empty]
    rfl
  · rfl

theorem length_copyFromEmu (mem : Memory) (buffer : List Byte) (addr : BitVec 32) :
    (L.copyFromEmu mem buffer addr).length = buffer.length := by
  rw [copyFromEmu]
  split
  · rfl
  · split <;> simp

/-- What a copy into one block leaves at a place. -/
theorem copyToEmu_place {addr : BitVec 32} (proper : L.Proper addr) (mem : Memory)
    {data : List Byte} (fits : addr.toNat % 32 + data.length ≤ 32) (p : Place L) :
    L.copyToEmu mem addr data p.region p.offset =
      if L.entry addr = p.entry ∧ addr.toNat % 32 ≤ p.offset % 32 then
        (data[p.offset % 32 - addr.toNat % 32]?).getD (mem p.region p.offset)
      else mem p.region p.offset := by
  rw [copyToEmu]
  by_cases empty : data.length = 0
  · rw [if_pos empty, List.length_eq_zero_iff.mp empty]
    simp
  rw [if_neg empty]
  by_cases same : L.entry addr = p.entry
  · obtain ⟨q, means, region, block, low⟩ := proper.place same
    rw [pointer_of_place means fits]
    dsimp only
    by_cases before : addr.toNat % 32 ≤ p.offset % 32
    · rw [if_pos ⟨region.symm, by omega⟩, if_pos ⟨same, before⟩,
        show p.offset - q.offset = p.offset % 32 - addr.toNat % 32 by omega]
    · rw [if_neg (by omega), if_neg (fun both => before both.2)]
  · rw [if_neg (fun both => same both.1)]
    cases pointer : L.getPointerForRange addr data.length with
    | none => rfl
    | some found =>
        obtain ⟨r, o⟩ := found
        obtain ⟨backs, offset, inside, whole⟩ := (L.getPointerForRange_iff ..).mp pointer
        dsimp only
        split
        · rename_i here
          obtain ⟨rfl, after⟩ := here
          have outside : data[p.offset - o]? = none := by
            rw [List.getElem?_eq_none_iff]
            by_contra within
            have small := L.sizeReal_le p.region.table
            refine same ?_
            rw [entry_eq, table_of_backing backs, ← mod_size, ← offset,
              Nat.mod_eq_of_lt (by omega), Place.entry, show o / 32 = p.offset / 32 by omega]
          rw [outside]
          rfl
        · rfl

end MemoryLayout

end Phocoena.PowerPC

/-! ## Coherence of the cache with memory

The byte of a place is in the cache when its block is, and in memory otherwise. Blocks that are
not modified agree with memory, so that loading and replacing blocks changes no byte.
-/

namespace Phocoena.PowerPC.Cache

variable {L : MemoryLayout}

/-- The byte a program finds at a place. -/
def view (s : State) (p : Place L) : Byte :=
  match s.1.lookup p.entry with
  | some way => (s.1.data p.set way).getD (p.offset % 32) 0
  | none => s.2 p.region p.offset

structure Coherent (L : MemoryLayout) (s : State) : Prop where
  indexed : s.1.Indexed L
  whole : ∀ set way, (s.1.data set way).length = 32
  proper : ∀ set way, s.1.isValid set way = true →
    L.Proper (s.1.addrs set way) ∧ blockOf (s.1.addrs set way) = s.1.addrs set way
  clean : ∀ set way, s.1.isValid set way = true → s.1.isModified set way = false →
    ∀ p : Place L, L.entry (s.1.addrs set way) = p.entry →
      (s.1.data set way).getD (p.offset % 32) 0 = s.2 p.region p.offset

theorem aligned_mod {addr : BitVec 32} (aligned : blockOf addr = addr) : addr.toNat % 32 = 0 := by
  have := blockOf_eq addr
  rw [aligned] at this
  omega

theorem Indexed.view_valid {s : State} (h : s.1.Indexed L) {set : Fin 128} {way : Fin 8}
    (valid : s.1.isValid set way = true) {p : Place L}
    (same : L.entry (s.1.addrs set way) = p.entry) :
    view s p = (s.1.data set way).getD (p.offset % 32) 0 := by
  obtain ⟨right, known⟩ := h.home set way valid
  rw [view, ← same, known, ← MemoryLayout.setOf_of_entry_eq same, right]

theorem view_missing {s : State} {p : Place L} (missing : s.1.lookup p.entry = none) :
    view s p = s.2 p.region p.offset := by
  rw [view, missing]

theorem writeBack_place {c : Cache} (mem : Memory) {set : Fin 128} {way : Fin 8} {addr : BitVec 32}
    (whole : (c.data set way).length = 32) (proper : L.Proper addr) (aligned : blockOf addr = addr)
    (p : Place L) :
    writeBack L c mem set way addr p.region p.offset =
      if c.isModified set way = true ∧ L.entry addr = p.entry then
        (c.data set way).getD (p.offset % 32) 0
      else mem p.region p.offset := by
  have low := aligned_mod aligned
  rw [writeBack]
  split
  · rename_i modified
    rw [MemoryLayout.copyToEmu_place proper mem (by omega), low]
    by_cases same : L.entry addr = p.entry
    · have inside : p.offset % 32 < (c.data set way).length := by omega
      rw [if_pos ⟨same, Nat.zero_le _⟩, if_pos ⟨modified, same⟩, Nat.sub_zero,
        List.getElem?_eq_getElem inside, List.getD_eq_getElem?_getD, List.getElem?_eq_getElem inside]
      rfl
    · rw [if_neg fun both => same both.1, if_neg fun both => same both.2]
  · rename_i unmodified
    rw [if_neg fun both => unmodified both.1]

/-- Whether modified or not, a block that is written back leaves its bytes in memory. -/
theorem Coherent.writeBack {s : State} (h : Coherent L s) {set : Fin 128} {way : Fin 8}
    (valid : s.1.isValid set way = true) {addr : BitVec 32} (proper : L.Proper addr)
    (aligned : blockOf addr = addr) (same : L.entry addr = L.entry (s.1.addrs set way))
    (p : Place L) :
    writeBack L s.1 s.2 set way addr p.region p.offset =
      if L.entry addr = p.entry then view s p else s.2 p.region p.offset := by
  rw [writeBack_place s.2 (h.whole set way) proper aligned]
  by_cases here : L.entry addr = p.entry
  · have there := same.symm.trans here
    rw [if_pos here, h.indexed.view_valid valid there]
    cases modified : s.1.isModified set way with
    | true => rw [if_pos ⟨rfl, here⟩]
    | false =>
        rw [if_neg (by simp), h.clean set way valid modified p there]
  · rw [if_neg here, if_neg fun both => here both.2]

/-! ## Making room -/

section
variable (s : State) (set : Fin 128) (way : Fin 8)

theorem evict_cache : (evict L s set way).1 = { s.1 with lookup := (evict L s set way).1.lookup } := by
  rw [evict]
  split <;> rfl

theorem evict_lookup (e : Table × Nat) :
    (evict L s set way).1.lookup e =
      if s.1.isValid set way = true ∧ e = L.entry (s.1.addrs set way) then none
      else s.1.lookup e := by
  rw [evict]
  split
  · rename_i valid
    by_cases here : e = L.entry (s.1.addrs set way)
    · rw [if_pos ⟨valid, here⟩, here]
      exact Function.update_self ..
    · rw [if_neg fun both => here both.2]
      exact Function.update_of_ne here ..
  · rename_i invalid
    rw [if_neg fun both => invalid both.1]

end

theorem Coherent.evict_place {s : State} (h : Coherent L s) (set : Fin 128) (way : Fin 8)
    (p : Place L) :
    (evict L s set way).2 p.region p.offset =
      if s.1.isValid set way = true ∧ L.entry (s.1.addrs set way) = p.entry then view s p
      else s.2 p.region p.offset := by
  rw [evict]
  split
  · rename_i valid
    obtain ⟨proper, aligned⟩ := h.proper set way valid
    dsimp only
    rw [h.writeBack valid proper aligned rfl]
    simp only [valid, true_and]
  · rename_i invalid
    rw [if_neg fun both => invalid both.1]

/-! ## Loading a block -/

section
variable {s : State} {addr : BitVec 32} (way : Fin 8)

/-- `GetCache` where the block is not in the cache yet. -/
def loadBlock (L : MemoryLayout) (s : State) (addr : BitVec 32) (way : Fin 8) : State :=
  fill L (evict L s (setOf addr) way) (setOf addr) way addr

theorem loadBlock_lookup (e : Table × Nat) :
    (loadBlock L s addr way).1.lookup e =
      if e = L.entry addr then some way else (evict L s (setOf addr) way).1.lookup e := by
  by_cases here : e = L.entry addr
  · rw [if_pos here, here]
    exact Function.update_self ..
  · rw [if_neg here]
    exact Function.update_of_ne here ..

theorem loadBlock_data :
    (loadBlock L s addr way).1.data = put s.1.data (setOf addr) way
      (L.copyFromEmu (evict L s (setOf addr) way).2 (s.1.data (setOf addr) way) addr) := by
  rw [loadBlock, fill, evict_cache]

theorem loadBlock_addrs : (loadBlock L s addr way).1.addrs = put s.1.addrs (setOf addr) way addr := by
  rw [loadBlock, fill, evict_cache]

theorem loadBlock_valid :
    (loadBlock L s addr way).1.isValid = put s.1.isValid (setOf addr) way true := by
  rw [loadBlock, fill, evict_cache]
  exact hasBit_update_setBit s.1.valid (setOf addr) way

theorem loadBlock_modified :
    (loadBlock L s addr way).1.isModified = put s.1.isModified (setOf addr) way false := by
  rw [loadBlock, fill, evict_cache]
  exact hasBit_update_clearBit s.1.modified (setOf addr) way

theorem loadBlock_memory : (loadBlock L s addr way).2 = (evict L s (setOf addr) way).2 := rfl

end

/-- The bytes in memory after making room: those of the block that had to go, and the rest. -/
theorem Coherent.evict_stored {s : State} (h : Coherent L s) (set : Fin 128) (way : Fin 8)
    (p : Place L) :
    (evict L s set way).2 p.region p.offset = s.2 p.region p.offset ∨
      (evict L s set way).2 p.region p.offset = view s p := by
  rw [h.evict_place]
  split
  · exact .inr rfl
  · exact .inl rfl

theorem Coherent.view_loadBlock {s : State} (h : Coherent L s) {addr : BitVec 32} (way : Fin 8)
    (proper : L.Proper addr) (aligned : blockOf addr = addr)
    (missing : s.1.lookup (L.entry addr) = none) (p : Place L) :
    view (loadBlock L s addr way) p = view s p := by
  have low := aligned_mod aligned
  rw [view, loadBlock_lookup]
  by_cases here : p.entry = L.entry addr
  · -- the block that is loaded: its bytes were those of memory
    obtain ⟨q, means, region, block, at_start⟩ := proper.place here.symm
    have right : p.set = setOf addr := (MemoryLayout.setOf_of_entry_eq here.symm).symm
    have whole := h.whole (setOf addr) way
    have bytes := MemoryLayout.copyFromEmu_place means (evict L s (setOf addr) way).2
      (show addr.toNat % 32 + (s.1.data (setOf addr) way).length ≤ 32 by omega)
    have inside : p.offset % 32 < 32 := Nat.mod_lt _ (by decide)
    rw [if_pos here]
    dsimp only
    rw [loadBlock_data, right, put_same, bytes, whole, List.getD_eq_getElem?_getD,
      List.getElem?_map, List.getElem?_range inside, Option.map_some, Option.getD_some, region,
      show q.offset + p.offset % 32 = p.offset by omega, view_missing (by rw [here, missing]),
      h.evict_place, if_neg]
    rintro ⟨valid, same⟩
    have known := (h.indexed.home (setOf addr) way valid).2
    rw [same, here, missing] at known
    cases known
  · rw [if_neg here, evict_lookup]
    by_cases gone : s.1.isValid (setOf addr) way = true ∧ p.entry = L.entry (s.1.addrs (setOf addr) way)
    · -- the block that had to go: its bytes are in memory now
      rw [if_pos gone, loadBlock_memory, h.evict_place, if_pos ⟨gone.1, gone.2.symm⟩]
    · rw [if_neg gone]
      cases known : s.1.lookup p.entry with
      | none =>
          rw [view_missing known, loadBlock_memory, h.evict_place,
            if_neg fun both => gone ⟨both.1, both.2.symm⟩]
      | some other =>
          rw [view, known]
          dsimp only
          rw [loadBlock_data, put_apply, if_neg]
          rintro ⟨same_set, rfl⟩
          obtain ⟨set', valid, same⟩ := h.indexed.found _ _ known
          have right : set' = setOf addr := by
            rw [← (h.indexed.home set' other valid).1, MemoryLayout.setOf_of_entry_eq same, same_set]
          subst right
          exact gone ⟨valid, same.symm⟩

theorem Coherent.loadBlock {s : State} (h : Coherent L s) {addr : BitVec 32} (way : Fin 8)
    (proper : L.Proper addr) (aligned : blockOf addr = addr)
    (missing : s.1.lookup (L.entry addr) = none) : Coherent L (loadBlock L s addr way) where
  indexed := h.indexed.load way missing
  whole set w := by
    rw [loadBlock_data, put_apply]
    split
    · rw [MemoryLayout.length_copyFromEmu, h.whole]
    · exact h.whole set w
  proper set w valid := by
    rw [loadBlock_addrs, put_apply]
    rw [loadBlock_valid, put_apply] at valid
    split at valid
    · rename_i new
      rw [if_pos new]
      exact ⟨proper, aligned⟩
    · rename_i old
      rw [if_neg old]
      exact h.proper set w valid
  clean set w valid unmodified p same := by
    have indexed : (Cache.loadBlock L s addr way).1.Indexed L := h.indexed.load way missing
    have after := indexed.view_valid valid same
    have kept : ∀ b, view s p = b → s.2 p.region p.offset = b →
        (evict L s (setOf addr) way).2 p.region p.offset = b := by
      intro b seen behind
      rcases h.evict_stored (setOf addr) way p with old | old
      · rw [old, behind]
      · rw [old, seen]
    rw [loadBlock_valid, put_apply] at valid
    rw [loadBlock_modified, put_apply] at unmodified
    rw [loadBlock_addrs, put_apply] at same
    rw [← after, loadBlock_memory, h.view_loadBlock way proper aligned missing]
    refine (kept _ rfl ?_).symm
    split at valid
    · rename_i new
      rw [if_pos new] at same
      exact (view_missing (by rw [← same, missing])).symm
    · rename_i old
      rw [if_neg old] at same unmodified
      rw [h.indexed.view_valid valid same, h.clean set w valid unmodified p same]

end Phocoena.PowerPC.Cache
