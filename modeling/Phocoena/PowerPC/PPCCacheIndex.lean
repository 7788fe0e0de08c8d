import Phocoena.PowerPC.PPCCache

/-! # The lookup tables of a cache

The tables hold a way for an address exactly when that way of the address's set is valid and
holds the address's block. This is so after any operations at any addresses, and again after a
save state is loaded over a cache in which it was so.
-/

namespace Phocoena.PowerPC

theorem and_twoPow_ne_zero {w : Nat} (bits : BitVec w) {i : Nat} (lt : i < w) :
    bits &&& BitVec.twoPow w i ≠ 0#w ↔ bits.getLsbD i = true := by
  rw [BitVec.and_twoPow]
  have nonzero : BitVec.twoPow w i ≠ 0#w := by
    intro zero
    have bit := congrArg (fun x => x.getLsbD i) zero
    simp [lt] at bit
  cases bits.getLsbD i <;> simp [nonzero]

theorem hasBit_eq (bits : BitVec 8) (way : Fin 8) : hasBit bits way = bits.getLsbD way := by
  rw [hasBit, Bool.eq_iff_iff, decide_eq_true_iff]
  exact and_twoPow_ne_zero bits way.isLt

theorem hasBit_setBit (bits : BitVec 8) (way other : Fin 8) :
    hasBit (setBit bits way) other = (decide (other = way) || hasBit bits other) := by
  rw [hasBit_eq, hasBit_eq, setBit, BitVec.getLsbD_or, Bool.or_comm]
  congr 1
  revert way other
  decide

theorem hasBit_clearBit (bits : BitVec 8) (way other : Fin 8) :
    hasBit (clearBit bits way) other = (decide (other ≠ way) && hasBit bits other) := by
  rw [hasBit_eq, hasBit_eq, clearBit, BitVec.getLsbD_and, Bool.and_comm]
  congr 1
  revert way other
  decide

theorem hasBit_zero (way : Fin 8) : hasBit 0#8 way = false := by
  revert way
  decide

namespace Cache

theorem put_apply {α : Type} (f : Fin 128 → Fin 8 → α) (set other : Fin 128) (way way' : Fin 8)
    (v : α) : put f set way v other way' = if other = set ∧ way' = way then v else f other way' := by
  by_cases same : other = set
  · subst same
    by_cases here : way' = way <;> simp [put, here, Function.update_of_ne]
  · simp [put, same, Function.update_of_ne]

theorem put_put {α : Type} (f : Fin 128 → Fin 8 → α) (set : Fin 128) (way : Fin 8) (u v : α) :
    put (put f set way u) set way v = put f set way v := by
  funext other way'
  simp only [put_apply]
  split <;> rfl

theorem put_same {α : Type} (f : Fin 128 → Fin 8 → α) (set : Fin 128) (way : Fin 8) (v : α) :
    put f set way v set way = v := by simp [put_apply]

theorem hasBit_update_setBit (bits : Fin 128 → BitVec 8) (set : Fin 128) (way : Fin 8) :
    (fun s w => hasBit (Function.update bits set (setBit (bits set) way) s) w) =
      put (fun s w => hasBit (bits s) w) set way true := by
  funext other way'
  rw [put_apply]
  by_cases same : other = set
  · subst same
    by_cases here : way' = way <;> simp [hasBit_setBit, here]
  · simp [same, Function.update_of_ne]

theorem hasBit_update_clearBit (bits : Fin 128 → BitVec 8) (set : Fin 128) (way : Fin 8) :
    (fun s w => hasBit (Function.update bits set (clearBit (bits set) way) s) w) =
      put (fun s w => hasBit (bits s) w) set way false := by
  funext other way'
  rw [put_apply]
  by_cases same : other = set
  · subst same
    by_cases here : way' = way <;> simp [hasBit_clearBit, here]
  · simp [same, Function.update_of_ne]

end Cache

/-! ## Entries -/

theorem blockOf_eq (addr : BitVec 32) : (blockOf addr).toNat = addr.toNat / 32 * 32 :=
  and_blockMask addr

namespace MemoryLayout

def sizeReal (L : MemoryLayout) : Table → Nat
  | .ram => L.ramSizeReal
  | .exRam => L.exRamSizeReal
  | .vmem => L.fakeVMemSize

def size (L : MemoryLayout) (t : Table) : Nat := nextPowerOf2 (L.sizeReal t)

theorem mask_eq (L : MemoryLayout) (t : Table) : L.mask t = BitVec.ofNat 32 (L.size t - 1) := by
  cases t <;> rfl

theorem sizeReal_bounds (L : MemoryLayout) (t : Table) :
    0x1000 ≤ L.sizeReal t ∧ L.sizeReal t ≤ 0x10000000 := by
  cases t
  · exact L.ram_bounds
  · exact L.exRam_bounds
  · exact L.fakeVMem_bounds

theorem sizeReal_le (L : MemoryLayout) (t : Table) : L.sizeReal t ≤ L.size t :=
  Nat.le_pow_clog (by decide) _

theorem size_eq (L : MemoryLayout) (t : Table) : ∃ k, L.size t = 2 ^ k ∧ 12 ≤ k ∧ k ≤ 28 := by
  obtain ⟨low, high⟩ := L.sizeReal_bounds t
  refine ⟨Nat.clog 2 (L.sizeReal t), rfl, ?_, ?_⟩
  · have : Nat.clog 2 (2 ^ 12) ≤ Nat.clog 2 (L.sizeReal t) := Nat.clog_mono_right 2 low
    rwa [Nat.clog_pow 2 12 (by decide)] at this
  · have : Nat.clog 2 (L.sizeReal t) ≤ Nat.clog 2 (2 ^ 28) := Nat.clog_mono_right 2 high
    rwa [Nat.clog_pow 2 28 (by decide)] at this

theorem and_mask (L : MemoryLayout) (t : Table) (addr : BitVec 32) :
    (addr &&& L.mask t).toNat = addr.toNat % L.size t := by
  obtain ⟨k, size, -, high⟩ := L.size_eq t
  have small : 2 ^ k ≤ 2 ^ 28 := Nat.pow_le_pow_right (by decide) high
  rw [mask_eq, BitVec.toNat_and, BitVec.toNat_ofNat, Nat.mod_eq_of_lt (by omega), size,
    Nat.and_two_pow_sub_one_eq_mod]

end MemoryLayout

theorem ofAddress_eq (addr : BitVec 32) :
    Table.ofAddress addr =
      if addr.toNat / 2 ^ 29 % 2 = 1 then .vmem
      else if addr.toNat / 2 ^ 28 % 2 = 1 then .exRam else .ram := by
  have bit : ∀ i < 32, addr &&& BitVec.twoPow 32 i ≠ 0#32 ↔ addr.toNat / 2 ^ i % 2 = 1 := by
    intro i lt
    rw [and_twoPow_ne_zero addr lt, ← BitVec.testBit_toNat, Nat.testBit_eq_decide_div_mod_eq,
      decide_eq_true_iff]
  simp only [Table.ofAddress]
  rw [show CACHE_VMEM_BIT = BitVec.twoPow 32 29 by decide,
    show CACHE_EXRAM_BIT = BitVec.twoPow 32 28 by decide]
  simp only [bit 29 (by decide), bit 28 (by decide)]

theorem ofAddress_congr {a b : BitVec 32} (same : a.toNat / 2 ^ 28 = b.toNat / 2 ^ 28) :
    Table.ofAddress a = Table.ofAddress b := by
  have upper : a.toNat / 2 ^ 29 = b.toNat / 2 ^ 29 := by omega
  rw [ofAddress_eq, ofAddress_eq, same, upper]

namespace MemoryLayout

theorem entry_eq (L : MemoryLayout) (addr : BitVec 32) :
    L.entry addr = (Table.ofAddress addr, addr.toNat % L.size (Table.ofAddress addr) / 32) := by
  rw [entry, BitVec.toNat_ushiftRight, and_mask, Nat.shiftRight_eq_div_pow]

theorem entry_set (L : MemoryLayout) (addr : BitVec 32) :
    (L.entry addr).2 % 128 = (setOf addr).val := by
  obtain ⟨k, size, low, -⟩ := L.size_eq (Table.ofAddress addr)
  obtain ⟨m, split⟩ : 4096 ∣ L.size (Table.ofAddress addr) := by
    rw [size]
    exact Nat.pow_dvd_pow 2 low
  have inside := Nat.mod_mod_of_dvd addr.toNat (Dvd.intro m split.symm)
  rw [entry_eq, setOf_eq]
  dsimp only
  omega

theorem setOf_of_entry (L : MemoryLayout) {a b : BitVec 32} (same : L.entry a = L.entry b) :
    setOf a = setOf b := by
  apply Fin.ext
  rw [← L.entry_set, ← L.entry_set, same]

theorem setOf_blockOf (addr : BitVec 32) : setOf (blockOf addr) = setOf addr := by
  apply Fin.ext
  rw [setOf_eq, setOf_eq, blockOf_eq]
  omega

theorem blockOf_blockOf (addr : BitVec 32) : blockOf (blockOf addr) = blockOf addr := by
  apply BitVec.eq_of_toNat_eq
  rw [blockOf_eq, blockOf_eq]
  omega

theorem entry_congr (L : MemoryLayout) {a b : BitVec 32} (same : blockOf a = blockOf b) :
    L.entry a = L.entry b := by
  have block := congrArg BitVec.toNat same
  rw [blockOf_eq, blockOf_eq] at block
  have table : Table.ofAddress a = Table.ofAddress b := ofAddress_congr (by omega)
  obtain ⟨k, size, low, -⟩ := L.size_eq (Table.ofAddress b)
  obtain ⟨m, split⟩ : 32 ∣ L.size (Table.ofAddress b) := by
    rw [size]
    exact (Nat.pow_dvd_pow 2 (by omega : 5 ≤ k))
  have lines : ∀ n, n % L.size (Table.ofAddress b) / 32 = n / 32 % m := by
    intro n
    rw [split, Nat.mod_mul_right_div_self]
  rw [entry_eq, entry_eq, table, lines, lines, show a.toNat / 32 = b.toNat / 32 by omega]

theorem entry_blockOf (L : MemoryLayout) (addr : BitVec 32) : L.entry (blockOf addr) = L.entry addr :=
  L.entry_congr (blockOf_blockOf addr)

end MemoryLayout

/-! ## What the tables say -/

/-- `lookup` holds a way for the entry of exactly the blocks that are valid, and every block is
in the set of its address. -/
structure Indexed (L : MemoryLayout) (valid : Fin 128 → Fin 8 → Bool)
    (addrs : Fin 128 → Fin 8 → BitVec 32) (lookup : Table × Nat → Option (Fin 8)) : Prop where
  home : ∀ set way, valid set way = true →
    setOf (addrs set way) = set ∧ lookup (L.entry (addrs set way)) = some way
  found : ∀ e way, lookup e = some way → ∃ set, valid set way = true ∧ L.entry (addrs set way) = e

section
variable {L : MemoryLayout} {valid : Fin 128 → Fin 8 → Bool} {addrs : Fin 128 → Fin 8 → BitVec 32}
  {lookup : Table × Nat → Option (Fin 8)}

/-- A block is valid at one place only. -/
theorem Indexed.unique (h : Indexed L valid addrs lookup) {s s' : Fin 128} {w w' : Fin 8}
    (here : valid s w = true) (there : valid s' w' = true)
    (same : L.entry (addrs s w) = L.entry (addrs s' w')) : s = s' ∧ w = w' := by
  obtain ⟨set, way⟩ := h.home s w here
  obtain ⟨set', way'⟩ := h.home s' w' there
  constructor
  · rw [← set, ← set', L.setOf_of_entry same]
  · rw [same, way'] at way
    exact (Option.some.inj way).symm

theorem Indexed.at_set (h : Indexed L valid addrs lookup) {addr : BitVec 32} {way : Fin 8}
    (found : lookup (L.entry addr) = some way) :
    valid (setOf addr) way = true ∧ L.entry (addrs (setOf addr) way) = L.entry addr := by
  obtain ⟨set, here, same⟩ := h.found _ _ found
  have right : set = setOf addr := by
    rw [← (h.home set way here).1, L.setOf_of_entry same]
  subst right
  exact ⟨here, same⟩

theorem Indexed.drop (h : Indexed L valid addrs lookup) {set : Fin 128} {way : Fin 8}
    (here : valid set way = true) :
    Indexed L (Cache.put valid set way false) addrs
      (Function.update lookup (L.entry (addrs set way)) none) where
  home s w left := by
    rw [Cache.put_apply] at left
    split at left
    · cases left
    · rename_i other
      obtain ⟨right, known⟩ := h.home s w left
      refine ⟨right, ?_⟩
      rw [Function.update_of_ne, known]
      intro same
      exact other (h.unique left here same)
  found e w known := by
    by_cases gone : e = L.entry (addrs set way)
    · rw [gone, Function.update_self] at known
      cases known
    · rw [Function.update_of_ne gone] at known
      obtain ⟨s, left, same⟩ := h.found e w known
      refine ⟨s, ?_, same⟩
      rw [Cache.put_apply, if_neg, left]
      rintro ⟨rfl, rfl⟩
      exact gone same.symm

theorem Indexed.add (h : Indexed L valid addrs lookup) {set : Fin 128} {way : Fin 8}
    {addr : BitVec 32} (free : valid set way = false) (missing : lookup (L.entry addr) = none)
    (right : setOf addr = set) :
    Indexed L (Cache.put valid set way true) (Cache.put addrs set way addr)
      (Function.update lookup (L.entry addr) (some way)) where
  home s w left := by
    by_cases new : s = set ∧ w = way
    · obtain ⟨rfl, rfl⟩ := new
      rw [Cache.put_same, Function.update_self]
      exact ⟨right, rfl⟩
    · rw [Cache.put_apply, if_neg new] at left ⊢
      obtain ⟨set', known⟩ := h.home s w left
      refine ⟨set', ?_⟩
      rw [Function.update_of_ne, known]
      intro same
      rw [same, missing] at known
      cases known
  found e w known := by
    by_cases new : e = L.entry addr
    · rw [new, Function.update_self] at known
      obtain rfl := Option.some.inj known
      refine ⟨set, Cache.put_same .., ?_⟩
      rw [Cache.put_same, new]
    · rw [Function.update_of_ne new] at known
      obtain ⟨s, left, same⟩ := h.found e w known
      have other : ¬ (s = set ∧ w = way) := by
        rintro ⟨rfl, rfl⟩
        rw [free] at left
        cases left
      refine ⟨s, ?_, ?_⟩
      · rw [Cache.put_apply, if_neg other, left]
      · rw [Cache.put_apply, if_neg other, same]

end

namespace Cache

variable {L : MemoryLayout}

def Indexed (L : MemoryLayout) (c : Cache) : Prop := PowerPC.Indexed L c.isValid c.addrs c.lookup

theorem indexed_reset (c : Cache) : c.reset.Indexed L where
  home set way valid := by simp [reset, isValid, hasBit_zero] at valid
  found e way known := by simp [reset] at known

theorem Indexed.discard {c : Cache} (h : c.Indexed L) {set : Fin 128} {way : Fin 8}
    (here : c.isValid set way = true) : (c.discard L set way).Indexed L := by
  have left := hasBit_update_clearBit c.valid set way
  have dropped := PowerPC.Indexed.drop h here
  rw [Indexed, show (c.discard L set way).isValid = put c.isValid set way false from left]
  exact dropped

/-- Loading a block into a way, whatever that way holds. -/
theorem Indexed.load {s : State} (h : s.1.Indexed L) {addr : BitVec 32} (way : Fin 8)
    (missing : s.1.lookup (L.entry addr) = none) :
    (fill L (evict L s (setOf addr) way) (setOf addr) way addr).1.Indexed L := by
  have now := fun bits : Fin 128 → BitVec 8 => hasBit_update_setBit bits (setOf addr) way
  cases valid : s.1.isValid (setOf addr) way with
  | false =>
      have added := PowerPC.Indexed.add h valid missing rfl
      rw [evict, if_neg (by simp [valid]), Indexed,
        show (fill L s (setOf addr) way addr).1.isValid = put s.1.isValid (setOf addr) way true
          from now s.1.valid]
      exact added
  | true =>
      have dropped := PowerPC.Indexed.drop h valid
      have missing' : Function.update s.1.lookup (L.entry (s.1.addrs (setOf addr) way)) none
          (L.entry addr) = none := by
        by_cases same : L.entry addr = L.entry (s.1.addrs (setOf addr) way)
        · rw [same, Function.update_self]
        · rw [Function.update_of_ne same, missing]
      have added := PowerPC.Indexed.add dropped (put_same ..) missing' rfl
      rw [put_put] at added
      rw [evict, if_pos valid, Indexed]
      rw [show ∀ mem, (fill L (s.1.setLookup L (s.1.addrs (setOf addr) way) none, mem) (setOf addr)
        way addr).1.isValid = put s.1.isValid (setOf addr) way true from fun _ => now s.1.valid]
      exact added

theorem Indexed.getCache {s : State} (h : s.1.Indexed L) (addr : BitVec 32) (locked : Bool) :
    (getCache L s addr locked).1.1.Indexed L := by
  simp only [Cache.getCache]
  cases known : s.1.lookup (L.entry (blockOf addr)) with
  | some way => exact h
  | none =>
      cases locked with
      | true => exact h
      | false => exact h.load _ known

theorem Indexed.store {s : State} (h : s.1.Indexed L) (addr : BitVec 32) :
    (store L s addr).1.Indexed L := by
  have after := h.getCache addr true
  simp only [Cache.store]
  split
  · rename_i got
    rw [got] at after
    exact after
  · rename_i got
    rw [got] at after
    exact after

theorem Indexed.invalidate {s : State} (h : s.1.Indexed L) (addr : BitVec 32) :
    (invalidate L s addr).1.Indexed L := by
  have after := h.getCache addr true
  simp only [Cache.invalidate]
  split
  · rename_i got
    rw [got] at after
    exact after
  · rename_i got
    rw [got] at after
    split
    · rename_i valid
      exact after.discard valid
    · exact after

theorem Indexed.flush {s : State} (h : s.1.Indexed L) (addr : BitVec 32) :
    (flush L s addr).1.Indexed L := by
  have after := h.getCache addr true
  simp only [Cache.flush]
  split
  · rename_i got
    rw [got] at after
    exact after
  · rename_i got
    rw [got] at after
    split
    · rename_i valid
      exact after.discard valid
    · exact after

theorem Indexed.readPart {s : State} (h : s.1.Indexed L) (addr : BitVec 32) (value : List Byte)
    (locked : Bool) : (readPart L s addr value locked).1.1.Indexed L := by
  have after := h.getCache addr locked
  simp only [Cache.readPart]
  split <;>
  · rename_i got
    rw [got] at after
    exact after

theorem Indexed.writePart {s : State} (h : s.1.Indexed L) (addr : BitVec 32) (value : List Byte)
    (locked : Bool) : (writePart L s addr value locked).1.Indexed L := by
  have after := h.getCache addr locked
  simp only [Cache.writePart]
  split <;>
  · rename_i got
    rw [got] at after
    exact after

theorem Indexed.read {s : State} (h : s.1.Indexed L) (addr : BitVec 32) (buffer : List Byte)
    (locked : Bool) : (read L s addr buffer locked).1.1.Indexed L := by
  fun_induction Cache.read L s addr buffer locked with
  | case1 s addr buffer _more len s₁ value part s₂ rest got ih =>
      have first := h.readPart addr (buffer.take len) locked
      rw [part] at first
      have later := ih first
      rw [got] at later
      exact later
  | case2 s addr buffer _ => exact h

theorem Indexed.write {s : State} (h : s.1.Indexed L) (addr : BitVec 32) (buffer : List Byte)
    (locked : Bool) : (write L s addr buffer locked).1.Indexed L := by
  fun_induction Cache.write L s addr buffer locked with
  | case1 s addr buffer _more len s₁ ih => exact ih (h.writePart addr (buffer.take len) locked)
  | case2 s addr buffer _ => exact h

/-! ## Loading a save state -/

theorem updateLookup_lookup (value : Fin 8 → Option (Fin 8)) (c : Cache) (line : Fin 128 × Fin 8) :
    updateLookup L value c line = { c with lookup := (updateLookup L value c line).lookup } := by
  rw [updateLookup]
  split <;> rfl

theorem foldl_updateLookup (value : Fin 8 → Option (Fin 8)) (c : Cache)
    (ls : List (Fin 128 × Fin 8)) :
    ls.foldl (updateLookup L value) c = { c with lookup := (ls.foldl (updateLookup L value) c).lookup } := by
  induction ls generalizing c with
  | nil => rfl
  | cons line ls ih =>
      rw [List.foldl_cons, ih, updateLookup_lookup]

/-- The place of an address is left alone, or set for a valid block that stands for it. -/
theorem foldl_updateLookup_cases (value : Fin 8 → Option (Fin 8)) (c : Cache) (ls : List (Fin 128 × Fin 8))
    (e : Table × Nat) :
    (∃ line ∈ ls, c.isValid line.1 line.2 = true ∧ L.entry (c.addrs line.1 line.2) = e ∧
      (ls.foldl (updateLookup L value) c).lookup e = value line.2) ∨
    ((∀ line ∈ ls, c.isValid line.1 line.2 = true → L.entry (c.addrs line.1 line.2) ≠ e) ∧
      (ls.foldl (updateLookup L value) c).lookup e = c.lookup e) := by
  induction ls generalizing c with
  | nil => exact .inr ⟨by simp, rfl⟩
  | cons line ls ih =>
      have rest := ih (updateLookup L value c line)
      rw [updateLookup_lookup] at rest
      rw [List.foldl_cons, updateLookup_lookup]
      rcases rest with ⟨other, member, valid, same, set⟩ | ⟨none, kept⟩
      · exact .inl ⟨other, List.mem_cons_of_mem _ member, valid, same, set⟩
      · by_cases here : c.isValid line.1 line.2 = true ∧ L.entry (c.addrs line.1 line.2) = e
        · refine .inl ⟨line, List.mem_cons_self, here.1, here.2, ?_⟩
          rw [kept, updateLookup, if_pos here.1, ← here.2]
          exact Function.update_self ..
        · refine .inr ⟨?_, ?_⟩
          · intro other member valid same
            rcases List.mem_cons.mp member with rfl | later
            · exact here ⟨valid, same⟩
            · exact none other later valid same
          · rw [kept]
            dsimp only
            rw [updateLookup]
            split
            · rename_i valid
              refine Function.update_of_ne ?_ _ _
              rintro rfl
              exact here ⟨valid, rfl⟩
            · rfl

theorem mem_lines (set : Fin 128) (way : Fin 8) : (set, way) ∈ lines := by
  rw [lines]
  exact List.mem_product.mpr ⟨List.mem_finRange set, List.mem_finRange way⟩

theorem updateLookups_cases (value : Fin 8 → Option (Fin 8)) (c : Cache) (e : Table × Nat) :
    (∃ set way, c.isValid set way = true ∧ L.entry (c.addrs set way) = e ∧
      (c.updateLookups L value).lookup e = value way) ∨
    ((∀ set way, c.isValid set way = true → L.entry (c.addrs set way) ≠ e) ∧
      (c.updateLookups L value).lookup e = c.lookup e) := by
  rw [updateLookups]
  rcases foldl_updateLookup_cases (L := L) value c lines e with ⟨line, _, here⟩ | ⟨none, kept⟩
  · exact .inl ⟨line.1, line.2, here⟩
  · exact .inr ⟨fun set way => none (set, way) (mem_lines set way), kept⟩

theorem updateLookups_eq (value : Fin 8 → Option (Fin 8)) (c : Cache) :
    c.updateLookups L value = { c with lookup := (c.updateLookups L value).lookup } := by
  rw [updateLookups]
  exact foldl_updateLookup value c lines

/-- The tables are put together again from the blocks alone, whatever was cached before. -/
theorem doStateRead_eq {c saved : Cache} (h : c.Indexed L) (hs : saved.Indexed L) :
    doStateRead L c saved = saved := by
  have cleared : (c.updateLookups L fun _ => none).lookup = fun _ => none := by
    funext e
    rcases updateLookups_cases (L := L) (fun _ => none) c e with ⟨_, _, _, _, none⟩ | ⟨none, kept⟩
    · exact none
    · rw [kept]
      cases known : c.lookup e with
      | none => rfl
      | some way =>
          obtain ⟨set, valid, same⟩ := h.found e way known
          exact absurd same (none set way valid)
  have rebuilt : (updateLookups L { saved with lookup := fun _ => none } some).lookup =
      saved.lookup := by
    funext e
    rcases updateLookups_cases (L := L) some { saved with lookup := fun _ => none } e with
      ⟨set, way, valid, same, put⟩ | ⟨none, kept⟩
    · rw [put, ← same]
      exact (hs.home set way valid).2.symm
    · rw [kept]
      cases known : saved.lookup e with
      | none => rfl
      | some way =>
          obtain ⟨set, valid, same⟩ := hs.found e way known
          exact absurd same (none set way valid)
  rw [doStateRead, cleared, updateLookups_eq, rebuilt]

/-! ## Invalidating a set of the instruction cache -/

theorem icacheInvalidate_valid (c : Cache) (addr : BitVec 32) (set : Fin 128) (way : Fin 8) :
    (c.icacheInvalidate L addr).isValid set way =
      (decide (set ≠ setOf addr) && c.isValid set way) := by
  rw [icacheInvalidate, foldl_updateLookup]
  by_cases same : set = setOf addr
  · subst same
    simp only [isValid, Function.update_self]
    simp [hasBit_zero]
  · simp [isValid, same]

theorem Indexed.icacheInvalidate {c : Cache} (h : c.Indexed L) (addr : BitVec 32) :
    (c.icacheInvalidate L addr).Indexed L := by
  have cases := foldl_updateLookup_cases (L := L) (fun _ => none) c
    ((List.finRange 8).map fun way => (setOf addr, way))
  have addrs : (c.icacheInvalidate L addr).addrs = c.addrs := by
    rw [Cache.icacheInvalidate, foldl_updateLookup]
  constructor
  · intro set way valid
    rw [icacheInvalidate_valid, Bool.and_eq_true, decide_eq_true_iff] at valid
    obtain ⟨right, known⟩ := h.home set way valid.2
    rw [addrs]
    refine ⟨right, ?_⟩
    rcases cases (L.entry (c.addrs set way)) with ⟨line, member, valid', same, -⟩ | ⟨-, kept⟩
    · obtain ⟨way', -, rfl⟩ := List.mem_map.mp member
      exact absurd (h.unique valid' valid.2 same).1.symm valid.1
    · exact kept.trans known
  · intro e way known
    rcases cases e with ⟨line, member, valid', same, gone⟩ | ⟨none, kept⟩
    · rw [show (c.icacheInvalidate L addr).lookup e = none from gone] at known
      cases known
    · obtain ⟨set, valid, same⟩ := h.found e way (kept.symm.trans known)
      refine ⟨set, ?_, by rw [addrs, same]⟩
      rw [icacheInvalidate_valid, valid, Bool.and_true, decide_eq_true_iff]
      rintro rfl
      exact none (setOf addr, way) (List.mem_map.mpr ⟨way, List.mem_finRange way, rfl⟩) valid same

end Cache

end Phocoena.PowerPC
