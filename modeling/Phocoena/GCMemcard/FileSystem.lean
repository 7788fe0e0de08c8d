import Phocoena.GCMemcard.Allocation

/-! # The file system of a memory card

The invariant that `ImportFile` and `RemoveFile` keep: the files of the active directory lie on
disjoint chains of the active map, the free blocks are counted right, and the two copies of the
directory and of the map are written in turn.
-/

namespace Phocoena.Memcard

open GCMemcard

/-! ## The two copies -/

section Copies

variable {α : Type} {counter : α → BitVec 16} {copies : Copies α} {active : Copy}

/-- The counter of the active copy is one ahead of the other one, or nothing was written yet. -/
def Alternates (counter : α → BitVec 16) (copies : Copies α) (active : Copy) : Prop :=
  (active = .first ∧ counter copies.first = counter copies.second) ∨
    counter (copies.get active) = counter (copies.get active.other) + 1

theorem alternates_set {a : α} (ahead : counter a = counter (copies.get active) + 1) :
    Alternates counter (copies.set active.other a) active.other := by
  right
  rw [Copies.get_set_self, Copy.other_other, Copies.get_set_other, ahead]

theorem Alternates.map (f : α → α) (same : ∀ a, counter (f a) = counter a)
    (turn : Alternates counter copies active) : Alternates counter (copies.map f) active := by
  unfold Alternates at turn ⊢
  rw [Copies.get_map, Copies.get_map, same, same]
  simp only [Copies.map, same]
  exact turn

/-- While no counter is at its maximum, the active copy is the one that `Open` selects. -/
theorem Alternates.selected (turn : Alternates counter copies active)
    (below : ∀ i, (counter (copies.get i)).toInt < 32767) :
    active = if (counter copies.first).toInt ≥ (counter copies.second).toInt then .first
      else .second := by
  have ahead {c d : BitVec 16} (h : c = d + 1) (lt : d.toInt < 32767) : d.toInt < c.toInt := by
    have wrap : c.toInt = (d.toInt + 1).bmod (2 ^ 16) := by rw [h, BitVec.toInt_add]; rfl
    have := BitVec.le_toInt d
    rw [wrap, Int.bmod_eq_of_le (by omega) (by omega)]
    omega
  rcases turn with ⟨rfl, same⟩ | next
  · rw [if_pos (by rw [same])]
  · have greater := ahead next (below active.other)
    cases active with
    | first => exact (if_pos (Int.le_of_lt greater)).symm
    | second => exact (if_neg (Int.not_le.mpr greater)).symm

/-- The second copy is active when its counter is greater, the first one on a tie. -/
theorem Alternates.second_iff (turn : Alternates counter copies active)
    (below : ∀ i, (counter (copies.get i)).toInt < 32767) :
    active = .second ↔ (counter copies.first).toInt < (counter copies.second).toInt := by
  rw [turn.selected below]
  split
  · next ge => exact ⟨fun h => absurd h (by decide), fun lt => absurd ge (Int.not_le.mpr lt)⟩
  · next lt => exact ⟨fun _ => Int.not_le.mp lt, fun _ => rfl⟩

end Copies

/-! ## Files -/

/-- The file of the directory entry `index` is made of `blocks`. -/
structure FileAt (directory : Directory) (bat : BlockAlloc) (size index : Nat) (entry : DEntry)
    (blocks : List Nat) : Prop where
  at_index : directory.dirEntries[index]? = some entry
  used : entry.isUsed = true
  chain : bat.FileChain entry.firstBlock.toNat blocks 0xFFFF
  length : blocks.length = entry.blockCount.toNat
  some_block : blocks ≠ []
  inside : ∀ block ∈ blocks, 5 ≤ block ∧ block < size

structure LaidOut (directory : Directory) (bat : BlockAlloc) (size : Nat) : Prop where
  files : ∀ index entry, directory.dirEntries[index]? = some entry → entry.isUsed = true →
    ∃ blocks, FileAt directory bat size index entry blocks
  apart : ∀ {i j entry entry' blocks blocks'}, FileAt directory bat size i entry blocks →
    FileAt directory bat size j entry' blocks' → i ≠ j → blocks.Disjoint blocks'

section Files

variable {directory directory' : Directory} {bat bat' : BlockAlloc} {size index : Nat}
  {entry : DEntry} {blocks : List Nat}

/-- A file stays where its entry and its links do. -/
theorem FileAt.frame (file : FileAt directory bat size index entry blocks)
    (at_index : directory'.dirEntries[index]? = some entry)
    (same : ∀ block ∈ blocks, bat'.entry block = bat.entry block) :
    FileAt directory' bat' size index entry blocks :=
  { file with
    at_index := at_index
    chain := file.chain.congr same }

theorem LaidOut.matches (laidOut : LaidOut directory bat size) : directory.Matches bat := by
  intro entry mem used
  obtain ⟨index, lt, rfl⟩ := List.getElem_of_mem mem
  rw [Vector.length_toList] at lt
  obtain ⟨blocks, file⟩ := laidOut.files index directory.dirEntries[index]
    (Vector.getElem?_eq_getElem lt) used
  rw [Vector.getElem_toList, ← file.length]
  exact BlockAlloc.matches_of_fileChain file.chain file.some_block

/-- Checksums, counters and the like do not matter for where the files are. -/
theorem LaidOut.congr (laidOut : LaidOut directory bat size)
    (dirEntries : directory'.dirEntries = directory.dirEntries) (map : bat'.map = bat.map) :
    LaidOut directory' bat' size := by
  have entry_eq (block : Nat) : bat'.entry block = bat.entry block := by
    unfold BlockAlloc.entry
    rw [map]
  have back {index : Nat} {entry : DEntry} {blocks : List Nat}
      (file : FileAt directory' bat' size index entry blocks) :
      FileAt directory bat size index entry blocks :=
    file.frame (dirEntries ▸ file.at_index) fun block _ => (entry_eq block).symm
  constructor
  · intro index entry at_index used
    rw [dirEntries] at at_index
    obtain ⟨blocks, file⟩ := laidOut.files index entry at_index used
    exact ⟨blocks, file.frame (dirEntries ▸ at_index) fun block _ => entry_eq block⟩
  · intro i j entry entry' blocks blocks' file file' ne
    exact laidOut.apart (back file) (back file') ne

/-- A new file on blocks that were free. -/
theorem LaidOut.add (laidOut : LaidOut directory bat size)
    (others : ∀ j ≠ index, directory'.dirEntries[j]? = directory.dirEntries[j]?)
    (at_index : directory'.dirEntries[index]? = some entry)
    (chain : bat'.FileChain entry.firstBlock.toNat blocks 0xFFFF)
    (length : blocks.length = entry.blockCount.toNat) (some_block : blocks ≠ [])
    (free : ∀ block ∈ blocks, block ∈ bat.freeSet size)
    (entries : ∀ block, 5 ≤ block → block ∉ blocks → bat'.entry block = bat.entry block) :
    LaidOut directory' bat' size := by
  have kept {j : Nat} {entry' : DEntry} (ne : j ≠ index)
      (at_j : directory'.dirEntries[j]? = some entry') (used : entry'.isUsed = true) :
      ∃ blocks', FileAt directory bat size j entry' blocks' ∧
        FileAt directory' bat' size j entry' blocks' ∧ blocks'.Disjoint blocks := by
    obtain ⟨blocks', file⟩ := laidOut.files j entry' (by rw [← others j ne, at_j]) used
    have taken : ∀ block ∈ blocks', block ∉ blocks := fun block mem new =>
      file.chain.not_mem_freeSet mem (free block new)
    exact ⟨blocks', file, file.frame at_j fun block mem =>
      entries block (file.inside block mem).1 (taken block mem), fun block mem => taken block mem⟩
  have new (used : entry.isUsed = true) : FileAt directory' bat' size index entry blocks :=
    { at_index, used, chain, length, some_block
      inside := fun block mem => (bat.mem_freeSet.mp (free block mem)).1 }
  constructor
  · intro j entry' at_j used
    by_cases here : j = index
    · subst here
      obtain rfl := Option.some.inj (at_index.symm.trans at_j)
      exact ⟨blocks, new used⟩
    · obtain ⟨blocks', -, file, -⟩ := kept here at_j used
      exact ⟨blocks', file⟩
  · intro i j entry₁ entry₂ blocks₁ blocks₂ file₁ file₂ ne
    by_cases here : i = index
    · subst here
      obtain rfl := Option.some.inj (at_index.symm.trans file₁.at_index)
      obtain ⟨rfl, -⟩ := Chain.unique chain file₁.chain
      obtain ⟨blocks', -, file, disjoint⟩ := kept (Ne.symm ne) file₂.at_index file₂.used
      obtain ⟨rfl, -⟩ := Chain.unique file.chain file₂.chain
      exact disjoint.symm
    · obtain ⟨blocks₁', old₁, file₁', disjoint₁⟩ := kept here file₁.at_index file₁.used
      obtain ⟨rfl, -⟩ := Chain.unique file₁'.chain file₁.chain
      by_cases there : j = index
      · subst there
        obtain rfl := Option.some.inj (at_index.symm.trans file₂.at_index)
        obtain ⟨rfl, -⟩ := Chain.unique chain file₂.chain
        exact disjoint₁
      · obtain ⟨blocks₂', old₂, file₂', -⟩ := kept there file₂.at_index file₂.used
        obtain ⟨rfl, -⟩ := Chain.unique file₂'.chain file₂.chain
        exact laidOut.apart old₁ old₂ ne

/-- A file less, with its links gone. -/
theorem LaidOut.remove (laidOut : LaidOut directory bat size)
    (removed : FileAt directory bat size index entry blocks)
    (others : ∀ j ≠ index, directory'.dirEntries[j]? = directory.dirEntries[j]?)
    (erased : ∀ entry', directory'.dirEntries[index]? = some entry' → entry'.isUsed = false)
    (entries : ∀ block, 5 ≤ block → block ∉ blocks → bat'.entry block = bat.entry block) :
    LaidOut directory' bat' size := by
  have kept {j : Nat} {entry' : DEntry} (at_j : directory'.dirEntries[j]? = some entry')
      (used : entry'.isUsed = true) :
      ∃ blocks', FileAt directory bat size j entry' blocks' ∧
        FileAt directory' bat' size j entry' blocks' := by
    have ne : j ≠ index := fun same => by
      rw [erased entry' (same ▸ at_j)] at used
      exact Bool.false_ne_true used
    obtain ⟨blocks', file⟩ := laidOut.files j entry' (by rw [← others j ne, at_j]) used
    have disjoint := laidOut.apart file removed ne
    exact ⟨blocks', file, file.frame at_j fun block mem =>
      entries block (file.inside block mem).1 (disjoint mem)⟩
  constructor
  · intro j entry' at_j used
    obtain ⟨blocks', -, file⟩ := kept at_j used
    exact ⟨blocks', file⟩
  · intro i j entry₁ entry₂ blocks₁ blocks₂ file₁ file₂ ne
    obtain ⟨blocks₁', old₁, file₁'⟩ := kept file₁.at_index file₁.used
    obtain ⟨blocks₂', old₂, file₂'⟩ := kept file₂.at_index file₂.used
    obtain ⟨rfl, -⟩ := Chain.unique file₁'.chain file₁.chain
    obtain ⟨rfl, -⟩ := Chain.unique file₂'.chain file₂.chain
    exact laidOut.apart old₁ old₂ ne

end Files

/-! ## Free blocks -/

namespace BlockAlloc

variable {bat bat' : BlockAlloc} {size : Nat} {blocks : List Nat}

theorem card_freeSet_add (nodup : blocks.Nodup) (free : ∀ block ∈ blocks, block ∈ bat.freeSet size)
    (taken : ∀ block ∈ blocks, block ∉ bat'.freeSet size)
    (entries : ∀ block, 5 ≤ block → block ∉ blocks → bat'.entry block = bat.entry block) :
    (bat'.freeSet size).card + blocks.length = (bat.freeSet size).card := by
  have split : bat.freeSet size = bat'.freeSet size ∪ blocks.toFinset := by
    ext block
    rw [Finset.mem_union, List.mem_toFinset]
    by_cases mem : block ∈ blocks
    · exact ⟨fun _ => .inr mem, fun _ => free block mem⟩
    · rw [or_iff_left mem, bat.mem_freeSet, bat'.mem_freeSet]
      refine and_congr_right fun bound => ?_
      rw [entries block bound.1 mem]
  have disjoint : Disjoint (bat'.freeSet size) blocks.toFinset :=
    Finset.disjoint_left.mpr fun block mem new => taken block (List.mem_toFinset.mp new) mem
  rw [split, Finset.card_union_of_disjoint disjoint, List.toFinset_card_of_nodup nodup]

end BlockAlloc

end Phocoena.Memcard
