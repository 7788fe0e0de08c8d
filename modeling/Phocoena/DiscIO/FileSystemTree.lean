import Phocoena.DiscIO.FileSystemGCWii
import Phocoena.Lib.SpanForest
import Mathlib.Algebra.BigOperators.Group.List.Basic

/-! # Valid file systems are trees

Which tables `FileSystemGCWii` accepts, and what the loops over an accepted one visit.
-/

namespace Phocoena.DiscIO

open StringUtil (Bytes)

namespace FileTable

section
variable {T : FileTable} {i j d fuel : Nat}

/-! ## Reading entries -/

/-- The entries lie in the table, which is not larger than the largest that is read. -/
structure InTable (T : FileTable) : Prop where
  fits : FST_ENTRY_SIZE * T.m_total_file_infos < T.m_fst.length
  small : T.m_fst.length ≤ ARBITRARY_FILE_SYSTEM_SIZE_LIMIT

theorem swap32At_isSome {bytes : Bytes} {position : Nat} (inside : position + 4 ≤ bytes.length) :
    ∃ word, swap32At bytes position = some word ∧ word < 2 ^ 32 := by
  have enough : 4 ≤ (bytes.drop position).length := by rw [List.length_drop]; omega
  match shape : bytes.drop position, enough with
  | a :: b :: c :: e :: rest, _ =>
      refine ⟨((a.toNat * 256 + b.toNat) * 256 + c.toNat) * 256 + e.toNat,
        by simp only [swap32At, shape], ?_⟩
      have := a.toNat_lt
      have := b.toNat_lt
      have := c.toNat_lt
      have := e.toNat_lt
      omega

/-- A word of an entry. -/
def word (T : FileTable) (m_index : Nat) (entry_property : EntryProperty) : Nat :=
  (T.Get m_index entry_property).getD 0

def directoryAt (T : FileTable) (m_index : Nat) : Prop :=
  T.word m_index .NAME_OFFSET / 2 ^ 24 ≠ 0

instance : DecidablePred T.directoryAt := fun _ => inferInstanceAs (Decidable (_ ≠ _))

/-- The entry behind an entry and what is in it. -/
def nextAt (T : FileTable) (m_index : Nat) : Nat :=
  if T.directoryAt m_index then T.word m_index .FILE_SIZE else m_index + 1

def nameAt (T : FileTable) (m_index : Nat) : Nat :=
  FST_ENTRY_SIZE * T.m_total_file_infos + T.word m_index .NAME_OFFSET % 2 ^ 24

section
variable (inTable : T.InTable)
include inTable

theorem InTable.count_lt : T.m_total_file_infos < 2 ^ 24 := by
  have := inTable.fits
  have := inTable.small
  simp only [FST_ENTRY_SIZE, ARBITRARY_FILE_SYSTEM_SIZE_LIMIT] at *
  omega

theorem InTable.GetAddress_eq (inside : i ≤ T.m_total_file_infos) :
    GetAddress i = FST_ENTRY_SIZE * i := by
  have := inTable.count_lt
  simp only [GetAddress, FST_ENTRY_SIZE]
  omega

theorem InTable.GetAddress_inj (inside : i ≤ T.m_total_file_infos)
    (inside' : j ≤ T.m_total_file_infos) : GetAddress i = GetAddress j ↔ i = j := by
  rw [inTable.GetAddress_eq inside, inTable.GetAddress_eq inside']
  simp only [FST_ENTRY_SIZE]
  omega

theorem InTable.Get_eq (inside : i < T.m_total_file_infos) (p : EntryProperty) :
    T.Get i p = some (T.word i p) ∧ T.word i p < 2 ^ 32 := by
  have position : GetAddress i + 4 * p.number + 4 ≤ T.m_fst.length := by
    have := inTable.fits
    rw [inTable.GetAddress_eq inside.le]
    simp only [FST_ENTRY_SIZE] at *
    cases p <;> simp only [EntryProperty.number] <;> omega
  have ⟨v, read, small⟩ := swap32At_isSome position
  have got : T.Get i p = some v := read
  exact ⟨by simp [word, got], by simpa only [word, got, Option.getD_some] using small⟩

theorem InTable.IsDirectory_eq (inside : i < T.m_total_file_infos) :
    T.IsDirectory i = some (decide (T.directoryAt i)) := by
  simp [IsDirectory, (inTable.Get_eq inside _).1, directoryAt]

theorem InTable.GetSize_eq (inside : i < T.m_total_file_infos) :
    T.GetSize i = some (T.word i .FILE_SIZE) := (inTable.Get_eq inside _).1

theorem InTable.GetNameOffset_eq (inside : i < T.m_total_file_infos) :
    T.GetNameOffset i = some (T.nameAt i) := by
  simp [GetNameOffset, (inTable.Get_eq inside _).1, nameAt]

theorem InTable.GetNextIndex_eq (inside : i < T.m_total_file_infos) :
    T.GetNextIndex i = some (T.nextAt i) := by
  have small : i + 1 < 2 ^ 32 := by have := inTable.count_lt; omega
  by_cases directory : T.directoryAt i
  · simp [GetNextIndex, inTable.IsDirectory_eq inside, directory, inTable.GetSize_eq inside, nextAt]
  · simpa [GetNextIndex, inTable.IsDirectory_eq inside, directory, nextAt] using small

/-! ## What is accepted -/

theorem InTable.checkEntry_eq (inside : i < T.m_total_file_infos)
    (inside' : d < T.m_total_file_infos) :
    T.checkEntry T.m_fst.length i d = some (decide (T.nameAt i < T.m_fst.length ∧
      (T.directoryAt i → T.word i .FILE_OFFSET = d ∧ i < T.word i .FILE_SIZE ∧
        T.word i .FILE_SIZE ≤ T.word d .FILE_SIZE))) := by
  have offset := (inTable.Get_eq inside .FILE_OFFSET).1
  have size := inTable.GetSize_eq inside
  have parent := inTable.GetSize_eq inside'
  simp only [checkEntry, inTable.GetNameOffset_eq inside, inTable.IsDirectory_eq inside,
    Option.bind_some, offset, size, parent, Option.map_some]
  by_cases named : T.nameAt i < T.m_fst.length
  · by_cases directory : T.directoryAt i
    · by_cases within : T.word i .FILE_OFFSET = d
      · by_cases large : i < T.word i .FILE_SIZE <;>
          simp [named, directory, within, large, Nat.not_le.mpr, Nat.not_lt.mp]
      · simp [named, directory, within]
    · simp [named, directory]
  · simp [named, Nat.not_lt.mp named]

end

/-- The table as a sequence of spans. -/
def spans (T : FileTable) : SpanTable where
  inner := T.directoryAt
  finish := T.nextAt
  parent := fun i => T.word i .FILE_OFFSET
  acceptable := fun i => T.nameAt i < T.m_fst.length

instance : DecidablePred T.spans.inner := inferInstanceAs (DecidablePred T.directoryAt)

@[simp] theorem spans_inner (T : FileTable) : T.spans.inner = T.directoryAt := rfl
@[simp] theorem spans_finish (T : FileTable) : T.spans.finish = T.nextAt := rfl
@[simp] theorem spans_parent (T : FileTable) : T.spans.parent i = T.word i .FILE_OFFSET := rfl
@[simp] theorem spans_acceptable (T : FileTable) :
    T.spans.acceptable i = (T.nameAt i < T.m_fst.length) := rfl

theorem nextAt_directory (directory : T.directoryAt i) : T.nextAt i = T.word i .FILE_SIZE := by
  simp [nextAt, directory]

theorem nextAt_file (file : ¬ T.directoryAt i) : T.nextAt i = i + 1 := by simp [nextAt, file]

/-- An entry passes its checks and so does all that is in it. -/
def Passes (T : FileTable) (d i : Nat) : Prop :=
  T.spans.acceptable i ∧ (T.directoryAt i → T.word i .FILE_OFFSET = d ∧ i < T.nextAt i ∧
    T.nextAt i ≤ T.nextAt d ∧ ∃ contents, T.spans.Holds i (T.nextAt i) (i + 1) contents)

/-- The entries up to the end of a directory: the first one and those behind what is in it. -/
theorem holds_step (before : i < T.nextAt d) : (∃ f, T.spans.Holds d (T.nextAt d) i f) ↔
    T.Passes d i ∧ ∃ others, T.spans.Holds d (T.nextAt d) (T.nextAt i) others := by
  constructor
  · rintro ⟨f, held⟩
    cases held with
    | nil => omega
    | leaf ok outer rest =>
        exact ⟨⟨ok, fun directory => absurd directory outer⟩, _, nextAt_file outer ▸ rest⟩
    | node ok inner within starts ends inside rest =>
        exact ⟨⟨ok, fun _ => ⟨within, starts, ends, _, inside⟩⟩, _, rest⟩
  · rintro ⟨⟨ok, spans⟩, others, rest⟩
    by_cases directory : T.directoryAt i
    · have ⟨within, starts, ends, contents, inside⟩ := spans directory
      exact ⟨_, .node ok directory within starts ends inside rest⟩
    · exact ⟨_, .leaf ok directory (nextAt_file directory ▸ rest)⟩

theorem Passes.next (passes : T.Passes d i) (before : i < T.nextAt d) :
    i < T.nextAt i ∧ T.nextAt i ≤ T.nextAt d := by
  by_cases directory : T.directoryAt i
  · have ⟨_, starts, ends, _⟩ := passes.2 directory
    exact ⟨starts, ends⟩
  · have := nextAt_file directory
    omega

/-- With enough fuel the checks end, without a fault, and say whether the entries are a forest. -/
theorem InTable.checks (inTable : T.InTable) (fuel : Nat) :
    (∀ i d, T.directoryAt d → d ≤ i → i < T.nextAt d → T.nextAt d ≤ T.m_total_file_infos →
      2 * (T.nextAt d - i) ≤ fuel →
      ∃ valid, T.IsValid T.m_fst.length fuel i d = some valid ∧ (valid ↔ T.Passes d i)) ∧
    ∀ i d, T.directoryAt d → d < i → i ≤ T.nextAt d → T.nextAt d ≤ T.m_total_file_infos →
      2 * (T.nextAt d - i) < fuel →
      ∃ valid, T.checkChildren T.m_fst.length fuel (T.nextAt d) d i = some valid ∧
        (valid ↔ ∃ f, T.spans.Holds d (T.nextAt d) i f) := by
  induction fuel with
  | zero => exact ⟨fun i d _ _ _ _ _ => by omega, fun i d _ _ _ _ _ => by omega⟩
  | succ fuel ih =>
      obtain ⟨entries, contents⟩ := ih
      constructor
      · intro i d parent after inside small enough
        rw [IsValid, inTable.checkEntry_eq (by omega) (by omega),
          inTable.IsDirectory_eq (by omega), inTable.GetNextIndex_eq (by omega)]
        by_cases named : T.nameAt i < T.m_fst.length
        · by_cases directory : T.directoryAt i
          · rw [← nextAt_directory directory, ← nextAt_directory parent]
            by_cases checks : T.word i .FILE_OFFSET = d ∧ i < T.nextAt i ∧ T.nextAt i ≤ T.nextAt d
            · have ⟨valid, ran, meant⟩ := contents (i + 1) i directory (Nat.lt_succ_self i)
                checks.2.1 (by omega) (by omega)
              exact ⟨valid, by simp [named, directory, checks, ran],
                by simp [meant, Passes, named, directory, checks]⟩
            · refine ⟨false, by simp [named, directory, checks], ?_⟩
              simp only [Bool.false_eq_true, Passes, false_iff]
              rintro ⟨_, spans⟩
              have ⟨within, starts, ends, _⟩ := spans directory
              exact checks ⟨within, starts, ends⟩
          · exact ⟨true, by simp [named, directory], by simp [named, directory, Passes]⟩
        · exact ⟨false, by simp [named], by simp [named, Passes]⟩
      · intro i d parent after inside small enough
        simp only [checkChildren, inTable.GetAddress_inj (inside.trans small) small]
        by_cases ended : i = T.nextAt d
        · exact ⟨true, by simp [ended], by simpa [ended] using ⟨_, .nil⟩⟩
        · have before : i < T.nextAt d := by omega
          have ⟨valid, ran, meant⟩ := entries i d parent after.le before small (by omega)
          simp only [if_neg ended, ran, inTable.GetNextIndex_eq (before.trans_le small),
            holds_step before, Option.bind_some]
          by_cases passes : T.Passes d i
          · have ⟨starts, ends⟩ := passes.next before
            have ⟨rest, ranRest, meantRest⟩ :=
              contents (T.nextAt i) d parent (by omega) ends small (by omega)
            exact ⟨rest, by simp [meant.mpr passes, ranRest], by simp [meantRest, passes]⟩
          · exact ⟨false, by simp [mt meant.mp passes], by simp [passes]⟩

/-- The entries in the table are those of a directory and the ones in it. -/
structure IsTree (T : FileTable) : Prop where
  inTable : T.InTable
  ends : T.m_fst.getLast? = some 0
  root : T.directoryAt 0
  count : T.nextAt 0 = T.m_total_file_infos
  named : T.nameAt 0 < T.m_fst.length
  outermost : T.word 0 .FILE_OFFSET = 0
  contents : ∃ f, T.spans.Holds 0 T.m_total_file_infos 1 f

theorem IsTree.nonempty (tree : T.IsTree) : 0 < T.m_total_file_infos := by
  obtain ⟨f, held⟩ := tree.contents
  exact held.le

/-- The first entry can be read of any table that is not too short for it. -/
theorem Get_root (long : FST_ENTRY_SIZE ≤ T.m_fst.length) (p : EntryProperty) :
    T.Get 0 p = some (T.word 0 p) := by
  have position : GetAddress 0 + 4 * p.number + 4 ≤ T.m_fst.length := by
    simp only [FST_ENTRY_SIZE] at long
    cases p <;> simp only [GetAddress, EntryProperty.number] <;> omega
  have ⟨v, read, _⟩ := swap32At_isSome position
  have got : T.Get 0 p = some v := read
  simp [word, got]

theorem IsDirectory_root (long : FST_ENTRY_SIZE ≤ T.m_fst.length) :
    T.IsDirectory 0 = some (decide (T.directoryAt 0)) := by
  simp [IsDirectory, Get_root long, directoryAt]

theorem GetNameOffset_root (long : FST_ENTRY_SIZE ≤ T.m_fst.length) :
    T.GetNameOffset 0 = some (T.nameAt 0) := by
  simp [GetNameOffset, Get_root long, nameAt]

theorem IsValid_unnamed (long : FST_ENTRY_SIZE ≤ T.m_fst.length)
    (unnamed : T.m_fst.length ≤ T.nameAt 0) (fuel : Nat) :
    T.IsValid T.m_fst.length (fuel + 1) 0 0 = some false := by
  simp [IsValid, checkEntry, GetNameOffset_root long, unnamed]

/-- A root with no entries in it does not even have itself in it. -/
theorem IsValid_empty (long : FST_ENTRY_SIZE ≤ T.m_fst.length) (root : T.directoryAt 0)
    (empty : T.word 0 .FILE_SIZE = 0) (fuel : Nat) :
    T.IsValid T.m_fst.length (fuel + 1) 0 0 = some false := by
  by_cases named : T.nameAt 0 < T.m_fst.length
  · by_cases outermost : T.word 0 .FILE_OFFSET = 0 <;>
      simp [IsValid, checkEntry, GetNameOffset_root long, IsDirectory_root long, GetSize,
        Get_root long, root, outermost, empty]
  · exact IsValid_unnamed long (Nat.not_lt.mp named) fuel

theorem InTable.IsValid_root (inTable : T.InTable) (root : T.directoryAt 0)
    (count : T.nextAt 0 = T.m_total_file_infos) (nonempty : 0 < T.m_total_file_infos)
    (fuel : Nat) (enough : 2 * T.m_total_file_infos ≤ fuel) :
    ∃ valid, T.IsValid T.m_fst.length fuel 0 0 = some valid ∧ (valid ↔
      T.nameAt 0 < T.m_fst.length ∧ T.word 0 .FILE_OFFSET = 0 ∧
        ∃ f, T.spans.Holds 0 T.m_total_file_infos 1 f) := by
  have ⟨valid, ran, meant⟩ := (inTable.checks fuel).1 0 0 root le_rfl (by omega) count.le (by omega)
  refine ⟨valid, ran, meant.trans ?_⟩
  simp [Passes, root, count, nonempty]

end

end FileTable

theorem openTable_bytes {bytes : Bytes} {offset_shift : Nat} {T : FileTable}
    (opened : openTable bytes offset_shift = some T) : T.m_fst = bytes := by
  obtain ⟨size, _, rfl⟩ := Option.map_eq_some_iff.mp opened
  rfl

open FileTable in
/-- Opening a file system ends without a read outside of the table, whatever is in it, and accepts
exactly the tables whose entries are a tree. -/
theorem createFileSystem_decides (bytes : Bytes) (offset_shift fuel : Nat)
    (enough : bytes.length ≤ fuel) :
    ∃ valid, createFileSystem fuel bytes offset_shift = some valid ∧
      (valid ↔ ∃ T, openTable bytes offset_shift = some T ∧ T.IsTree) := by
  obtain long | short := Nat.lt_or_ge bytes.length FST_ENTRY_SIZE |>.symm
  · obtain ⟨fuel, rfl⟩ : ∃ less, fuel = less + 1 :=
      ⟨fuel - 1, by simp only [FST_ENTRY_SIZE] at long; omega⟩
    by_cases small : bytes.length ≤ ARBITRARY_FILE_SYSTEM_SIZE_LIMIT
    · let T : FileTable := ⟨bytes, offset_shift, word ⟨bytes, offset_shift, 0⟩ 0 .FILE_SIZE⟩
      have opened : openTable bytes offset_shift = some T := by
        simp [openTable, GetSize, Get_root (T := ⟨bytes, offset_shift, 0⟩) long, T]
      simp only [createFileSystem, Nat.not_lt.mpr long, Nat.not_lt.mpr small, opened,
        Option.bind_some, IsDirectory_root (T := T) long, if_false, Option.some.injEq,
        exists_eq_left']
      by_cases root : T.directoryAt 0
      · have count : T.nextAt 0 = T.m_total_file_infos := nextAt_directory root
        simp only [root, decide_true, if_true]
        by_cases ends : bytes.getLast? = some 0
        · simp only [ends, ne_eq, not_true, if_false]
          by_cases fits : FST_ENTRY_SIZE * T.m_total_file_infos < bytes.length
          · have inTable : T.InTable := ⟨fits, small⟩
            have narrow : ¬ FST_ENTRY_SIZE * T.m_total_file_infos % 2 ^ 32 > bytes.length := by
              have := Nat.mod_le (FST_ENTRY_SIZE * T.m_total_file_infos) (2 ^ 32)
              omega
            rw [if_neg narrow]
            obtain empty | nonempty := Nat.eq_zero_or_pos T.m_total_file_infos
            · exact ⟨false, IsValid_empty (T := T) long root empty fuel,
                by simpa using fun tree : T.IsTree => by have := tree.nonempty; omega⟩
            · have ⟨valid, ran, meant⟩ := inTable.IsValid_root root count nonempty (fuel + 1)
                (by simp only [FST_ENTRY_SIZE] at fits; omega)
              refine ⟨valid, ran, meant.trans ⟨fun ⟨named, outermost, contents⟩ =>
                ⟨inTable, ends, root, count, named, outermost, contents⟩, fun tree =>
                ⟨tree.named, tree.outermost, tree.contents⟩⟩⟩
          · refine ⟨false, ?_, by simpa using fun tree : T.IsTree => fits tree.inTable.fits⟩
            by_cases wide : FST_ENTRY_SIZE * T.m_total_file_infos % 2 ^ 32 > bytes.length
            · rw [if_pos wide]
            · rw [if_neg wide]
              exact IsValid_unnamed (T := T) long
                ((Nat.not_lt.mp fits).trans (Nat.le_add_right _ _)) fuel
        · exact ⟨false, by simp [ends], by simpa using fun tree : T.IsTree => ends tree.ends⟩
      · exact ⟨false, by simp [root], by simpa using fun tree : T.IsTree => root tree.root⟩
    · refine ⟨false, by simp [createFileSystem, Nat.not_le.mp small], ?_⟩
      simp only [Bool.false_eq_true, false_iff]
      rintro ⟨T, opened, tree⟩
      exact small (openTable_bytes opened ▸ tree.inTable.small)
  · refine ⟨false, by simp [createFileSystem, short], ?_⟩
    simp only [Bool.false_eq_true, false_iff]
    rintro ⟨T, opened, tree⟩
    have fits := openTable_bytes opened ▸ tree.inTable.fits
    have := tree.nonempty
    simp only [FST_ENTRY_SIZE] at fits short
    omega

/-- A root with one file, whose name is empty. -/
theorem createFileSystem_decides_file :
    ∃ valid, createFileSystem 25 ([1, 0, 0, 0, 0, 0, 0, 0, 0, 0, 0, 2] ++
        [0, 0, 0, 0, 0, 0, 0, 16, 0, 0, 0, 32] ++ [0]) 0 = some valid ∧
      (valid ↔ ∃ T, openTable ([1, 0, 0, 0, 0, 0, 0, 0, 0, 0, 0, 2] ++
        [0, 0, 0, 0, 0, 0, 0, 16, 0, 0, 0, 32] ++ [0]) 0 = some T ∧ T.IsTree) :=
  createFileSystem_decides _ 0 25 (by decide)

end Phocoena.DiscIO
