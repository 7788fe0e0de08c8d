import Phocoena.DiscIO.FileSystemTree
import Mathlib.Algebra.Order.BigOperators.Group.List
import Mathlib.Algebra.Order.Group.Nat

/-! # Lookups in a file system

What the loops over the entries of a valid file system visit, and that an entry is found by its
path and by its place on the disc.
-/

namespace Phocoena.DiscIO

open StringUtil (Bytes toLower)

namespace FileTable

variable {T : FileTable} {i j d e stop fuel : Nat} {f : SpanForest}

/-! ## Directories -/

theorem InTable.siblings_cons (inTable : T.InTable) (before : i < stop)
    (small : stop ≤ T.m_total_file_infos) (fuel : Nat) :
    T.siblings stop (fuel + 1) i = (T.siblings stop fuel (T.nextAt i)).map (i :: ·) := by
  simp only [siblings, inTable.GetAddress_inj (before.le.trans small) small, before.ne, if_false,
    inTable.GetNextIndex_eq (before.trans_le small), Option.bind_some]

theorem InTable.siblings_eq (inTable : T.InTable) (held : T.spans.Holds d stop i f)
    (small : stop ≤ T.m_total_file_infos) (enough : stop - i < fuel) :
    T.siblings stop fuel i = some f.roots := by
  induction held generalizing fuel with
  | nil =>
      obtain ⟨fuel, rfl⟩ := Nat.exists_eq_succ_of_ne_zero (Nat.ne_zero_of_lt enough)
      simp [siblings, SpanForest.roots]
  | leaf _ outer rest ih =>
      obtain ⟨fuel, rfl⟩ := Nat.exists_eq_succ_of_ne_zero (Nat.ne_zero_of_lt enough)
      have := rest.le
      rw [Nat.succ_eq_add_one, inTable.siblings_cons (by omega) small, nextAt_file outer,
        ih small (by omega)]
      rfl
  | node _ inner _ starts ends inside rest _ ih =>
      obtain ⟨fuel, rfl⟩ := Nat.exists_eq_succ_of_ne_zero (Nat.ne_zero_of_lt enough)
      simp only [spans_finish] at starts ends ih
      rw [Nat.succ_eq_add_one, inTable.siblings_cons (by omega) small, ih small (by omega)]
      rfl

/-- The contents of every directory. -/
theorem IsTree.contentsAt (tree : T.IsTree) (inside : d < T.m_total_file_infos)
    (directory : T.directoryAt d) :
    d < T.nextAt d ∧ T.nextAt d ≤ T.m_total_file_infos ∧
      ∃ contents, T.spans.Holds d (T.nextAt d) (d + 1) contents := by
  obtain ⟨f, held⟩ := tree.contents
  obtain rfl | later := Nat.eq_zero_or_pos d
  · have := tree.count
    exact ⟨by omega, by omega, f, this ▸ held⟩
  · exact (held.inside later inside).2 directory

theorem IsTree.children_directory (tree : T.IsTree) (inside : d < T.m_total_file_infos)
    (directory : T.directoryAt d) (enough : T.nextAt d - d ≤ fuel)
    (held : T.spans.Holds d (T.nextAt d) (d + 1) f) : T.children fuel d = some f.roots := by
  have ⟨starts, ends, _⟩ := tree.contentsAt inside directory
  rw [children, tree.inTable.GetNextIndex_eq inside, Option.bind_some,
    tree.inTable.siblings_eq held ends (by omega)]

theorem IsTree.children_file (tree : T.IsTree) (inside : d < T.m_total_file_infos)
    (file : ¬ T.directoryAt d) (enough : 0 < fuel) : T.children fuel d = some [] := by
  rw [children, tree.inTable.GetNextIndex_eq inside, Option.bind_some, nextAt_file file,
    tree.inTable.siblings_eq (d := d) .nil inside (by omega)]
  rfl

/-- What the loop over an entry visits: the entries whose innermost directory it is. -/
theorem IsTree.children_eq (tree : T.IsTree) (inside : d < T.m_total_file_infos)
    (enough : T.m_total_file_infos ≤ fuel) :
    ∃ entries, T.children fuel d = some entries ∧
      ∀ j, j ∈ entries ↔ T.spans.Encloses d j := by
  by_cases directory : T.directoryAt d
  · have ⟨starts, ends, contents, held⟩ := tree.contentsAt inside directory
    exact ⟨contents.roots, tree.children_directory inside directory (by omega) held,
      fun j => held.roots_enclosed directory⟩
  · refine ⟨[], tree.children_file inside directory (by omega), fun j => ?_⟩
    exact ⟨fun member => by simp at member, fun encloses => absurd encloses.inner directory⟩

/-! ## Sizes -/

def fileSizes (T : FileTable) (files : List Nat) : Nat :=
  (files.map fun i => T.word i .FILE_SIZE).sum

/-- The files from an entry on. -/
def filesIn (T : FileTable) (i count : Nat) : List Nat :=
  (List.range' i count).filter fun j => ¬ T.directoryAt j

theorem word_lt (inTable : T.InTable) (inside : i < T.m_total_file_infos) (p : EntryProperty) :
    T.word i p < 2 ^ 32 := (inTable.Get_eq inside p).2

theorem fileSizes_le (files : List Nat) (small : ∀ i ∈ files, T.word i .FILE_SIZE < 2 ^ 32) :
    T.fileSizes files ≤ files.length * 2 ^ 32 := by
  have bounded := List.sum_le_card_nsmul (files.map fun i => T.word i .FILE_SIZE) (2 ^ 32)
    (by simpa using fun i member => (small i member).le)
  simpa [fileSizes] using bounded

/-- So many sizes of 32 bits do not overflow 64 bits. -/
theorem IsTree.fileSizes_lt (tree : T.IsTree) (held : T.spans.Holds d stop i f)
    (small : stop ≤ T.m_total_file_infos) : T.fileSizes f.leaves < 2 ^ 64 := by
  have count := tree.inTable.count_lt
  have bound := fileSizes_le (T := T) f.leaves (by
    rw [held.leaves_eq]
    intro j member
    have ⟨listed, _⟩ := List.mem_filter.mp member
    have ⟨_, before⟩ := List.mem_range'_1.mp listed
    have := held.le
    exact word_lt tree.inTable (by omega) _)
  have few : f.leaves.length ≤ stop - i := by
    rw [held.leaves_eq]
    exact (List.length_filter_le _ _).trans (by simp)
  have := Nat.mul_le_mul_right (2 ^ 32) few
  omega

theorem IsTree.sizes_eq (tree : T.IsTree) (held : T.spans.Holds d stop i f)
    (small : stop ≤ T.m_total_file_infos) (enough : stop - i < fuel) :
    ∃ sizes, f.roots.mapM (T.GetTotalSize fuel) = some sizes ∧
      sizes.sum = T.fileSizes f.leaves := by
  induction held generalizing fuel with
  | nil => exact ⟨[], rfl, rfl⟩
  | @leaf d stop i others _ outer rest ih =>
      obtain ⟨fuel, rfl⟩ := Nat.exists_eq_succ_of_ne_zero (Nat.ne_zero_of_lt enough)
      have := rest.le
      obtain ⟨sizes, read, total⟩ := @ih (fuel + 1) small (by omega)
      have own : T.GetTotalSize (fuel + 1) i = some (T.word i .FILE_SIZE) := by
        rw [GetTotalSize, tree.inTable.IsDirectory_eq (by omega),
          tree.inTable.GetSize_eq (by omega)]
        simp [show ¬ T.directoryAt i from outer]
      refine ⟨T.word i .FILE_SIZE :: sizes, ?_, ?_⟩
      · simp [SpanForest.roots, own, read]
      · simpa [SpanForest.leaves, fileSizes] using total
  | @node d stop i contents others _ inner _ starts ends inside rest below after =>
      obtain ⟨fuel, rfl⟩ := Nat.exists_eq_succ_of_ne_zero (Nat.ne_zero_of_lt enough)
      simp only [spans_finish] at starts ends inside rest below after
      obtain ⟨sizes, read, total⟩ := @after (fuel + 1) small (by omega)
      obtain ⟨sizes', read', total'⟩ := @below fuel (by omega) (by omega)
      have own : T.GetTotalSize (fuel + 1) i = some (T.fileSizes contents.leaves) := by
        rw [GetTotalSize, tree.inTable.IsDirectory_eq (by omega),
          tree.children_directory (by omega) inner (by omega) inside]
        simpa [show T.directoryAt i from inner, read', total'] using
          tree.fileSizes_lt inside (by omega)
      refine ⟨T.fileSizes contents.leaves :: sizes, ?_, ?_⟩
      · simp [SpanForest.roots, own, read]
      · simp [SpanForest.leaves, fileSizes, total]

/-- The total size of a directory is the sum of the sizes of the files in it and below it. -/
theorem IsTree.GetTotalSize_directory (tree : T.IsTree) (inside : d < T.m_total_file_infos)
    (directory : T.directoryAt d) (enough : T.m_total_file_infos < fuel) :
    T.GetTotalSize fuel d =
      some (T.fileSizes (T.filesIn (d + 1) (T.nextAt d - (d + 1)))) := by
  have ⟨starts, ends, contents, held⟩ := tree.contentsAt inside directory
  obtain ⟨fuel, rfl⟩ := Nat.exists_eq_succ_of_ne_zero (Nat.ne_zero_of_lt enough)
  obtain ⟨sizes, read, total⟩ :=
    tree.sizes_eq held ends (show T.nextAt d - (d + 1) < fuel by omega)
  have leaves : contents.leaves = T.filesIn (d + 1) (T.nextAt d - (d + 1)) := held.leaves_eq
  rw [GetTotalSize, tree.inTable.IsDirectory_eq inside,
    tree.children_directory inside directory (by omega) held]
  simpa [directory, read, total, ← leaves] using tree.fileSizes_lt held ends

/-! ## Paths -/

theorem mem_drop_of_getLast {bytes : Bytes} {position : Nat} (ends : bytes.getLast? = some 0)
    (inside : position < bytes.length) : 0 ∈ bytes.drop position := by
  have last : (bytes.drop position).getLast? = some 0 := by
    rw [List.getLast?_drop, if_neg (by omega), ends]
  exact List.mem_of_getLast? last

/-- Every name ends before the table does. -/
theorem IsTree.rawName_isSome (tree : T.IsTree) (inside : i < T.m_total_file_infos) :
    ∃ name, T.rawName i = some name := by
  have named : T.nameAt i < T.m_fst.length := by
    obtain ⟨f, held⟩ := tree.contents
    obtain rfl | later := Nat.eq_zero_or_pos i
    · exact tree.named
    · exact (held.inside later inside).1
  refine ⟨(T.m_fst.drop (T.nameAt i)).takeWhile (· ≠ 0), ?_⟩
  simp [rawName, tree.inTable.GetNameOffset_eq inside, stringAt,
    mem_drop_of_getLast tree.ends named]

theorem IsTree.enclosed (tree : T.IsTree) (later : 0 < i) (inside : i < T.m_total_file_infos) :
    ∃ d, T.spans.Encloses d i := by
  obtain ⟨f, held⟩ := tree.contents
  have count := tree.count
  have ⟨d, _, encloses⟩ :=
    SpanTable.Holds.enclosed (S := T.spans) (f := f) (by simpa [count] using held) tree.root later
      (by simpa [count] using inside)
  exact ⟨d, encloses⟩

/-- A directory names the directory it is in. -/
theorem IsTree.offset_eq (tree : T.IsTree) (inside : i < T.m_total_file_infos)
    (encloses : T.spans.Encloses d i) (directory : T.directoryAt i) :
    T.word i .FILE_OFFSET = d := by
  have ⟨_, _, contents, held⟩ := tree.contentsAt (encloses.before.trans inside) encloses.inner
  exact held.parent ((held.roots_enclosed encloses.inner).mpr encloses) directory

/-- The search backwards stops at the directory around an entry, and not before. -/
theorem IsTree.findParent_eq (tree : T.IsTree) (inside : i < T.m_total_file_infos)
    (encloses : T.spans.Encloses d i) {k : Nat} (above : d ≤ k) (before : k < i) :
    T.findParent i k = some d := by
  have found : T.word d .FILE_SIZE > i := by
    rw [← nextAt_directory encloses.inner]
    exact encloses.within
  have inner : T.directoryAt d := encloses.inner
  induction k with
  | zero =>
      obtain rfl : d = 0 := by omega
      simp [findParent, tree.inTable.IsDirectory_eq (before.trans inside), inner,
        tree.inTable.GetSize_eq (before.trans inside), found]
  | succ k ih =>
      rw [findParent, tree.inTable.IsDirectory_eq (before.trans inside),
        tree.inTable.GetSize_eq (before.trans inside)]
      obtain rfl | further := Nat.eq_or_lt_of_le above
      · simp [inner, found]
      · have past : T.directoryAt (k + 1) → T.word (k + 1) .FILE_SIZE ≤ i := fun directory =>
          nextAt_directory directory ▸ encloses.innermost (k + 1) further before directory
        by_cases directory : T.directoryAt (k + 1)
        · simpa [directory, Nat.not_lt.mpr (past directory)] using ih (by omega) (by omega)
        · simpa [directory] using ih (by omega) (by omega)

section
variable (SHIFTJISToUTF8 : Bytes → Bytes)

/-- What stands behind the name in the path of an entry. -/
def closing (T : FileTable) (i : Nat) : Bytes := if T.directoryAt i then [0x2f] else []

theorem IsTree.GetPath_step (tree : T.IsTree) (inside : i < T.m_total_file_infos)
    (encloses : T.spans.Encloses d i) (fuel : Nat) :
    T.GetPath SHIFTJISToUTF8 (fuel + 1) i = (T.GetPath SHIFTJISToUTF8 fuel d).bind fun path =>
      (T.GetName SHIFTJISToUTF8 i).map fun name => path ++ name ++ T.closing i := by
  have later : i ≠ 0 := by have := encloses.before; omega
  rw [GetPath, if_neg later, tree.inTable.IsDirectory_eq inside]
  by_cases directory : T.directoryAt i
  · simp [directory, (tree.inTable.Get_eq inside _).1, tree.offset_eq inside encloses directory,
      closing]
  · have found := tree.findParent_eq inside encloses (k := i - 1)
      (by have := encloses.before; omega) (by omega)
    simp [directory, found, closing]

theorem IsTree.GetPath_isSome (tree : T.IsTree) (inside : i < T.m_total_file_infos) :
    ∃ path, ∀ fuel, i < fuel → T.GetPath SHIFTJISToUTF8 fuel i = some path := by
  induction i using Nat.strong_induction_on with
  | _ i ih =>
      obtain rfl | later := Nat.eq_zero_or_pos i
      · refine ⟨[], fun fuel enough => ?_⟩
        obtain ⟨fuel, rfl⟩ := Nat.exists_eq_succ_of_ne_zero (Nat.ne_zero_of_lt enough)
        simp [GetPath]
      · have ⟨d, encloses⟩ := tree.enclosed later inside
        have before := encloses.before
        have ⟨path, read⟩ := ih d before (before.trans inside)
        have ⟨name, named⟩ := tree.rawName_isSome inside
        refine ⟨path ++ SHIFTJISToUTF8 name ++ T.closing i, fun fuel enough => ?_⟩
        obtain ⟨fuel, rfl⟩ := Nat.exists_eq_succ_of_ne_zero (Nat.ne_zero_of_lt enough)
        rw [Nat.succ_eq_add_one, tree.GetPath_step SHIFTJISToUTF8 inside encloses,
          read fuel (by omega)]
        simp [GetName, named]

/-- Every entry but the root is in one directory, and its path is the path of the directory with
its name behind it. -/
theorem IsTree.paths (tree : T.IsTree) (later : 0 < i) (inside : i < T.m_total_file_infos)
    (enough : T.m_total_file_infos ≤ fuel) :
    ∃ d entries path name, d < i ∧ T.IsDirectory d = some true ∧
      T.children fuel d = some entries ∧ i ∈ entries ∧
      (∀ e < T.m_total_file_infos, ∀ others, T.children fuel e = some others → i ∈ others →
        e = d) ∧
      T.GetPath SHIFTJISToUTF8 fuel d = some path ∧ T.GetName SHIFTJISToUTF8 i = some name ∧
      T.GetPath SHIFTJISToUTF8 fuel i = some (path ++ name ++ T.closing i) := by
  have ⟨d, encloses⟩ := tree.enclosed later inside
  have before := encloses.before
  have ⟨entries, listed, members⟩ := tree.children_eq (before.trans inside) enough
  have ⟨path, read⟩ := tree.GetPath_isSome SHIFTJISToUTF8 (before.trans inside)
  have ⟨name, named⟩ := tree.rawName_isSome inside
  refine ⟨d, entries, path, SHIFTJISToUTF8 name, before, ?_, listed, (members i).mpr encloses, ?_,
    read fuel (by omega), by simp [GetName, named], ?_⟩
  · have inner : T.directoryAt d := encloses.inner
    simp [tree.inTable.IsDirectory_eq (before.trans inside), inner]
  · intro e here others listed' member
    have ⟨entries', listed'', members'⟩ := tree.children_eq here enough
    obtain rfl : others = entries' := by simpa [listed'] using listed''
    exact ((members' i).mp member).unique encloses
  · obtain ⟨fuel, rfl⟩ : ∃ less, fuel = less + 1 := ⟨fuel - 1, by omega⟩
    rw [tree.GetPath_step SHIFTJISToUTF8 inside encloses, read fuel (by omega)]
    simp [GetName, named]

/-! ## Searching for a path -/

/-- The characters that are the same in ASCII and every kind of Shift-JIS, and no slashes. -/
def Plain (b : UInt8) : Prop := b < 0x80 ∧ b ≠ 0x2f ∧ b ≠ 0x5c ∧ b ≠ 0x7e

instance : DecidablePred Plain := fun _ => inferInstanceAs (Decidable (_ ∧ _))

instance (name : Bytes) : Decidable (name ≠ [] ∧ ∀ b ∈ name, Plain b) :=
  @instDecidableAnd _ _ _ (List.decidableBAll _ name)

/-- No two entries of a directory have the same name. -/
def DifferIn (T : FileTable) (d : Nat) : Prop :=
  ∀ entries ∈ T.children T.m_total_file_infos d, ∀ a ∈ entries, ∀ b ∈ entries, a ≠ b →
    (T.rawName a).map (·.map toLower) ≠ (T.rawName b).map (·.map toLower)

instance : DecidablePred T.DifferIn := fun d =>
  inferInstanceAs (Decidable (∀ entries ∈ T.children T.m_total_file_infos d, _))

/-- The names are plain and those in a directory differ. -/
structure NamesDiffer (T : FileTable) : Prop where
  plain : ∀ i < T.m_total_file_infos, 0 < i → ∀ name ∈ T.rawName i,
    name ≠ [] ∧ ∀ b ∈ name, Plain b
  differ : ∀ d < T.m_total_file_infos, T.DifferIn d

theorem nameEquals_plain {this other : Bytes} (plain : ∀ b ∈ this, Plain b) :
    nameEquals SHIFTJISToUTF8 this other = decide (this.map toLower = other.map toLower) := by
  induction this generalizing other with
  | nil => cases other <;> simp [nameEquals]
  | cons a this ih =>
      have ⟨small, _⟩ := plain a (by simp)
      have ascii : ¬ 0x80 ≤ a := by simpa using small
      cases other with
      | nil => simp [nameEquals]
      | cons b other =>
          by_cases same : toLower a = toLower b
          · simpa [nameEquals, ascii, same] using ih fun c member => plain c (by simp [member])
          · simp [nameEquals, ascii, same]

/-- A path that begins with a name is cut behind it. -/
theorem splitPath_name {name rest : Bytes} (nonempty : name ≠ []) (plain : ∀ b ∈ name, Plain b)
    (cut : rest.head? = none ∨ rest.head? = some 0x2f) :
    splitPath (name ++ rest) = some (name, rest.drop 1) := by
  have noSlash : ∀ b ∈ name, (decide (b ≠ 0x2f)) = true := fun b member => by
    simpa using (plain b member).2.1
  have split : (name ++ rest).takeWhile (· ≠ 0x2f) = name ∧
      (name ++ rest).dropWhile (· ≠ 0x2f) = rest := by
    rw [List.takeWhile_append_of_pos noSlash, List.dropWhile_append_of_pos noSlash]
    cases rest with
    | nil => simp
    | cons c rest =>
        obtain rfl : c = 0x2f := by simpa using cut
        simp
  cases name with
  | nil => exact absurd rfl nonempty
  | cons a name =>
      have start : a ≠ 0x2f := (plain a (by simp)).2.1
      have kept : (a :: name ++ rest).dropWhile (· = 0x2f) = a :: (name ++ rest) := by
        simp [start]
      simp only [splitPath, kept]
      rw [← List.cons_append, split.1, split.2]

/-- The loop stops at the only child with the name if the search succeeds there. -/
theorem firstFound_only {matches_name : Nat → Option Bool} {search : Nat → Option (Option Nat)}
    {entries : List Nat} {k : Nat} (member : i ∈ entries)
    (matching : ∀ j ∈ entries, matches_name j = some (decide (j = i)))
    (found : search i = some (some k)) :
    firstFound matches_name search entries = some (some k) := by
  induction entries with
  | nil => simp at member
  | cons a entries ih =>
      by_cases here : a = i
      · subst here
        simp [firstFound, matching a (by simp), found]
      · have later : i ∈ entries := by
          obtain rfl | later := List.mem_cons.mp member
          · exact absurd rfl here
          · exact later
        simpa [firstFound, matching a (by simp), here] using
          ih later fun j there => matching j (by simp [there])

/-- What the conversion promises: it leaves plain names as they are. -/
def KeepsPlain (SHIFTJISToUTF8 : Bytes → Bytes) : Prop :=
  ∀ name : Bytes, (∀ b ∈ name, Plain b) → SHIFTJISToUTF8 name = name

variable {SHIFTJISToUTF8} (keeps : KeepsPlain SHIFTJISToUTF8)

theorem IsTree.matches_own (tree : T.IsTree) (differ : T.NamesDiffer)
    (inside : i < T.m_total_file_infos) (encloses : T.spans.Encloses d i)
    (encloses' : T.spans.Encloses d j) (inside' : j < T.m_total_file_infos) {name : Bytes}
    (named : T.rawName i = some name) :
    T.NameCaseInsensitiveEquals SHIFTJISToUTF8 j name = some (decide (j = i)) := by
  have ⟨name', named'⟩ := tree.rawName_isSome inside'
  have plain' := (differ.plain j inside' (by have := encloses'.before; omega) name' named').2
  have around := encloses.before.trans inside
  have ⟨entries, listed, members⟩ := tree.children_eq around le_rfl
  rw [NameCaseInsensitiveEquals, named', Option.map_some, nameEquals_plain SHIFTJISToUTF8 plain',
    Option.some.injEq, decide_eq_decide]
  constructor
  · intro same
    by_contra other
    have := differ.differ d around entries listed j ((members j).mpr encloses') i
      ((members i).mpr encloses) other
    simp [named, named', same] at this
  · rintro rfl
    obtain rfl : name = name' := by simpa [named] using named'
    rfl

/-- One step of the search: from a directory to the entry whose name the path begins with. -/
theorem IsTree.findPath_step (tree : T.IsTree) (differ : T.NamesDiffer)
    (inside : i < T.m_total_file_infos) (encloses : T.spans.Encloses d i)
    (enough : T.m_total_file_infos ≤ fuel) {name rest : Bytes} {k : Nat}
    (named : T.rawName i = some name) (cut : rest.head? = none ∨ rest.head? = some 0x2f)
    (found : T.findPath SHIFTJISToUTF8 fuel (rest.drop 1) i = some (some k)) :
    T.findPath SHIFTJISToUTF8 (fuel + 1) (name ++ rest) d = some (some k) := by
  have ⟨nonempty, plain⟩ := differ.plain i inside (by have := encloses.before; omega) name named
  have around := encloses.before.trans inside
  have ⟨entries, listed, members⟩ := tree.children_eq around enough
  rw [findPath, splitPath_name nonempty plain cut]
  simp only [listed, Option.bind_some]
  refine firstFound_only ((members i).mpr encloses) (fun j member => ?_) found
  have ⟨_, ends, _⟩ := tree.contentsAt around encloses.inner
  have encloses' := (members j).mp member
  exact tree.matches_own differ inside encloses encloses' (encloses'.within.trans_le ends) named

include keeps in
/-- A search from the root for the path of an entry, with more behind it if it is a directory,
comes to the entry. -/
theorem IsTree.findPath_through (tree : T.IsTree) (differ : T.NamesDiffer)
    (inside : i < T.m_total_file_infos) {more : Bytes} (open' : T.directoryAt i ∨ more = [])
    {least k : Nat} (large : T.m_total_file_infos ≤ least)
    (found : ∀ fuel ≥ least, T.findPath SHIFTJISToUTF8 fuel more i = some (some k))
    {path : Bytes} (read : T.GetPath SHIFTJISToUTF8 (i + 1) i = some path) :
    ∀ fuel ≥ least + i, T.findPath SHIFTJISToUTF8 fuel (path ++ more) 0 = some (some k) := by
  induction i using Nat.strong_induction_on generalizing more least path with
  | _ i ih =>
      obtain rfl | later := Nat.eq_zero_or_pos i
      · obtain rfl : path = [] := by simpa [GetPath] using read.symm
        exact found
      · have ⟨d, encloses⟩ := tree.enclosed later inside
        have before := encloses.before
        have ⟨name, named⟩ := tree.rawName_isSome inside
        have ⟨above, readAbove⟩ := tree.GetPath_isSome SHIFTJISToUTF8 (before.trans inside)
        have kept := keeps name (differ.plain i inside later name named).2
        obtain rfl : path = above ++ name ++ T.closing i := by
          rw [tree.GetPath_step SHIFTJISToUTF8 inside encloses, readAbove i before] at read
          simpa [GetName, named, kept] using read.symm
        have cut : (T.closing i ++ more).head? = none ∨
            (T.closing i ++ more).head? = some 0x2f := by
          by_cases directory : T.directoryAt i
          · simp [closing, directory]
          · simp [closing, directory, open'.resolve_left directory]
        have rest : (T.closing i ++ more).drop 1 = more := by
          by_cases directory : T.directoryAt i
          · simp [closing, directory]
          · simp [closing, directory, open'.resolve_left directory]
        have stepped : ∀ fuel ≥ least + 1, T.findPath SHIFTJISToUTF8 fuel
            (name ++ (T.closing i ++ more)) d = some (some k) := by
          intro fuel enough
          obtain ⟨fuel, rfl⟩ : ∃ less, fuel = less + 1 := ⟨fuel - 1, by omega⟩
          exact tree.findPath_step differ inside encloses (by omega) named cut
            (by rw [rest]; exact found fuel (by omega))
        intro fuel enough
        have := ih d before (before.trans inside) (.inl encloses.inner) (by omega) stepped
          (readAbove (d + 1) (Nat.lt_succ_self d)) fuel (by omega)
        simpa [List.append_assoc] using this

include keeps in
/-- Every entry is found by its path. -/
theorem IsTree.findPath_GetPath (tree : T.IsTree) (differ : T.NamesDiffer)
    (inside : i < T.m_total_file_infos) (enough : 2 * T.m_total_file_infos ≤ fuel) :
    (T.GetPath SHIFTJISToUTF8 fuel i).bind (fun path => T.findPath SHIFTJISToUTF8 fuel path 0) =
      some (some i) := by
  have ⟨path, read⟩ := tree.GetPath_isSome SHIFTJISToUTF8 inside
  have nothing : ∀ fuel ≥ T.m_total_file_infos,
      T.findPath SHIFTJISToUTF8 fuel [] i = some (some i) := by
    intro fuel enough
    obtain ⟨fuel, rfl⟩ : ∃ less, fuel = less + 1 := ⟨fuel - 1, by omega⟩
    simp [findPath, splitPath]
  have found := tree.findPath_through keeps differ inside (.inr rfl) le_rfl nothing
    (read (i + 1) (Nat.lt_succ_self i)) fuel (by omega)
  rw [read fuel (by omega), Option.bind_some]
  simpa using found

end

/-! ## Searching for an offset -/

/-- Where a file begins on the disc and where it ends. -/
def startAt (T : FileTable) (i : Nat) : Nat := T.word i .FILE_OFFSET * 2 ^ T.m_offset_shift

def endAt (T : FileTable) (i : Nat) : Nat := T.startAt i + T.word i .FILE_SIZE

theorem InTable.GetOffset_eq (inTable : T.InTable) (inside : i < T.m_total_file_infos) :
    T.GetOffset i = some (T.startAt i) := by
  simp [GetOffset, (inTable.Get_eq inside _).1, startAt]

/-- An entry with bytes on the disc. -/
structure Stored (T : FileTable) (i : Nat) : Prop where
  inside : i < T.m_total_file_infos
  file : ¬ T.directoryAt i
  nonempty : 0 < T.word i .FILE_SIZE

structure Contains (T : FileTable) (i disc_offset : Nat) : Prop extends T.Stored i where
  starts : T.startAt i ≤ disc_offset
  ends : disc_offset < T.endAt i

/-- The cache is in order and has, of the first files, every end with a file that ends there. -/
structure Cached (T : FileTable) (count : Nat) (cache : OffsetCache) : Prop where
  sorted : cache.Pairwise fun a b => a.1 < b.1
  sound : ∀ entry ∈ cache, T.Stored entry.2 ∧ entry.2 < count ∧ entry.1 = T.endAt entry.2
  complete : ∀ i < count, T.Stored i → ∃ entry ∈ cache, entry.1 = T.endAt i

theorem mem_emplace {key index : Nat} {cache : OffsetCache} {entry : Nat × Nat}
    (member : entry ∈ emplace key index cache) : entry = (key, index) ∨ entry ∈ cache := by
  induction cache with
  | nil => simpa [emplace] using member
  | cons head cache ih =>
      obtain ⟨k, v⟩ := head
      rw [emplace] at member
      split at member
      · simpa using member
      · split at member
        · exact .inr member
        · obtain here | later := List.mem_cons.mp member
          · simp [here]
          · obtain new | old := ih later
            · exact .inl new
            · simp [old]

theorem mem_emplace_of_mem {key index : Nat} {cache : OffsetCache} {entry : Nat × Nat}
    (member : entry ∈ cache) : entry ∈ emplace key index cache := by
  induction cache with
  | nil => simp at member
  | cons head cache ih =>
      obtain ⟨k, v⟩ := head
      rw [emplace]
      split
      · simp [member]
      · split
        · exact member
        · obtain here | later := List.mem_cons.mp member
          · simp [here]
          · simp [ih later]

theorem emplace_has_key (key index : Nat) (cache : OffsetCache) :
    ∃ entry ∈ emplace key index cache, entry.1 = key := by
  induction cache with
  | nil => exact ⟨(key, index), by simp [emplace], rfl⟩
  | cons head cache ih =>
      obtain ⟨k, v⟩ := head
      rw [emplace]
      split
      · exact ⟨(key, index), by simp, rfl⟩
      · split
        case isTrue same => exact ⟨(k, v), by simp, same.symm⟩
        · obtain ⟨entry, member, same⟩ := ih
          exact ⟨entry, by simp [member], same⟩

theorem emplace_sorted {key index : Nat} {cache : OffsetCache}
    (sorted : cache.Pairwise fun a b => a.1 < b.1) :
    (emplace key index cache).Pairwise fun a b => a.1 < b.1 := by
  induction cache with
  | nil => simp [emplace]
  | cons head cache ih =>
      obtain ⟨k, v⟩ := head
      have ⟨least, rest⟩ := List.pairwise_cons.mp sorted
      rw [emplace]
      split
      case isTrue less =>
        refine List.pairwise_cons.mpr ⟨fun entry member => ?_, sorted⟩
        obtain rfl | later := List.mem_cons.mp member
        · exact less
        · exact less.trans (least entry later)
      · split
        · exact sorted
        · refine List.pairwise_cons.mpr ⟨fun entry member => ?_, ih rest⟩
          obtain rfl | old := mem_emplace member
          · simp only
            omega
          · exact least entry old

/-- The offsets of both kinds of discs leave 64 bits enough room. -/
theorem InTable.endAt_lt (inTable : T.InTable) (inside : i < T.m_total_file_infos)
    (shift : T.m_offset_shift ≤ 2) : T.endAt i < 2 ^ 64 := by
  have offset := word_lt inTable inside .FILE_OFFSET
  have size := word_lt inTable inside .FILE_SIZE
  have scale := Nat.pow_le_pow_right (show 0 < 2 by omega) shift
  have := Nat.mul_le_mul offset.le scale
  simp only [endAt, startAt]
  omega

theorem Cached.step {cache : OffsetCache} {count : Nat} (cached : T.Cached count cache)
    (inTable : T.InTable) (inside : count < T.m_total_file_infos) (shift : T.m_offset_shift ≤ 2) :
    ∃ grown, T.cacheEntry cache count = some grown ∧ T.Cached (count + 1) grown := by
  by_cases stored : T.Stored count
  · refine ⟨emplace (T.endAt count) count cache, ?_, emplace_sorted cached.sorted, ?_, ?_⟩
    · have small : (T.startAt count + T.word count .FILE_SIZE) % 2 ^ 64 = T.endAt count :=
        Nat.mod_eq_of_lt (inTable.endAt_lt inside shift)
      rw [cacheEntry, inTable.IsDirectory_eq inside, inTable.GetSize_eq inside,
        inTable.GetOffset_eq inside]
      simp only [stored.file, Nat.ne_of_gt stored.nonempty, decide_false, Option.bind_some,
        Option.map_some, if_false, small, Bool.false_eq_true]
    · intro entry member
      obtain rfl | old := mem_emplace member
      · exact ⟨stored, Nat.lt_succ_self count, rfl⟩
      · have ⟨stored', before, same⟩ := cached.sound entry old
        exact ⟨stored', Nat.lt_succ_of_lt before, same⟩
    · intro i before stored'
      obtain earlier | rfl := Nat.lt_succ_iff_lt_or_eq.mp before
      · obtain ⟨entry, member, same⟩ := cached.complete i earlier stored'
        exact ⟨entry, mem_emplace_of_mem member, same⟩
      · exact emplace_has_key _ _ _
  · refine ⟨cache, ?_, cached.sorted, ?_, ?_⟩
    · by_cases directory : T.directoryAt count
      · simp [cacheEntry, inTable.IsDirectory_eq inside, directory]
      · have empty : T.word count .FILE_SIZE = 0 := by
          by_contra nonempty
          exact stored ⟨inside, directory, Nat.pos_of_ne_zero nonempty⟩
        simp [cacheEntry, inTable.IsDirectory_eq inside, directory, inTable.GetSize_eq inside, empty]
    · intro entry member
      have ⟨stored', before, same⟩ := cached.sound entry member
      exact ⟨stored', Nat.lt_succ_of_lt before, same⟩
    · intro i before stored'
      obtain earlier | rfl := Nat.lt_succ_iff_lt_or_eq.mp before
      · exact cached.complete i earlier stored'
      · exact absurd stored' stored

theorem Cached.run (inTable : T.InTable) (shift : T.m_offset_shift ≤ 2) (count : Nat)
    (inside : count ≤ T.m_total_file_infos) :
    ∃ cache, (List.range count).foldlM T.cacheEntry [] = some cache ∧ T.Cached count cache := by
  induction count with
  | zero => exact ⟨[], rfl, .nil, by simp, by simp⟩
  | succ count ih =>
      obtain ⟨cache, built, cached⟩ := ih (by omega)
      obtain ⟨grown, stepped, cached'⟩ := cached.step inTable (by omega) shift
      exact ⟨grown, by simp [List.range_succ, List.foldlM_append, built, stepped], cached'⟩

theorem IsTree.buildCache_eq (tree : T.IsTree) (shift : T.m_offset_shift ≤ 2) :
    ∃ cache, T.buildCache = some cache ∧ T.Cached T.m_total_file_infos cache := by
  have ⟨cache, built, cached⟩ := Cached.run tree.inTable shift T.m_total_file_infos le_rfl
  have count : T.word 0 .FILE_SIZE = T.m_total_file_infos :=
    nextAt_directory tree.root ▸ tree.count
  exact ⟨cache, by simp [buildCache, tree.inTable.GetSize_eq tree.nonempty, count, built], cached⟩

/-- The first entry behind a key, of those that are in order. -/
theorem upperBound_some {cache : OffsetCache} {key : Nat} {entry : Nat × Nat}
    (sorted : cache.Pairwise fun a b => a.1 < b.1) (found : upperBound cache key = some entry) :
    entry ∈ cache ∧ key < entry.1 ∧ ∀ other ∈ cache, key < other.1 → entry.1 ≤ other.1 := by
  induction cache with
  | nil => simp [upperBound] at found
  | cons head cache ih =>
      have ⟨least, rest⟩ := List.pairwise_cons.mp sorted
      by_cases behind : key < head.1
      · obtain rfl : head = entry := by simpa [upperBound, behind] using found
        refine ⟨by simp, behind, fun other member _ => ?_⟩
        obtain rfl | later := List.mem_cons.mp member
        · exact le_rfl
        · exact (least other later).le
      · have found' : upperBound cache key = some entry := by
          simpa [upperBound, behind] using found
        have ⟨member, after, first⟩ := ih rest found'
        refine ⟨by simp [member], after, fun other there beyond => ?_⟩
        obtain rfl | later := List.mem_cons.mp there
        · exact absurd beyond behind
        · exact first other later beyond

theorem upperBound_none {cache : OffsetCache} {key : Nat} (missing : upperBound cache key = none) :
    ∀ entry ∈ cache, entry.1 ≤ key := by
  simpa [upperBound] using missing

/-- Whatever is found has the offset in it, and of files that do not share bytes the one with the
offset is found. -/
theorem IsTree.findOffset_eq (tree : T.IsTree) (shift : T.m_offset_shift ≤ 2) (disc_offset : Nat) :
    ∃ found, (T.buildCache.bind fun cache => T.findOffset cache disc_offset) = some found ∧
      (∀ i, found = some i → T.Contains i disc_offset) ∧
      ((∀ i j offset, T.Contains i offset → T.Contains j offset → i = j) →
        ∀ i, T.Contains i disc_offset → found = some i) := by
  obtain ⟨cache, built, cached⟩ := tree.buildCache_eq shift
  rw [built, Option.bind_some]
  cases bound : upperBound cache disc_offset with
  | none =>
      refine ⟨none, by simp [findOffset, bound], by simp, fun _ i contains => ?_⟩
      obtain ⟨entry, member, same⟩ := cached.complete i contains.inside contains.toStored
      have := upperBound_none bound entry member
      have := contains.ends
      omega
  | some entry =>
      obtain ⟨member, after, first⟩ := upperBound_some cached.sorted bound
      obtain ⟨stored, before, same⟩ := cached.sound entry member
      refine ⟨if T.startAt entry.2 ≤ disc_offset then some entry.2 else none, ?_, ?_, ?_⟩
      · simp [findOffset, bound, tree.inTable.GetOffset_eq stored.inside]
      · intro i found
        obtain ⟨starts, rfl⟩ := by simpa using found
        exact ⟨stored, starts, same ▸ after⟩
      · intro apart i contains
        obtain ⟨entry', member', same'⟩ := cached.complete i contains.inside contains.toStored
        have least := first entry' member' (same' ▸ contains.ends)
        -- the file that was found ends no later, so its last byte would be in the other one too
        have starts : T.startAt entry.2 ≤ disc_offset := by
          by_contra later
          have last : T.Contains entry.2 (T.startAt entry.2) :=
            ⟨stored, le_rfl, by have := stored.nonempty; simp only [endAt]; omega⟩
          have shared : T.Contains i (T.startAt entry.2) :=
            ⟨contains.toStored, by have := contains.starts; omega,
              by have := last.ends; omega⟩
          have same := apart i entry.2 _ shared last
          have starts := contains.starts
          rw [same] at starts
          exact later starts
        rw [if_pos starts]
        exact congrArg some (apart entry.2 i disc_offset ⟨stored, starts, same ▸ after⟩ contains)

end FileTable

/-! ## The file system of an accepted table -/

section
variable {bytes : Bytes} {offset_shift fuel : Nat} {T : FileTable} {i d : Nat}

theorem isTree_of_accepted (accepted : createFileSystem bytes.length bytes offset_shift = some true)
    (opened : openTable bytes offset_shift = some T) : T.IsTree := by
  have ⟨valid, ran, meant⟩ := createFileSystem_decides bytes offset_shift bytes.length le_rfl
  obtain rfl : valid = true := by simpa [accepted] using ran.symm
  obtain ⟨T', opened', tree⟩ := meant.mp rfl
  obtain rfl : T = T' := by simpa [opened] using opened'
  exact tree

/-- The directory `d` with the file `e` in it, and the file `f` next to it. -/
def smallTable : Bytes :=
  [1, 0, 0, 0, 0, 0, 0, 0, 0, 0, 0, 4] ++ [1, 0, 0, 0, 0, 0, 0, 0, 0, 0, 0, 3] ++
  [0, 0, 0, 2, 0, 0, 0, 16, 0, 0, 0, 5] ++ [0, 0, 0, 4, 0, 0, 0, 32, 0, 0, 0, 8] ++
  [0x64, 0, 0x65, 0, 0x66, 0]

theorem smallTable_accepted :
    createFileSystem smallTable.length smallTable 2 = some true := by decide

/-- Every entry but the root is among the children of one directory, which stands before it, and
its path is the path of the directory with its name behind it. -/
theorem accepted_paths (SHIFTJISToUTF8 : Bytes → Bytes)
    (accepted : createFileSystem bytes.length bytes offset_shift = some true)
    (opened : openTable bytes offset_shift = some T) (later : 0 < i)
    (inside : i < T.m_total_file_infos) (enough : T.m_total_file_infos ≤ fuel) :
    ∃ d entries path name, d < i ∧ T.IsDirectory d = some true ∧
      T.children fuel d = some entries ∧ i ∈ entries ∧
      (∀ e < T.m_total_file_infos, ∀ others, T.children fuel e = some others → i ∈ others →
        e = d) ∧
      T.GetPath SHIFTJISToUTF8 fuel d = some path ∧ T.GetName SHIFTJISToUTF8 i = some name ∧
      T.GetPath SHIFTJISToUTF8 fuel i = some (path ++ name ++ T.closing i) :=
  (isTree_of_accepted accepted opened).paths SHIFTJISToUTF8 later inside enough

theorem accepted_paths_small :
    ∃ d entries path name, d < 2 ∧ FileTable.IsDirectory ⟨smallTable, 2, 4⟩ d = some true ∧
      FileTable.children ⟨smallTable, 2, 4⟩ 4 d = some entries ∧ 2 ∈ entries ∧
      (∀ e < 4, ∀ others, FileTable.children ⟨smallTable, 2, 4⟩ 4 e = some others → 2 ∈ others →
        e = d) ∧
      FileTable.GetPath ⟨smallTable, 2, 4⟩ id 4 d = some path ∧
      FileTable.GetName ⟨smallTable, 2, 4⟩ id 2 = some name ∧
      FileTable.GetPath ⟨smallTable, 2, 4⟩ id 4 2 =
        some (path ++ name ++ FileTable.closing ⟨smallTable, 2, 4⟩ 2) :=
  accepted_paths id smallTable_accepted rfl (by decide) (by decide) (by decide)

/-- The total size of a directory is the sum of the sizes of all files in it and below it. -/
theorem accepted_sizes (accepted : createFileSystem bytes.length bytes offset_shift = some true)
    (opened : openTable bytes offset_shift = some T) (inside : d < T.m_total_file_infos)
    (directory : T.IsDirectory d = some true) (enough : T.m_total_file_infos < fuel) :
    T.GetTotalSize fuel d = some (T.fileSizes (T.filesIn (d + 1) (T.nextAt d - (d + 1)))) := by
  have tree := isTree_of_accepted accepted opened
  rw [tree.inTable.IsDirectory_eq inside] at directory
  exact tree.GetTotalSize_directory inside (by simpa using directory) enough

theorem accepted_sizes_small : FileTable.GetTotalSize ⟨smallTable, 2, 4⟩ 5 0 =
    some (FileTable.fileSizes ⟨smallTable, 2, 4⟩ (FileTable.filesIn ⟨smallTable, 2, 4⟩ 1 3)) :=
  accepted_sizes smallTable_accepted rfl (by decide) (by decide) (by decide)

/-- A file that is found for an offset contains it, and if no two files share bytes of the disc, the
file that contains an offset is found. -/
theorem accepted_found_by_offset
    (accepted : createFileSystem bytes.length bytes offset_shift = some true)
    (opened : openTable bytes offset_shift = some T) (shift : offset_shift = 0 ∨ offset_shift = 2)
    (disc_offset : Nat) :
    ∃ found, (T.buildCache.bind fun cache => T.findOffset cache disc_offset) = some found ∧
      (∀ i, found = some i → T.Contains i disc_offset) ∧
      ((∀ i j offset, T.Contains i offset → T.Contains j offset → i = j) →
        ∀ i, T.Contains i disc_offset → found = some i) := by
  have same : T.m_offset_shift = offset_shift := by
    obtain ⟨size, _, rfl⟩ := Option.map_eq_some_iff.mp opened
    rfl
  exact (isTree_of_accepted accepted opened).findOffset_eq (by omega) disc_offset

theorem accepted_found_by_offset_small :
    ∃ found, ((FileTable.buildCache ⟨smallTable, 2, 4⟩).bind fun cache =>
        FileTable.findOffset ⟨smallTable, 2, 4⟩ cache 66) = some found ∧
      (∀ i, found = some i → FileTable.Contains ⟨smallTable, 2, 4⟩ i 66) ∧
      ((∀ i j offset, FileTable.Contains ⟨smallTable, 2, 4⟩ i offset →
          FileTable.Contains ⟨smallTable, 2, 4⟩ j offset → i = j) →
        ∀ i, FileTable.Contains ⟨smallTable, 2, 4⟩ i 66 → found = some i) :=
  accepted_found_by_offset smallTable_accepted rfl (.inr rfl) 66

end

end Phocoena.DiscIO
