import Phocoena.Common.IniRebuilding

/-! # Rewriting an INI file

What `Load` makes of the text that `Save` writes for a loaded file: the sections as they are rebuilt
from their own lines, unless the line of a key is taken for the name of a section.
-/

namespace Phocoena.Ini

open StringUtil

theorem modify_concat {α : Type} (before : List α) (last : α) (f : α → α) :
    (before ++ [last]).modify before.length f = before ++ [f last] := by
  induction before with
  | nil => rfl
  | cons a before ih => exact congrArg (a :: ·) ih

namespace Section

variable {s : Section}

theorem head_contents (clean : s.Clean) (plain : s.Bracketless) :
    ∀ line ∈ s.contents, line.head? ≠ some openBracket := by
  intro line member
  rw [contents] at member
  split at member
  · exact (clean.raw line member).2.2.1
  · obtain ⟨key, inside, rfl⟩ := List.mem_map.mp member
    have first := plain key inside
    rw [head_keyLine]
    cases key with
    | nil => simp [space, openBracket]
    | cons c key => exact first

theorem Clean.unbroken (clean : s.Clean) : ∀ line ∈ s.written, LF ∉ line := by
  intro line member
  rw [written, List.mem_cons] at member
  cases member with
  | inl same =>
      have name := clean.name.1
      simp [same, header, LF, openBracket, closeBracket] at name ⊢
      exact name
  | inr inside =>
      rw [contents] at inside
      split at inside
      · exact (clean.raw line inside).1
      · obtain ⟨key, listed, rfl⟩ := List.mem_map.mp inside
        have unbroken := (clean.keys key listed).1
        have entry := List.mem_of_find?_eq_some (clean.listed.find? listed)
        have value := (clean.values _ entry).1
        simp [keyLine, LF, space, equals] at unbroken value ⊢
        exact ⟨unbroken, value⟩

end Section

namespace IniFile

variable {done sections : List Section} {s : Section} {current : Option Nat}

theorem read_header (unclosed : closeBracket ∉ s.name)
    (new : ∀ t ∈ done, lowered t.name ≠ lowered s.name) :
    Reader.read ⟨⟨done⟩, current⟩ (removeCR s.header)
      = ⟨⟨done ++ [Section.new s.name]⟩, some done.length⟩ := by
  have ends : removeCR s.header = s.header := by
    refine removeCR_of_ne ?_
    rw [Section.header, List.getLast?_concat]
    decide
  have place : s.header.idxOf? closeBracket = some (s.name.length + 1) := by
    have absent : closeBracket ∉ openBracket :: s.name :=
      List.not_mem_cons_of_ne_of_not_mem (by decide) unclosed
    exact idxOf?_append_cons absent
  have unknown : getSection ⟨done⟩ s.name = none :=
    List.findIdx?_eq_none_iff.mpr fun t member => by
      simpa using mt caseInsensitiveEquals_iff.mp (new t member)
  have between : (s.header.drop 1).take (s.name.length + 1 - 1) = s.name := by
    simp [Section.header]
  rw [ends, Reader.read, if_neg (by simp [Section.header]), if_pos (by rfl), place]
  dsimp only
  rw [between, getOrCreateSection, unknown]

theorem readAll_inside {lines : List Bytes}
    (plain : ∀ line ∈ lines, line.head? ≠ some openBracket) :
    Reader.readAll ⟨⟨done ++ [s]⟩, some done.length⟩ lines
      = ⟨⟨done ++ [lines.foldl Section.takeLine s]⟩, some done.length⟩ := by
  induction lines generalizing s with
  | nil => rfl
  | cons line lines ih =>
      have here := plain line List.mem_cons_self
      have step : Reader.read ⟨⟨done ++ [s]⟩, some done.length⟩ (removeCR line)
          = ⟨⟨done ++ [s.takeLine line]⟩, some done.length⟩ := by
        rw [Reader.read, Section.takeLine]
        split
        · rfl
        · next something =>
            rw [head_removeCR something, if_neg here]
            exact congrArg (fun done' => (⟨⟨done'⟩, some done.length⟩ : Reader))
              (modify_concat done s _)
      rw [Reader.readAll, List.foldl_cons, step]
      exact ih fun l member => plain l (List.mem_cons_of_mem _ member)

theorem readAll_append (r : Reader) (lines lines' : List Bytes) :
    r.readAll (lines ++ lines') = (r.readAll lines).readAll lines' :=
  List.foldl_append

theorem readAll_section (clean : s.Clean) (plain : s.Bracketless)
    (new : ∀ t ∈ done, lowered t.name ≠ lowered s.name) :
    Reader.readAll ⟨⟨done⟩, current⟩ s.written = ⟨⟨done ++ [s.rebuilt]⟩, some done.length⟩ := by
  rw [Section.written, Reader.readAll, List.foldl_cons, read_header clean.name.2 new]
  exact readAll_inside (Section.head_contents clean plain)

/-- Sections with different names are read one behind the other. -/
theorem readAll_sections (clean : ∀ s ∈ sections, s.Clean)
    (plain : ∀ s ∈ sections, s.Bracketless)
    (distinct : ((done ++ sections).map fun s => lowered s.name).Nodup) :
    (Reader.readAll ⟨⟨done⟩, current⟩ (sections.flatMap Section.written)).file
      = ⟨done ++ sections.map Section.rebuilt⟩ := by
  induction sections generalizing done current with
  | nil => simp [Reader.readAll]
  | cons s sections ih =>
      have new : ∀ t ∈ done, lowered t.name ≠ lowered s.name := by
        intro t member
        rw [List.map_append, List.nodup_append] at distinct
        exact distinct.2.2 _ (List.mem_map_of_mem member) _ List.mem_cons_self
      have distinct' : ((done ++ [s.rebuilt] ++ sections).map fun s => lowered s.name).Nodup := by
        have name : s.rebuilt.name = s.name := Section.foldl_takeLine_name _ _
        simpa [name] using distinct
      rw [List.flatMap_cons, readAll_append,
        readAll_section (clean s List.mem_cons_self) (plain s List.mem_cons_self) new,
        ih (fun t member => clean t (List.mem_cons_of_mem _ member))
          (fun t member => plain t (List.mem_cons_of_mem _ member)) distinct',
        List.map_cons, List.append_assoc, List.singleton_append]

theorem skipBOM_written (sections : List Section) :
    skipBOM (sections.flatMap Section.written) = sections.flatMap Section.written := by
  cases sections with
  | nil => rfl
  | cons s sections =>
      rw [List.flatMap_cons, Section.written, List.cons_append, skipBOM, if_neg]
      intro marked
      exact absurd (congrArg List.head? marked) (by simp [Section.header, BOM, openBracket])

/-- The text that is written is read line by line as it was written. -/
theorem load_savedText (clean : ∀ s ∈ sections, s.Clean) :
    (empty.load (some (savedText sections)) false).2 = (Reader.readAll ⟨empty, none⟩
      ((sections.filter Section.isWritten).flatMap Section.written)).file := by
  have unbroken : ∀ line ∈ (sections.filter Section.isWritten).flatMap Section.written,
      LF ∉ line := by
    intro line member
    obtain ⟨s, here, inside⟩ := List.mem_flatMap.mp member
    exact (clean s (List.mem_of_mem_filter here)).unbroken line inside
  simp only [load, Bool.false_eq_true, if_false]
  rw [savedText, getlines_written unbroken, skipBOM_written]

/-! ## Keys with a bracket -/

theorem bracketless_addLine {line : Bytes} (plain : s.Bracketless)
    (keyed : ¬ IsRaw line → (parseLine line).1.head? ≠ some openBracket) :
    (s.addLine line).Bracketless := by
  by_cases raw : IsRaw line
  · rw [addLine_raw raw]
    exact plain
  · rw [addLine_key raw]
    intro key member
    cases Section.mem_keys_set member with
    | inl before => exact plain key before
    | inr same => exact same ▸ keyed raw

/-- A line that is written holds no key with a bracket: it would be written as a section. -/
theorem keyed_written (clean : s.Clean) {line : Bytes} (member : line ∈ s.written)
    (plain : line.head? ≠ some openBracket) (keyed : ¬ IsRaw line) :
    (parseLine line).1.head? ≠ some openBracket := by
  rw [Section.written, List.mem_cons] at member
  cases member with
  | inl same => exact absurd (same ▸ rfl) plain
  | inr inside =>
      rw [Section.contents] at inside
      split at inside
      · exact absurd (clean.raw line inside).2.2.2 keyed
      · obtain ⟨key, listed, rfl⟩ := List.mem_map.mp inside
        obtain ⟨-, absent, stripped⟩ := clean.keys key listed
        rw [head_keyLine] at plain
        by_cases comment : key.head? = some hash
        · exact absurd (.inl (parseLine_hash (by rw [head_keyLine, comment]; rfl))) keyed
        · rw [parseLine_keyLine absent stripped comment]
          exact fun bracket => plain (by rw [bracket]; rfl)

/-- The keys that are read from a written text do not begin with a bracket. -/
theorem bracketless_readAll {r : Reader} {lines : List Bytes}
    (plain : r.file.All Section.Bracketless)
    (keyed : ∀ line ∈ lines, line.head? ≠ some openBracket → ¬ IsRaw line →
      (parseLine line).1.head? ≠ some openBracket) :
    (r.readAll lines).file.All Section.Bracketless := by
  induction lines generalizing r with
  | nil => exact plain
  | cons line lines ih =>
      refine ih (plain.read ?_ ?_) fun l member => keyed l (List.mem_cons_of_mem _ member)
      · exact fun _ _ _ _ member => absurd member List.not_mem_nil
      · intro something other s here
        rw [head_removeCR something] at other
        have line' := keyed line List.mem_cons_self other
        rw [← isRaw_removeCR something, ← parseLine_removeCR something] at line'
        exact bracketless_addLine here line'

/-! ## The file that comes back -/

section
variable {file : IniFile}

/-- When no key begins with a bracket, every written section comes back as it is rebuilt. -/
theorem load_rebuilt (loaded : file.Loaded) (plain : file.All Section.Bracketless) :
    (empty.load (some (savedText file.sections)) false).2.sections
      = (file.sections.filter Section.isWritten).map Section.rebuilt := by
  have inside : ∀ s ∈ file.sections.filter Section.isWritten, s ∈ file.sections :=
    fun s member => List.mem_of_mem_filter member
  have distinct : ((file.sections.filter Section.isWritten).map fun s => lowered s.name).Nodup :=
    loaded.distinct.sublist (List.filter_sublist.map _)
  rw [load_savedText loaded.clean]
  exact congrArg IniFile.sections (readAll_sections
    (fun s member => loaded.clean s (inside s member))
    (fun s member => plain s (inside s member)) distinct)

/-- The keys of a file that comes back as it was do not begin with a bracket. -/
theorem bracketless_of_load (loaded : file.Loaded)
    (same : (empty.load (some (savedText file.sections)) false).2.sections.filter Section.isWritten
      = file.sections.filter Section.isWritten) : file.All Section.Bracketless := by
  have start : (⟨empty, none⟩ : Reader).file.All Section.Bracketless := .empty
  have plain : (empty.load (some (savedText file.sections)) false).2.All Section.Bracketless := by
    rw [load_savedText loaded.clean]
    refine bracketless_readAll start fun line inside other keyed => ?_
    obtain ⟨t, there, member⟩ := List.mem_flatMap.mp inside
    exact keyed_written (loaded.clean t (List.mem_of_mem_filter there)) member other keyed
  intro s member key listed
  have isWritten : s.isWritten := by simp [Section.isWritten, List.ne_nil_of_mem listed]
  have here := List.mem_filter.mpr ⟨member, isWritten⟩
  rw [← same] at here
  exact plain s (List.mem_of_mem_filter here) key listed

theorem stable_of_unwritten (unwritten : ¬ s.isWritten) : s.Stable := by
  have nothing : s.keys_order = [] ∧ s.m_lines = [] := by simpa [Section.isWritten] using unwritten
  simp [Section.Stable, nothing]

theorem load_savedText_eq_iff (loaded : file.Loaded) :
    (empty.load (some (savedText file.sections)) false).2.sections.filter Section.isWritten
      = file.sections.filter Section.isWritten ↔ file.All Section.Stable := by
  constructor
  · intro same
    have plain := bracketless_of_load loaded same
    rw [load_rebuilt loaded plain, filter_map_eq_self_iff] at same
    intro s member
    by_cases isWritten : s.isWritten
    · have rebuilt := (same s (List.mem_filter.mpr ⟨member, isWritten⟩)).1
      exact (Section.rebuilt_eq_self_iff (loaded.clean s member) (plain s member)).mp rebuilt
    · exact stable_of_unwritten isWritten
  · intro stable
    have plain := fun s member => (stable s member).bracketless
    rw [load_rebuilt loaded plain, filter_map_eq_self_iff]
    intro s member
    obtain ⟨here, isWritten⟩ := List.mem_filter.mp member
    have rebuilt := Section.rebuilt_eq_self_iff (loaded.clean s here) (plain s here)
    exact ⟨rebuilt.mpr (stable s here), isWritten⟩

end

/-- A file comes back as it was exactly when all its sections are stable; and whatever is called,
the keys of every section are listed once, and are found when the file is saved. -/
theorem rewriting :
    (∀ text : Bytes, let file := (empty.load (some text) false).2
      ∃ saved, file.save = some saved ∧
        ((empty.load (some saved) false).2.sections.filter Section.isWritten
          = file.sections.filter Section.isWritten ↔ ∀ s ∈ file.sections, s.Stable)) ∧
    ∀ ops : List Op, ∃ file, run ops empty = some file ∧
      (∀ s ∈ file.sections, s.keys_order.Perm s.values.keys ∧ (s.keys_order.map lowered).Nodup) ∧
      ∃ saved, file.save = some saved := by
  constructor
  · intro text file
    have loaded : file.Loaded := loaded_load text
    have listed : file.Listed := fun s member => (loaded.clean s member).listed
    exact ⟨savedText file.sections, listed.save, load_savedText_eq_iff loaded⟩
  · intro ops
    have start : empty.Listed := All.empty
    obtain ⟨file, done, listed⟩ := start.run ops
    exact ⟨file, done, fun s member => ⟨listed s member, (listed s member).distinct⟩, _, listed.save⟩

/-- `[A]`, `k = v` and `$c`: the raw line of a section with a key is lost. -/
theorem rewriting_not_always_same :
    let file := (empty.load (some [0x5b, 0x41, 0x5d, LF, 0x6b, 0x3d, 0x76, LF, 0x24, 0x63, LF]) false).2
    ∃ saved, file.save = some saved ∧
      (empty.load (some saved) false).2.sections.filter Section.isWritten
        ≠ file.sections.filter Section.isWritten := by
  intro file
  refine ⟨[0x5b, 0x41, 0x5d, LF, 0x6b, space, equals, space, 0x76, LF], by rfl, fun same => ?_⟩
  exact absurd (congrArg (List.map Section.m_lines) same) (by decide)

end IniFile

end Phocoena.Ini
