import Phocoena.Common.IniFile

/-! # The keys of a section

`keys_order` lists every key of the section's map once, whatever is loaded, set and deleted. So
`Delete` finds the key it erases and `Save` finds the keys it writes.
-/

namespace Phocoena.Ini

open StringUtil

theorem lowered_eq_iff {a b : Bytes} : lowered a = lowered b ↔ a.map toLower = b.map toLower := by
  constructor
  · intro same
    refine List.map_injective_iff.mpr (fun _ _ => UInt8.toNat_inj.mp) ?_
    simpa [lowered, Function.comp_def] using same
  · intro same
    simpa [lowered, Function.comp_def] using congrArg (List.map UInt8.toNat) same

theorem caseInsensitiveEquals_iff {a b : Bytes} :
    caseInsensitiveEquals a b = true ↔ lowered a = lowered b := by
  rw [caseInsensitiveEquals, decide_eq_true_eq, lowered_eq_iff]

namespace Section

/-- Each key of the map is listed once. -/
def Listed (s : Section) : Prop := s.keys_order.Perm s.values.keys

/-- The value of a key. -/
def valueOf (s : Section) (key : Bytes) : Bytes := ((s.values.find? key).map Prod.snd).getD []

/-- The lines that `Save` writes behind the name of the section. -/
def contents (s : Section) : List Bytes :=
  if s.keys_order = [] then s.m_lines
  else s.keys_order.map fun key => keyLine (key, s.valueOf key)

def written (s : Section) : List Bytes := s.header :: s.contents

variable {s : Section} {key : Bytes}

theorem Listed.new (name : Bytes) : (new name).Listed := .nil

theorem Listed.set (listed : s.Listed) (key new_value : Bytes) : (s.set key new_value).Listed := by
  by_cases found : s.values.find? key = none
  · have more : (s.values.insertOrAssign key new_value).keys.Perm (key :: s.values.keys) :=
      ViewedMap.perm_keys_insert found
    have appended := (List.perm_append_singleton key s.keys_order).trans (listed.cons key)
    simpa [Listed, Section.set, found] using appended.trans more.symm
  · simpa [Listed, Section.set, found, ViewedMap.keys_assign found] using listed

theorem Listed.addLine (listed : s.Listed) (line : Bytes) : (s.addLine line).Listed := by
  rw [Section.addLine]
  dsimp only
  split
  · exact listed
  · exact listed.set _ _

theorem valueOf_of_mem {e : Bytes × Bytes} (member : e ∈ s.values.entries) :
    s.valueOf e.1 = e.2 := by
  rw [valueOf, ViewedMap.find?_of_mem member]
  rfl

/-- A key of the list is spelled as in the map. -/
theorem Listed.find? (listed : s.Listed) (member : key ∈ s.keys_order) :
    s.values.find? key = some (key, s.valueOf key) := by
  obtain ⟨e, here, rfl⟩ := List.mem_map.mp (listed.mem_iff.mp member)
  rw [valueOf_of_mem here]
  exact ViewedMap.find?_of_mem here

theorem Listed.distinct (listed : s.Listed) : (s.keys_order.map lowered).Nodup := by
  rw [(List.Perm.map lowered listed).nodup_iff]
  exact s.values.distinct

theorem Listed.entries (listed : s.Listed) :
    s.values.entries.Perm (s.keys_order.map fun key => (key, s.valueOf key)) := by
  have spelled : s.values.keys.map (fun key => (key, s.valueOf key)) = s.values.entries := by
    rw [ViewedMap.keys, List.map_map]
    refine (List.map_congr_left fun e member => ?_).trans (List.map_id _)
    rw [Function.comp_apply, valueOf_of_mem member]
    rfl
  exact spelled ▸ (List.Perm.map _ listed).symm

/-- `Delete` finds the key that it erases from the list. -/
theorem Listed.any (listed : s.Listed) (known : s.values.find? key ≠ none) :
    s.keys_order.any (caseInsensitiveEquals key) = true := by
  obtain ⟨e, found⟩ := Option.ne_none_iff_exists'.mp known
  have same : lowered e.1 = lowered key := by simpa using List.find?_some found
  have member : e.1 ∈ s.keys_order :=
    listed.mem_iff.mpr (List.mem_map_of_mem (List.mem_of_find?_eq_some found))
  exact List.any_eq_true.mpr ⟨e.1, member, caseInsensitiveEquals_iff.mpr same.symm⟩

/-- Erased from the list and from the map, a key leaves the same keys. -/
theorem Listed.erase (listed : s.Listed) (key : Bytes) :
    (s.keys_order.eraseP (caseInsensitiveEquals key)).Perm (s.values.erase key).keys := by
  have once : s.values.keys.Pairwise fun a b =>
      caseInsensitiveEquals key a = true → caseInsensitiveEquals key b = true → False := by
    refine (List.pairwise_map.mp s.values.distinct).imp fun different first second => ?_
    rw [caseInsensitiveEquals_iff] at first second
    exact different (first.symm.trans second)
  have kept : (s.values.erase key).keys = s.values.keys.eraseP (caseInsensitiveEquals key) :=
    ViewedMap.keys_erase fun k => caseInsensitiveEquals_iff.trans eq_comm
  rw [kept]
  exact (List.Perm.eraseP _ once listed.symm).symm

theorem Listed.delete (listed : s.Listed) (key : Bytes) :
    ∃ deleted s', s.delete key = some (deleted, s') ∧ s'.Listed := by
  rw [Section.delete]
  split
  · exact ⟨false, s, rfl, listed⟩
  · next known =>
      rw [if_pos (listed.any known)]
      exact ⟨true, _, rfl, listed.erase key⟩

theorem Listed.keyLines (listed : s.Listed) {keys : List Bytes} (inside : keys ⊆ s.keys_order) :
    s.keyLines keys = some (keys.map fun key => keyLine (key, s.valueOf key)) := by
  induction keys with
  | nil => rfl
  | cons key keys ih =>
      have here := listed.find? (inside List.mem_cons_self)
      rw [Section.keyLines, here, ih fun k member => inside (List.mem_cons_of_mem _ member)]
      rfl

theorem Listed.body (listed : s.Listed) : s.body = some s.contents := by
  rw [Section.body, contents, listed.keyLines (List.Subset.refl _)]
  split <;> rfl

theorem Listed.lines (listed : s.Listed) :
    s.lines = some (if s.isWritten then s.written else []) := by
  rw [Section.lines, listed.body, Option.map_some]
  split
  · rfl
  · next left =>
      have nothing : s.keys_order = [] ∧ s.m_lines = [] := by simpa [isWritten] using left
      simp [contents, nothing]

end Section

namespace IniFile

variable {file : IniFile}

/-! ## What holds of every section -/

def All (P : Section → Prop) (file : IniFile) : Prop := ∀ s ∈ file.sections, P s

section
variable {P : Section → Prop} {r : Reader} {line : Bytes}

theorem All.empty : empty.All P := fun _ member => absurd member List.not_mem_nil

theorem All.getOrCreateSection (all : file.All P) {section_name : Bytes}
    (opened : P (.new section_name)) : (file.getOrCreateSection section_name).1.All P := by
  rw [IniFile.getOrCreateSection]
  split
  · exact all
  · intro s member
    cases List.mem_append.mp member with
    | inl before => exact all s before
    | inr last => exact List.mem_singleton.mp last ▸ opened

theorem All.modify (all : file.All P) {f : Section → Section} (keeps : ∀ s, P s → P (f s))
    (place : Nat) : (file.modify place f).All P := by
  intro s member
  obtain ⟨i, inside, rfl⟩ := List.getElem_of_mem member
  simp only [IniFile.modify, List.length_modify] at inside
  simp only [IniFile.modify, List.getElem_modify]
  split
  · exact keeps _ (all _ (List.getElem_mem inside))
  · exact all _ (List.getElem_mem inside)

theorem All.read (all : r.file.All P)
    (opens : ∀ endpos, line.head? = some openBracket → line.idxOf? closeBracket = some endpos →
      P (.new ((line.drop 1).take (endpos - 1))))
    (adds : line ≠ [] → line.head? ≠ some openBracket → ∀ s, P s → P (s.addLine line)) :
    (r.read line).file.All P := by
  rw [Reader.read]
  split
  · exact all
  · next nonempty =>
      split
      · next bracket =>
          split
          · exact all
          · next endpos found => exact all.getOrCreateSection (opens endpos bracket found)
      · next plain =>
          split
          · exact all
          · exact all.modify (adds nonempty plain) _

end

/-! ## The keys stay listed -/

def Listed (file : IniFile) : Prop := file.All Section.Listed

theorem Listed.getOrCreateSection (listed : file.Listed) (section_name : Bytes) :
    (file.getOrCreateSection section_name).1.Listed :=
  All.getOrCreateSection listed (.new section_name)

theorem Listed.readAll {r : Reader} (listed : r.file.Listed) (lines : List Bytes) :
    (r.readAll lines).file.Listed := by
  induction lines generalizing r with
  | nil => exact listed
  | cons line lines ih =>
      exact ih (All.read listed (fun _ _ _ => .new _) fun _ _ s keeps => keeps.addLine _)

theorem Listed.load (listed : file.Listed) (text : Option Bytes) (keep_current_data : Bool) :
    (file.load text keep_current_data).2.Listed := by
  have start : (if keep_current_data then file else IniFile.empty).Listed := by
    cases keep_current_data
    · exact All.empty
    · exact listed
  cases text with
  | none => exact start
  | some text => exact Listed.readAll (r := ⟨_, none⟩) start _

theorem Listed.savedLines {sections : List Section} (listed : ∀ s ∈ sections, s.Listed) :
    savedLines sections = some ((sections.filter Section.isWritten).flatMap Section.written) := by
  induction sections with
  | nil => rfl
  | cons s sections ih =>
      have there := ih fun s member => listed s (List.mem_cons_of_mem _ member)
      rw [IniFile.savedLines, (listed s List.mem_cons_self).lines, there]
      by_cases isWritten : s.isWritten <;> simp [isWritten]

/-- The text of the sections that `Save` does not leave out. -/
def savedText (sections : List Section) : Bytes :=
  ((sections.filter Section.isWritten).flatMap Section.written).flatMap (· ++ [LF])

/-- `Save` finds every key that it writes. -/
theorem Listed.save (listed : file.Listed) : file.save = some (savedText file.sections) := by
  rw [IniFile.save, Listed.savedLines listed]
  rfl

theorem Listed.deleteKey (listed : file.Listed) (section_name key : Bytes) :
    ∃ deleted file', file.deleteKey section_name key = some (deleted, file') ∧ file'.Listed := by
  rw [IniFile.deleteKey]
  cases found : file.getSection section_name with
  | none => exact ⟨false, file, rfl, listed⟩
  | some place =>
      obtain ⟨inside, -⟩ := List.findIdx?_eq_some_iff_getElem.mp found
      have here := List.getElem_mem inside
      obtain ⟨deleted, s', done, listed'⟩ := (listed _ here).delete key
      simp only [List.getElem?_eq_getElem inside, done]
      refine ⟨deleted, _, rfl, fun s member => ?_⟩
      cases List.mem_or_eq_of_mem_set member with
      | inl before => exact listed s before
      | inr same => exact same ▸ listed'

/-! ## Runs -/

/-- A call on an `IniFile`. -/
inductive Op where
  | load (text : Option Bytes) (keep_current_data : Bool)
  | set (section_name key new_value : Bytes)
  | deleteKey (section_name key : Bytes)
  | setLines (section_name : Bytes) (lines : List Bytes)
  | deleteSection (section_name : Bytes)
  | sortSections
  | save

def step : Op → IniFile → Option IniFile
  | .load text keep_current_data, file => some (file.load text keep_current_data).2
  | .set section_name key new_value, file => some (file.set section_name key new_value)
  | .deleteKey section_name key, file => (file.deleteKey section_name key).map Prod.snd
  | .setLines section_name lines, file => some (file.setLines section_name lines)
  | .deleteSection section_name, file => some (file.deleteSection section_name).2
  | .sortSections, file => some file.sortSections
  | .save, file => file.save.map fun _ => file

/-- Every call goes through, and keeps the keys listed. -/
theorem Listed.step (listed : file.Listed) (op : Op) :
    ∃ file', step op file = some file' ∧ file'.Listed := by
  cases op with
  | load text keep_current_data => exact ⟨_, rfl, listed.load text keep_current_data⟩
  | set section_name key new_value =>
      exact ⟨_, rfl, All.modify (listed.getOrCreateSection section_name)
        (fun s keeps => keeps.set key new_value) _⟩
  | deleteKey section_name key =>
      obtain ⟨deleted, file', done, listed'⟩ := listed.deleteKey section_name key
      exact ⟨file', by rw [IniFile.step, done]; rfl, listed'⟩
  | setLines section_name lines =>
      exact ⟨_, rfl, All.modify (f := fun s => { s with m_lines := lines })
        (listed.getOrCreateSection section_name) (fun s keeps => keeps) _⟩
  | deleteSection section_name =>
      refine ⟨_, rfl, ?_⟩
      rw [deleteSection]
      split
      · exact listed
      · exact fun s member => listed s (List.mem_of_mem_eraseIdx member)
  | sortSections => exact ⟨_, rfl, fun s member => listed s (List.mem_mergeSort.mp member)⟩
  | save => exact ⟨file, by rw [IniFile.step, listed.save]; rfl, listed⟩

/-- The calls one after the other. -/
def run (ops : List Op) (file : IniFile) : Option IniFile :=
  ops.foldlM (fun file op => step op file) file

theorem Listed.run (listed : file.Listed) (ops : List Op) :
    ∃ file', run ops file = some file' ∧ file'.Listed := by
  induction ops generalizing file with
  | nil => exact ⟨file, rfl, listed⟩
  | cons op ops ih =>
      obtain ⟨next, done, listed'⟩ := listed.step op
      obtain ⟨file', rest, listed''⟩ := ih listed'
      exact ⟨file', by rw [IniFile.run, List.foldlM_cons, done]; exact rest, listed''⟩

end IniFile

end Phocoena.Ini
