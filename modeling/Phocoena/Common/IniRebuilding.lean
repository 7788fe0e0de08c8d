import Phocoena.Common.IniFileKeys
import Phocoena.Common.IniText

/-! # What `Load` leaves in an INI file

Whatever the text is, the sections of a loaded file have different names, their keys are stripped
and hold no `=`, and their raw lines are lines in which no key is found.
-/

namespace Phocoena.Ini

open StringUtil

/-- A line that `Load` keeps as it is. -/
def IsRaw (line : Bytes) : Prop := parseLine line = ([], []) ∨ ∃ c ∈ line.head?, c ∈ verbatim

section
variable {s : Section} {line : Bytes}

theorem addLine_raw (raw : IsRaw line) :
    s.addLine line = { s with m_lines := s.m_lines ++ [line] } :=
  if_pos (raw.imp (fun nothing => ⟨congrArg Prod.fst nothing, congrArg Prod.snd nothing⟩) id)

theorem addLine_key (keyed : ¬ IsRaw line) :
    s.addLine line = s.set (parseLine line).1 (parseLine line).2 :=
  if_neg (mt (Or.imp (fun nothing => Prod.ext nothing.1 nothing.2) id) keyed)

theorem isRaw_removeCR (nonempty : IniFile.removeCR line ≠ []) :
    IsRaw (IniFile.removeCR line) ↔ IsRaw line := by
  rw [IsRaw, IsRaw, parseLine_removeCR nonempty, head_removeCR nonempty]

end

namespace Section

/-- What `Load` can leave in a section. -/
structure Clean (s : Section) : Prop where
  listed : s.Listed
  name : LF ∉ s.name ∧ closeBracket ∉ s.name
  keys : ∀ key ∈ s.keys_order, LF ∉ key ∧ equals ∉ key ∧ stripWhitespace key = key
  values : ∀ e ∈ s.values.entries, LF ∉ e.2 ∧ (e.1 ≠ [] ∨ e.2 ≠ [])
  raw : ∀ line ∈ s.m_lines, LF ∉ line ∧ line ≠ [] ∧ line.head? ≠ some openBracket ∧ IsRaw line

variable {s : Section} {name key line : Bytes}

theorem Clean.new (unbroken : LF ∉ name) (unclosed : closeBracket ∉ name) : (new name).Clean where
  listed := .new name
  name := ⟨unbroken, unclosed⟩
  keys _ member := absurd member List.not_mem_nil
  values _ member := absurd member List.not_mem_nil
  raw _ member := absurd member List.not_mem_nil

theorem mem_keys_set {new_value : Bytes} {k : Bytes}
    (member : k ∈ (s.set key new_value).keys_order) : k ∈ s.keys_order ∨ k = key := by
  rw [Section.set] at member
  dsimp only at member
  split at member
  · simpa using member
  · exact .inl member

theorem Clean.addLine (clean : s.Clean) (unbroken : LF ∉ line) (nonempty : line ≠ [])
    (plain : line.head? ≠ some openBracket) : (s.addLine line).Clean := by
  by_cases raw : IsRaw line
  · rw [addLine_raw raw]
    refine { clean with raw := fun l member => ?_ }
    cases List.mem_append.mp member with
    | inl before => exact clean.raw l before
    | inr last => exact List.mem_singleton.mp last ▸ ⟨unbroken, nonempty, plain, raw⟩
  · obtain ⟨unequal, stripped, keyInside, valueInside⟩ := parseLine_spec line
    have something : (parseLine line).1 ≠ [] ∨ (parseLine line).2 ≠ [] := by
      by_contra nothing
      rw [not_or, not_not, not_not] at nothing
      exact raw (.inl (Prod.ext nothing.1 nothing.2))
    rw [addLine_key raw]
    refine ⟨clean.listed.set _ _, clean.name, ?_, ?_, clean.raw⟩
    · intro k member
      cases mem_keys_set member with
      | inl before => exact clean.keys k before
      | inr same => exact same ▸ ⟨fun broken => unbroken (keyInside _ broken), unequal, stripped⟩
    · intro e member
      cases ViewedMap.mem_insert member with
      | inl before => exact clean.values e before
      | inr same =>
          have lengths : e.1.length = (parseLine line).1.length := by
            simpa [lowered] using congrArg List.length same.1
          refine ⟨fun broken => unbroken (valueInside _ (same.2 ▸ broken)), ?_⟩
          refine something.imp (mt fun empty => ?_) (mt same.2.symm.trans)
          rwa [empty, List.length_nil, eq_comm, List.length_eq_zero_iff] at lengths

end Section

namespace IniFile

/-- What `Load` can leave in an empty file. -/
structure Loaded (file : IniFile) : Prop where
  clean : file.All Section.Clean
  distinct : (file.sections.map fun s => lowered s.name).Nodup

variable {file : IniFile} {r : Reader} {line : Bytes}

theorem getOrCreateSection_distinct
    (distinct : (file.sections.map fun s => lowered s.name).Nodup) (section_name : Bytes) :
    ((file.getOrCreateSection section_name).1.sections.map fun s => lowered s.name).Nodup := by
  rw [getOrCreateSection]
  cases found : file.getSection section_name with
  | some place => exact distinct
  | none =>
      have other := List.findIdx?_eq_none_iff.mp found
      rw [List.map_append, List.nodup_append]
      refine ⟨distinct, List.nodup_singleton _, ?_⟩
      rintro _ first _ second rfl
      obtain ⟨s, member, same⟩ := List.mem_map.mp first
      have equal : lowered s.name = lowered section_name := by
        simpa [Section.new] using same.trans (List.mem_singleton.mp second)
      simpa [caseInsensitiveEquals_iff.mpr equal] using other s member

theorem modify_names {f : Section → Section} (keeps : ∀ s, (f s).name = s.name) (place : Nat) :
    (file.modify place f).sections.map (fun s => lowered s.name)
      = file.sections.map fun s => lowered s.name := by
  rw [modify]
  refine List.ext_getElem (by simp) fun i _ _ => ?_
  simp only [List.getElem_map, List.getElem_modify]
  split
  · rw [keeps]
  · rfl

theorem addLine_name (s : Section) (line : Bytes) : (s.addLine line).name = s.name := by
  rw [Section.addLine]
  dsimp only
  split <;> rfl

theorem read_distinct (distinct : (r.file.sections.map fun s => lowered s.name).Nodup)
    (line : Bytes) : ((r.read line).file.sections.map fun s => lowered s.name).Nodup := by
  rw [Reader.read]
  split
  · exact distinct
  · split
    · split
      · exact distinct
      · exact getOrCreateSection_distinct distinct _
    · split
      · exact distinct
      · rw [modify_names fun s => addLine_name s line]
        exact distinct

/-- The name of a section ends before the first `]`. -/
theorem closeBracket_not_mem {endpos : Nat} (found : line.idxOf? closeBracket = some endpos) :
    closeBracket ∉ (line.drop 1).take (endpos - 1) := by
  intro closed
  obtain ⟨i, inside, same⟩ := List.getElem_of_mem closed
  obtain ⟨_, _, before⟩ := List.findIdx?_eq_some_iff_getElem.mp found
  rw [List.length_take] at inside
  rw [List.getElem_take, List.getElem_drop] at same
  exact before (1 + i) (by omega) (beq_iff_eq.mpr same)

theorem Loaded.read (loaded : r.file.Loaded) (unbroken : LF ∉ line) :
    (r.read line).file.Loaded where
  clean := by
    refine loaded.clean.read (fun endpos _ found => ?_) fun nonempty plain s clean => ?_
    · refine .new (fun broken => ?_) (closeBracket_not_mem found)
      exact unbroken (List.mem_of_mem_drop (List.mem_of_mem_take broken))
    · exact clean.addLine unbroken nonempty plain
  distinct := read_distinct loaded.distinct line

theorem Loaded.readAll (loaded : r.file.Loaded) {lines : List Bytes}
    (unbroken : ∀ line ∈ lines, LF ∉ line) : (r.readAll lines).file.Loaded := by
  induction lines generalizing r with
  | nil => exact loaded
  | cons line lines ih =>
      have here := unbroken line List.mem_cons_self
      have without : LF ∉ removeCR line := fun broken => here ((prefix_removeCR line).subset broken)
      exact ih (loaded.read without) fun l member => unbroken l (List.mem_cons_of_mem _ member)

theorem not_mem_skipBOM {lines : List Bytes} (unbroken : ∀ line ∈ lines, LF ∉ line) :
    ∀ line ∈ skipBOM lines, LF ∉ line := by
  cases lines with
  | nil => exact unbroken
  | cons first lines =>
      intro line member
      rw [skipBOM] at member
      cases List.mem_cons.mp member with
      | inr behind => exact unbroken line (List.mem_cons_of_mem _ behind)
      | inl same =>
          have here := unbroken first List.mem_cons_self
          rw [same]
          split
          · exact fun broken => here (List.mem_of_mem_drop broken)
          · exact here

/-- Every text is loaded so. -/
theorem loaded_load (text : Bytes) : (empty.load (some text) false).2.Loaded := by
  have start : (⟨empty, none⟩ : Reader).file.Loaded := ⟨.empty, .nil⟩
  exact start.readAll (not_mem_skipBOM (not_mem_getlines List.not_mem_nil))

end IniFile

end Phocoena.Ini

/-! ## Rebuilding a section

What `Load` makes of the lines that `Save` writes for a section. `Save` writes the keys of a section
or its raw lines, never both, and nothing in it quotes a value or escapes a key.
-/

namespace Phocoena.Ini

open StringUtil

theorem filter_map_eq_self_iff {α : Type} {l : List α} {f : α → α} {p : α → Bool} :
    (l.map f).filter p = l ↔ ∀ a ∈ l, f a = a ∧ p a := by
  constructor
  · intro same
    have every : ∀ a ∈ l.map f, p a := by
      rw [← List.length_filter_eq_length_iff, same, List.length_map]
    rw [List.filter_eq_self.mpr every] at same
    have fixed : ∀ a ∈ l, f a = a := List.map_inj_left.mp (same.trans (List.map_id l).symm)
    intro a member
    exact ⟨fixed a member, fixed a member ▸ every (f a) (List.mem_map_of_mem member)⟩
  · intro every
    have fixed : l.map f = l := (List.map_congr_left fun a member => (every a member).1).trans
      (List.map_id l)
    rw [fixed]
    exact List.filter_eq_self.mpr fun a member => (every a member).2

namespace Section

/-- What `Load` does with a line of the text inside a section. -/
def takeLine (s : Section) (line : Bytes) : Section :=
  if IniFile.removeCR line = [] then s else s.addLine (IniFile.removeCR line)

/-- The section that is read from the written one, when no key begins with `[`. -/
def rebuilt (s : Section) : Section := s.contents.foldl takeLine (new s.name)

/-- The line of a key is read as a key again: it begins neither as a comment nor as a raw line,
and a key without a name has a value. -/
def Found (key value : Bytes) : Prop :=
  (∀ c ∈ key.head?, c ∉ hash :: verbatim) ∧ (key ≠ [] ∨ stripQuotes (stripWhitespace value) ≠ [])

instance (key value : Bytes) : Decidable (Found key value) := inferInstanceAs (Decidable (_ ∧ _))

/-- No key is written as the name of a section. -/
def Bracketless (s : Section) : Prop := ∀ key ∈ s.keys_order, key.head? ≠ some openBracket

/-- The section is written so that it is read as it was. -/
def Stable (s : Section) : Prop :=
  if s.keys_order = [] then ∀ line ∈ s.m_lines, line.getLast? ≠ some CR
  else s.m_lines = [] ∧ ∀ key ∈ s.keys_order,
    (∀ c ∈ key.head?, c ∉ hash :: openBracket :: verbatim) ∧
      stripQuotes (stripWhitespace (s.valueOf key)) = s.valueOf key

variable {s : Section} {key value : Bytes}

theorem takeLine_name (s : Section) (line : Bytes) : (s.takeLine line).name = s.name := by
  rw [takeLine]
  split
  · rfl
  · exact IniFile.addLine_name s _

theorem foldl_takeLine_name (s : Section) (lines : List Bytes) :
    (lines.foldl takeLine s).name = s.name := by
  induction lines generalizing s with
  | nil => rfl
  | cons line lines ih => exact (ih (s.takeLine line)).trans (takeLine_name s line)

theorem foldl_rawLines {lines : List Bytes} (raw : ∀ line ∈ lines, IsRaw line) :
    lines.foldl takeLine s
      = { s with m_lines := s.m_lines ++ (lines.map IniFile.removeCR).filter (· ≠ []) } := by
  induction lines generalizing s with
  | nil => simp
  | cons line lines ih =>
      rw [List.foldl_cons, ih fun l member => raw l (List.mem_cons_of_mem _ member), takeLine]
      split
      · next nothing => simp [nothing]
      · next something =>
          have here := (isRaw_removeCR something).mpr (raw line List.mem_cons_self)
          rw [addLine_raw here]
          simp [something]

theorem isRaw_keyLine_iff (absent : equals ∉ key) (stripped : stripWhitespace key = key) :
    IsRaw (keyLine (key, value)) ↔ ¬ Found key value := by
  constructor
  · intro raw found
    have plain : key.head? ≠ some hash := fun comment => found.1 hash comment List.mem_cons_self
    rw [IsRaw, parseLine_keyLine absent stripped plain, head_keyLine] at raw
    cases raw with
    | inl nothing =>
        obtain ⟨noKey, noValue⟩ := Prod.mk.inj nothing
        exact found.2.elim (· noKey) (· noValue)
    | inr first =>
        obtain ⟨c, here, member⟩ := first
        cases key with
        | nil => exact absurd (Option.some.inj here ▸ member) (by decide)
        | cons d key => exact found.1 c here (List.mem_cons_of_mem _ member)
  · intro lost
    by_cases comment : key.head? = some hash
    · exact .inl (parseLine_hash (by rw [head_keyLine, comment]; rfl))
    · rw [IsRaw, parseLine_keyLine absent stripped comment, head_keyLine]
      by_contra keyed
      obtain ⟨something, plain⟩ := not_or.mp keyed
      refine lost ⟨fun c here member => ?_, ?_⟩
      · cases List.mem_cons.mp member with
        | inl same => exact comment (same ▸ here)
        | inr inside => exact plain ⟨c, by rw [Option.mem_def.mp here]; rfl, inside⟩
      · by_contra nothing
        obtain ⟨noKey, noValue⟩ := not_or.mp nothing
        exact something (Prod.ext (not_not.mp noKey) (not_not.mp noValue))

theorem takeLine_keyLine (absent : equals ∉ key) (stripped : stripWhitespace key = key) :
    s.takeLine (keyLine (key, value)) =
      if Found key value then s.set key (stripQuotes (stripWhitespace value))
      else { s with m_lines := s.m_lines ++ [IniFile.removeCR (keyLine (key, value))] } := by
  have nonempty : IniFile.removeCR (keyLine (key, value)) ≠ [] := removeCR_keyLine_ne
  have raw_iff : IsRaw (IniFile.removeCR (keyLine (key, value))) ↔ ¬ Found key value :=
    (isRaw_removeCR nonempty).trans (isRaw_keyLine_iff absent stripped)
  rw [takeLine, if_neg nonempty]
  split
  · next found =>
      have plain : key.head? ≠ some hash := fun comment => found.1 hash comment List.mem_cons_self
      rw [addLine_key (mt raw_iff.mp (not_not.mpr found)), parseLine_removeCR nonempty,
        parseLine_keyLine absent stripped plain]
  · next lost => exact addLine_raw (raw_iff.mpr lost)

/-- A key that is new is listed last, with its value in the map. -/
theorem set_new {new_value : Bytes} (unknown : s.values.find? key = none) :
    (s.set key new_value).keys_order = s.keys_order ++ [key] ∧
      (s.set key new_value).values.entries.Perm ((key, new_value) :: s.values.entries) :=
  ⟨if_pos unknown, ViewedMap.perm_insert unknown⟩

theorem find?_set {new_value : Bytes} {key' : Bytes} (unknown : s.values.find? key = none)
    (unknown' : s.values.find? key' = none) (other : lowered key ≠ lowered key') :
    (s.set key new_value).values.find? key' = none := by
  obtain ⟨-, inserted⟩ : _ ∧ (s.set key new_value).values.entries.Perm _ := set_new unknown
  rw [ViewedMap.find?_eq_none] at unknown' ⊢
  rw [(inserted.map fun e => lowered e.1).mem_iff]
  exact List.not_mem_cons_of_ne_of_not_mem other.symm unknown'

/-- What the lines of different keys make of a section without them. -/
structure Took (value : Bytes → Bytes) (keys : List Bytes) (s s' : Section) : Prop where
  keys_order : s'.keys_order = s.keys_order ++ keys.filter (fun key => Found key (value key))
  m_lines : (∀ key ∈ keys, Found key (value key)) → s'.m_lines = s.m_lines
  entries : s'.values.entries.Perm (s.values.entries ++
    (keys.filter fun key => Found key (value key)).map fun key =>
      (key, stripQuotes (stripWhitespace (value key))))

theorem foldl_keyLines {value : Bytes → Bytes} {keys : List Bytes}
    (clean : ∀ key ∈ keys, equals ∉ key ∧ stripWhitespace key = key)
    (distinct : (keys.map lowered).Nodup) (unknown : ∀ key ∈ keys, s.values.find? key = none) :
    Took value keys s ((keys.map fun key => keyLine (key, value key)).foldl takeLine s) := by
  induction keys generalizing s with
  | nil => exact ⟨by simp, fun _ => rfl, by simp⟩
  | cons key keys ih =>
      obtain ⟨absent, stripped⟩ := clean key List.mem_cons_self
      obtain ⟨first, distinct'⟩ := List.nodup_cons.mp distinct
      have new := unknown key List.mem_cons_self
      have clean' := fun k member => clean k (List.mem_cons_of_mem _ member)
      have unknown' := fun k member => unknown k (List.mem_cons_of_mem _ member)
      rw [List.map_cons, List.foldl_cons, takeLine_keyLine absent stripped]
      split
      · next found =>
          generalize same : stripQuotes (stripWhitespace (value key)) = new_value
          have after : ∀ k ∈ keys, (s.set key new_value).values.find? k = none :=
            fun k member => find?_set new (unknown' k member)
              fun same => first (same ▸ List.mem_map_of_mem member)
          have took := ih clean' distinct' after
          obtain ⟨listed, inserted⟩ : (s.set key new_value).keys_order = _ ∧ _ := set_new new
          refine ⟨?_, fun every => ?_, ?_⟩
          · rw [took.keys_order, listed, List.filter_cons_of_pos (by simpa using found)]
            simp
          · exact took.m_lines fun k member => every k (List.mem_cons_of_mem _ member)
          · rw [List.filter_cons_of_pos (by simpa using found), List.map_cons, same]
            exact took.entries.trans ((inserted.append_right _).trans List.perm_middle.symm)
      · next lost =>
          generalize s.m_lines ++ [IniFile.removeCR (keyLine (key, value key))] = lines
          have took := ih (s := { s with m_lines := lines }) clean' distinct' unknown'
          refine ⟨?_, fun every => absurd (every key List.mem_cons_self) lost, ?_⟩
          · rw [took.keys_order, List.filter_cons_of_neg (by simpa using lost)]
          · rw [List.filter_cons_of_neg (by simpa using lost)]
            exact took.entries

theorem rebuilt_unkeyed (clean : s.Clean) (unkeyed : s.keys_order = []) :
    s.rebuilt = { s with m_lines := (s.m_lines.map IniFile.removeCR).filter (· ≠ []) } := by
  have raw := fun line member => (clean.raw line member).2.2.2
  have noEntry : s.values.entries.Perm [] := by simpa [unkeyed] using clean.listed.entries
  rw [rebuilt, contents, if_pos unkeyed, foldl_rawLines raw]
  exact Section.ext rfl unkeyed.symm (ViewedMap.eq_of_perm noEntry.symm) (List.nil_append _)

theorem took_rebuilt (clean : s.Clean) (keyed : s.keys_order ≠ []) :
    Took s.valueOf s.keys_order (new s.name) s.rebuilt := by
  rw [rebuilt, contents, if_neg keyed]
  exact foldl_keyLines (fun key member => (clean.keys key member).2) clean.listed.distinct
    fun _ _ => rfl

theorem Stable.found (clean : s.Clean) (member : key ∈ s.keys_order)
    (plain : ∀ c ∈ key.head?, c ∉ hash :: openBracket :: verbatim)
    (same : stripQuotes (stripWhitespace (s.valueOf key)) = s.valueOf key) :
    Found key (s.valueOf key) := by
  have entry := List.mem_of_find?_eq_some (clean.listed.find? member)
  refine ⟨fun c first inside => plain c first ?_, ?_⟩
  · exact ((List.sublist_cons_self openBracket verbatim).cons_cons hash).subset inside
  · rw [same]
    exact (clean.values _ entry).2

theorem Stable.bracketless (stable : s.Stable) : s.Bracketless := by
  intro key member bracket
  rw [Stable, if_neg (List.ne_nil_of_mem member)] at stable
  exact (stable.2 key member).1 openBracket bracket (by simp)

theorem rebuilt_eq_self_iff (clean : s.Clean) (plain : s.Bracketless) :
    s.rebuilt = s ↔ s.Stable := by
  by_cases unkeyed : s.keys_order = []
  · rw [rebuilt_unkeyed clean unkeyed, Stable, if_pos unkeyed]
    have kept : { s with m_lines := (s.m_lines.map IniFile.removeCR).filter (· ≠ []) } = s ↔
        (s.m_lines.map IniFile.removeCR).filter (· ≠ []) = s.m_lines :=
      ⟨congrArg m_lines, fun same => Section.ext rfl rfl rfl same⟩
    rw [kept, filter_map_eq_self_iff]
    refine forall₂_congr fun line member => ?_
    have nonempty := (clean.raw line member).2.1
    simp [removeCR_eq_self_iff, nonempty]
  · have took := took_rebuilt clean unkeyed
    rw [Stable, if_neg unkeyed]
    constructor
    · intro same
      rw [same] at took
      have every := List.filter_eq_self.mp took.keys_order.symm
      have entries := took.entries
      rw [List.filter_eq_self.mpr every] at entries
      refine ⟨took.m_lines fun key member => by simpa using every key member, ?_⟩
      intro key member
      have found : Found key (s.valueOf key) := by simpa using every key member
      refine ⟨fun c first inside => ?_, ?_⟩
      · have other : c ≠ openBracket := fun bracket => plain key member (bracket ▸ first)
        simp only [List.mem_cons, other, false_or] at inside
        exact found.1 c first (List.mem_cons.mpr inside)
      · have entry := entries.symm.mem_iff.mp (List.mem_map_of_mem member)
        exact (valueOf_of_mem entry).symm
    · rintro ⟨rawless, stable⟩
      have every := fun key member =>
        Stable.found clean member (stable key member).1 (stable key member).2
      have all : s.keys_order.filter (fun key => Found key (s.valueOf key)) = s.keys_order :=
        List.filter_eq_self.mpr fun key member => by simpa using every key member
      refine Section.ext (foldl_takeLine_name _ _) ?_ (ViewedMap.eq_of_perm ?_) ?_
      · rw [took.keys_order, all]
        rfl
      · have values := took.entries
        rw [all, List.map_congr_left fun key member => by rw [(stable key member).2]] at values
        exact values.trans clean.listed.entries.symm
      · rw [took.m_lines every, rawless]
        rfl

end Section

end Phocoena.Ini
