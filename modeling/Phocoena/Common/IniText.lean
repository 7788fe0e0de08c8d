import Phocoena.Common.IniFile

/-! # The text of an INI file

Lines that are written and split again, stripped whitespace, and how the line of a key or a raw line
is parsed when it is read back.
-/

namespace Phocoena.Ini

open StringUtil

/-! ## Lines -/

section
variable {delim : UInt8} {line rest str : Bytes}

theorem getlines_line (absent : delim ∉ rest) :
    getlines delim line (rest ++ delim :: str) = (line ++ rest) :: getlines delim [] str := by
  induction rest generalizing line with
  | nil => simp [getlines]
  | cons c rest ih =>
      have different : c ≠ delim := fun same => absent (same ▸ List.mem_cons_self)
      rw [List.cons_append, getlines, if_neg different,
        ih fun member => absent (List.mem_cons_of_mem c member), List.append_assoc]
      rfl

/-- Lines that are written with their line endings are read again. -/
theorem getlines_written {lines : List Bytes} (absent : ∀ line ∈ lines, delim ∉ line) :
    getlines delim [] (lines.flatMap (· ++ [delim])) = lines := by
  induction lines with
  | nil => rfl
  | cons line lines ih =>
      have here := absent line List.mem_cons_self
      have there := ih fun l member => absent l (List.mem_cons_of_mem line member)
      rw [List.flatMap_cons, List.append_assoc, List.singleton_append, getlines_line here, there,
        List.nil_append]

theorem not_mem_getlines (absent : delim ∉ line) : ∀ l ∈ getlines delim line str, delim ∉ l := by
  induction str generalizing line with
  | nil =>
      intro l member
      rw [getlines] at member
      split at member
      · cases member
      · exact List.mem_singleton.mp member ▸ absent
  | cons c str ih =>
      intro l member
      rw [getlines] at member
      split at member
      · cases List.mem_cons.mp member with
        | inl same => exact same ▸ absent
        | inr behind => exact ih List.not_mem_nil l behind
      · next different =>
          exact ih (by simp [absent, Ne.symm different]) l member

end

/-! ## Whitespace -/

section
variable {s : Bytes} {c : UInt8}

theorem stripWhitespace_cons (blank : c ∈ whitespace) :
    stripWhitespace (c :: s) = stripWhitespace s := by
  rw [stripWhitespace, stripWhitespace, List.dropWhile_cons_of_pos (by simpa using blank)]

theorem stripWhitespace_concat (blank : c ∈ whitespace) :
    stripWhitespace (s ++ [c]) = stripWhitespace s := by
  rw [stripWhitespace, stripWhitespace, List.dropWhile_append]
  split
  · next nothing => simp [List.isEmpty_iff.mp nothing, blank]
  · rw [List.reverse_append, List.reverse_singleton, List.singleton_append,
      List.dropWhile_cons_of_pos (by simpa using blank)]

theorem stripWhitespace_eq_self (begins : ∀ c ∈ s.head?, c ∉ whitespace)
    (ends : ∀ c ∈ s.getLast?, c ∉ whitespace) : stripWhitespace s = s := by
  have unchanged : ∀ {t : Bytes}, (∀ c ∈ t.head?, c ∉ whitespace) →
      t.dropWhile (· ∈ whitespace) = t := by
    intro t begins
    cases t with
    | nil => rfl
    | cons c t => exact List.dropWhile_cons_of_neg (by simpa using begins c rfl)
  have backwards : s.reverse.dropWhile (· ∈ whitespace) = s.reverse :=
    unchanged (by rwa [List.head?_reverse])
  rw [stripWhitespace, unchanged begins, backwards, List.reverse_reverse]

theorem stripWhitespace_sublist (s : Bytes) : (stripWhitespace s).Sublist s := by
  rw [stripWhitespace]
  refine .trans ?_ (List.dropWhile_sublist (· ∈ whitespace))
  rw [← List.reverse_sublist, List.reverse_reverse]
  exact List.dropWhile_sublist _

theorem stripQuotes_subset (s : Bytes) : stripQuotes s ⊆ s := by
  rw [stripQuotes]
  split
  · exact fun c member => List.mem_of_mem_drop (List.mem_of_mem_take member)
  · exact List.Subset.refl s

theorem head_dropWhile (s : Bytes) :
    ∀ c ∈ (s.dropWhile (· ∈ whitespace)).head?, c ∉ whitespace := by
  intro c first
  have := List.head?_dropWhile_not (· ∈ whitespace) s
  rw [Option.mem_def.mp first] at this
  simpa using this

/-- What has been stripped stays as it is. -/
theorem stripWhitespace_idem (s : Bytes) :
    stripWhitespace (stripWhitespace s) = stripWhitespace s := by
  apply stripWhitespace_eq_self
  · intro c first
    rw [stripWhitespace] at first
    obtain ⟨rest, same⟩ : (stripWhitespace s) <+: s.dropWhile (· ∈ whitespace) := by
      rw [stripWhitespace, ← List.reverse_suffix, List.reverse_reverse]
      exact List.dropWhile_suffix _
    refine head_dropWhile s c ?_
    rw [← same, List.head?_append, stripWhitespace, Option.mem_def.mp first]
    rfl
  · intro c last
    rw [stripWhitespace, List.getLast?_reverse] at last
    exact head_dropWhile _ c last

end

/-! ## Line endings -/

section
variable {line : Bytes}

theorem removeCR_concat (line : Bytes) : IniFile.removeCR (line ++ [CR]) = line := by
  simp [IniFile.removeCR]

theorem removeCR_of_ne (other : line.getLast? ≠ some CR) : IniFile.removeCR line = line :=
  if_neg other

/-- A line ends in a CR that is removed, or stays as it is. -/
theorem removeCR_cases (line : Bytes) :
    line = IniFile.removeCR line ++ [CR] ∨
      line.getLast? ≠ some CR ∧ IniFile.removeCR line = line := by
  by_cases last : line.getLast? = some CR
  · obtain ⟨before, rfl⟩ := List.getLast?_eq_some_iff.mp last
    exact .inl (by rw [removeCR_concat])
  · exact .inr ⟨last, removeCR_of_ne last⟩

theorem prefix_removeCR (line : Bytes) : IniFile.removeCR line <+: line := by
  rcases removeCR_cases line with ends | ⟨-, same⟩
  · exact ⟨[CR], ends.symm⟩
  · exact ⟨[], by rw [List.append_nil, same]⟩

theorem head_removeCR (nonempty : IniFile.removeCR line ≠ []) :
    (IniFile.removeCR line).head? = line.head? := by
  obtain ⟨rest, same⟩ := prefix_removeCR line
  cases left : IniFile.removeCR line with
  | nil => exact absurd left nonempty
  | cons c text =>
      rw [left] at same
      rw [← same]
      rfl

/-- What `Load` makes of a line as it was written. -/
theorem removeCR_eq_self_iff : IniFile.removeCR line = line ↔ line.getLast? ≠ some CR := by
  constructor
  · intro same last
    rcases removeCR_cases line with ends | ⟨other, -⟩
    · rw [same] at ends
      simpa using congrArg List.length ends
    · exact other last
  · exact removeCR_of_ne

end

/-! ## Keys and values -/

section
variable {line before after key value : Bytes}

theorem parseLine_hash (comment : line.head? = some hash) : parseLine line = ([], []) :=
  if_pos (.inr comment)

theorem parseLine_none (absent : equals ∉ line) : parseLine line = ([], []) := by
  rw [parseLine]
  split
  · rfl
  · rw [List.idxOf?_eq_none_iff.mpr absent]

theorem idxOf?_append_cons {c : UInt8} (absent : c ∉ before) :
    (before ++ c :: after).idxOf? c = some before.length := by
  rw [List.idxOf?, List.findIdx?_append, List.findIdx?_eq_none_iff.mpr]
  · simp [List.findIdx?_cons]
  · intro d member
    simpa using fun same : d = c => absent (same ▸ member)

theorem parseLine_split (absent : equals ∉ before)
    (plain : (before ++ equals :: after).head? ≠ some hash) :
    parseLine (before ++ equals :: after)
      = (stripWhitespace before, stripQuotes (stripWhitespace after)) := by
  have nonempty : before ++ equals :: after ≠ [] := by simp
  have behind : (before ++ equals :: after).drop (before.length + 1) = after := by
    simp [List.drop_append]
  rw [parseLine, if_neg (not_or.mpr ⟨nonempty, plain⟩), idxOf?_append_cons absent]
  dsimp only
  rw [List.take_left, behind]

/-- The CR of a line changes neither its key nor its value. -/
theorem parseLine_removeCR (nonempty : IniFile.removeCR line ≠ []) :
    parseLine (IniFile.removeCR line) = parseLine line := by
  have first := head_removeCR nonempty
  rcases removeCR_cases line with ends | ⟨-, same⟩
  · generalize IniFile.removeCR line = text at *
    subst ends
    by_cases comment : text.head? = some hash
    · rw [parseLine_hash comment, parseLine_hash (first.symm.trans comment)]
    · by_cases found : equals ∈ text
      · obtain ⟨before, after, rfl, absent⟩ := List.eq_append_cons_of_mem found
        have comment' := comment
        rw [first, List.append_assoc, List.cons_append] at comment'
        rw [parseLine_split absent comment, List.append_assoc, List.cons_append,
          parseLine_split absent comment', stripWhitespace_concat (by decide)]
      · have found' : equals ∉ text ++ [CR] := by simpa [equals, CR] using found
        rw [parseLine_none found, parseLine_none found']
  · rw [same]

/-- Without the sign of a comment in front, a written line has the key that was written; the value
loses the whitespace and the quotes around it. -/
theorem parseLine_keyLine (absent : equals ∉ key) (stripped : stripWhitespace key = key)
    (plain : key.head? ≠ some hash) :
    parseLine (Section.keyLine (key, value)) = (key, stripQuotes (stripWhitespace value)) := by
  have spaced : Section.keyLine (key, value) = (key ++ [space]) ++ equals :: space :: value := by
    simp [Section.keyLine]
  have before : equals ∉ key ++ [space] := by simpa [equals, space] using absent
  have first : ((key ++ [space]) ++ equals :: space :: value).head? ≠ some hash := by
    cases key with
    | nil => simp [space, hash]
    | cons c key => exact plain
  rw [spaced, parseLine_split before first, stripWhitespace_concat (by decide), stripped,
    stripWhitespace_cons (by decide)]

theorem head_keyLine : (Section.keyLine (key, value)).head? = some (key.head?.getD space) := by
  cases key <;> rfl

theorem removeCR_keyLine_ne : IniFile.removeCR (Section.keyLine (key, value)) ≠ [] := by
  intro nothing
  have long : 3 ≤ (Section.keyLine (key, value)).length := by simp [Section.keyLine]; omega
  rcases removeCR_cases (Section.keyLine (key, value)) with ends | ⟨-, same⟩
  · rw [ends, nothing] at long
    exact absurd long (by decide)
  · rw [← same, nothing] at long
    exact absurd long (by decide)

/-- What `Load` finds in a line is stripped, and without line breaks if the line has none. -/
theorem parseLine_spec (line : Bytes) : equals ∉ (parseLine line).1 ∧
    stripWhitespace (parseLine line).1 = (parseLine line).1 ∧
    (∀ c ∈ (parseLine line).1, c ∈ line) ∧ ∀ c ∈ (parseLine line).2, c ∈ line := by
  by_cases comment : line.head? = some hash
  · rw [parseLine_hash comment]
    exact ⟨List.not_mem_nil, rfl, by simp, by simp⟩
  · by_cases found : equals ∈ line
    · obtain ⟨before, after, rfl, absent⟩ := List.eq_append_cons_of_mem found
      rw [parseLine_split absent comment]
      have front := (stripWhitespace_sublist before).subset
      have back := (stripWhitespace_sublist after).subset
      refine ⟨fun member => absent (front member), stripWhitespace_idem before, ?_, ?_⟩
      · intro c member
        exact List.mem_append_left _ (front member)
      · intro c member
        exact List.mem_append_right _ (.tail _ (back (stripQuotes_subset _ member)))
    · rw [parseLine_none found]
      exact ⟨List.not_mem_nil, rfl, by simp, by simp⟩

end

end Phocoena.Ini
