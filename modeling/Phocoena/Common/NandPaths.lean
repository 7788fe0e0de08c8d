import Phocoena.Common.StringUtil
import Mathlib.Data.List.Flatten

/-! # File names on the host

The names of the emulated NAND are kept on a host file system that does not allow every
character, so `Common/NandPaths.cpp` escapes them.
-/

namespace Phocoena.NandPaths

open StringUtil

/-- `'.'` -/
def dot : UInt8 := 0x2e
/-- `'/'` -/
def slash : UInt8 := 0x2f
/-- `'_'` -/
def underscore : UInt8 := 0x5f
/-- `"__"` -/
def doubleUnderscore : Bytes := [0x5f, 0x5f]

def illegalChars : Bytes := [0x22, 0x2a, 0x2f, 0x3a, 0x3c, 0x3e, 0x3f, 0x5c, 0x7c, 0x7f]

def isIllegalCharacter (c : UInt8) : Bool :=
  c ≤ 0x1f || c ∈ illegalChars

/-- A digit as `fmt` writes it for `x`. -/
def hexDigit (n : Nat) : UInt8 :=
  if n < 10 then UInt8.ofNat (0x30 + n) else UInt8.ofNat (0x61 + (n - 10))

/-- `fmt::format("__{:02x}__", c)`. An illegal character is not negative as a `char`. -/
def escapeSequence (c : UInt8) : Bytes :=
  [underscore, underscore, hexDigit (c.toNat / 16), hexDigit (c.toNat % 16), underscore, underscore]

/-- `"__2e__"` -/
def escapedDot : Bytes := [0x5f, 0x5f, 0x32, 0x65, 0x5f, 0x5f]
/-- `"__5f____5f__"` -/
def escapedDoubleUnderscore : Bytes :=
  [0x5f, 0x5f, 0x35, 0x66, 0x5f, 0x5f, 0x5f, 0x5f, 0x35, 0x66, 0x5f, 0x5f]

def escapeCharacter (c : UInt8) : Bytes :=
  if isIllegalCharacter c then escapeSequence c else [c]

def escapeFileName (filename : Bytes) : Bytes :=
  if filename.all (· = dot) then replaceAll filename [dot] escapedDot (List.cons_ne_nil _ _)
  else (replaceAll filename doubleUnderscore escapedDoubleUnderscore (List.cons_ne_nil _ _)).flatMap
    escapeCharacter

def escapePath (path : Bytes) : Bytes :=
  [slash].intercalate ((splitString path slash).map escapeFileName)

/-- The body of the loop of `UnescapeFileName`, at a place where `"__"` was found. -/
def unescapeAt (result : Bytes) (pos : Nat) : Bytes :=
  if pos + 6 ≤ result.length ∧ result[pos + 4]? = some underscore
      ∧ result[pos + 5]? = some underscore then
    match fromChars16 ((result.drop (pos + 2)).take 2) with
    | some character => result.take pos ++ [UInt8.ofNat character] ++ result.drop (pos + 6)
    | none => result
  else result

theorem length_unescapeAt (result : Bytes) (pos : Nat) :
    (unescapeAt result pos).length ≤ result.length := by
  rw [unescapeAt]
  split
  · next inside =>
      split
      · simp only [List.length_append, List.length_take, List.length_drop, List.length_singleton]
        omega
      · exact le_refl _
  · exact le_refl _

def unescapeLoop (result : Bytes) (pos : Nat) : Bytes :=
  match found : find result doubleUnderscore pos with
  | none => result
  | some place => unescapeLoop (unescapeAt result place) (place + 1)
termination_by result.length - pos
decreasing_by
  have bounds := find_bounds found
  have shorter := length_unescapeAt result place
  have two : doubleUnderscore.length = 2 := rfl
  omega

def unescapeFileName (filename : Bytes) : Bytes :=
  unescapeLoop filename 0

def isFileNameSafe (filename : Bytes) : Bool :=
  !filename.isEmpty && !filename.all (· = dot) && !filename.any isIllegalCharacter

end Phocoena.NandPaths

/-! ## Escaping file names is reversible

Both loops are first shown to be one pass over the text. The escaped text is then a sequence of
plain characters and escape sequences, and the decoder meets an escape sequence only at its
beginning: the one other place where two underscores stand together is a plain underscore in
front of an escape sequence, and the fifth character from there is a hexadecimal digit.
-/

namespace Phocoena.NandPaths

open StringUtil

/-! ## The loops in one pass -/

/-- What `ReplaceAll` leaves of the text from its position on. -/
def replaceText (src dest : Bytes) : Bytes → Bytes
  | [] => []
  | c :: text =>
      if src <+: c :: text then dest ++ replaceText src dest (text.drop (src.length - 1))
      else c :: replaceText src dest text
termination_by text => text.length

/-- The character of the escape sequence that begins the text. -/
def sequenceAt : Bytes → Option UInt8
  | a :: b :: c :: d :: e :: f :: _ =>
      if a = underscore ∧ b = underscore ∧ e = underscore ∧ f = underscore then
        (fromChars16 [c, d]).map UInt8.ofNat
      else none
  | _ => none

/-- What `UnescapeFileName` leaves of the text from its position on. -/
def unescapeText : Bytes → Bytes
  | [] => []
  | c :: text =>
      match sequenceAt (c :: text) with
      | some character => character :: unescapeText (text.drop 5)
      | none => c :: unescapeText text
termination_by text => text.length

theorem find_here {token rest : Bytes} (done : Bytes) (here : token <+: rest) :
    find (done ++ rest) token done.length = some done.length := by
  rw [find_append, firstAt_begins here]
  rfl

/-- A search that does not succeed at a character may as well begin behind it. -/
theorem find_skip {token text : Bytes} {c : UInt8} (done : Bytes) (absent : ¬ token <+: c :: text) :
    find (done ++ c :: text) token done.length
      = find (done ++ c :: text) token (done ++ [c]).length := by
  have behind : done ++ c :: text = done ++ [c] ++ text := by
    rw [List.append_assoc, List.singleton_append]
  rw [find_append, behind, find_append, firstAt_cons absent, Option.map_map]
  congr 1
  funext n
  simp only [Function.comp_apply, List.length_append, List.length_singleton]
  omega

theorem find_end {token : Bytes} (done : Bytes) (nonempty : token ≠ []) :
    find (done ++ []) token done.length = none := by
  rw [find_append, firstAt, if_neg nonempty]
  rfl

theorem replaceLoop_eq (src dest : Bytes) (nonempty : src ≠ []) (result : Bytes) (pos : Nat) :
    replaceLoop src dest nonempty result pos = match find result src pos with
      | none => result
      | some place => replaceLoop src dest nonempty
          (result.take place ++ dest ++ result.drop (place + src.length))
          (place + dest.length) := by
  rw [replaceLoop]
  split
  · next missing => rw [missing]
  · next place found => rw [found]

theorem replaceLoop_append {src dest : Bytes} (nonempty : src ≠ []) (done rest : Bytes) :
    replaceLoop src dest nonempty (done ++ rest) done.length = done ++ replaceText src dest rest := by
  induction size : rest.length using Nat.strong_induction_on generalizing done rest with
  | _ n ih =>
    cases rest with
    | nil => rw [replaceLoop_eq, find_end done nonempty, replaceText]
    | cons c text =>
        by_cases here : src <+: c :: text
        · obtain ⟨tail, eq⟩ := here
          have begins : src <+: c :: text := ⟨tail, eq⟩
          have positive := List.length_pos_iff.mpr nonempty
          have left : text.drop (src.length - 1) = tail := by
            have := congrArg (List.drop src.length) eq
            rw [List.drop_left] at this
            rw [this]
            cases lengths : src.length with
            | zero => omega
            | succ k => rfl
          have less : tail.length < n := by
            have lengths := congrArg List.length eq
            rw [List.length_append] at lengths
            omega
          rw [replaceLoop_eq, find_here done begins, replaceText, if_pos begins, left]
          simp only [List.take_left]
          have rest_eq : (done ++ c :: text).drop (done.length + src.length) = tail := by
            rw [← eq, ← List.append_assoc, ← List.length_append, List.drop_left]
          rw [rest_eq, ← List.length_append, ih tail.length less (done ++ dest) tail rfl,
            List.append_assoc]
        · rw [replaceText, if_neg here, replaceLoop_eq, find_skip done here, ← replaceLoop_eq]
          have behind := ih text.length (by rw [← size]; exact Nat.lt_succ_self _)
            (done ++ [c]) text rfl
          rwa [List.append_assoc, List.append_assoc, List.singleton_append,
            List.singleton_append] at behind

theorem replaceAll_eq {src dest : Bytes} (nonempty : src ≠ []) (different : src ≠ dest)
    (text : Bytes) : replaceAll text src dest nonempty = replaceText src dest text := by
  rw [replaceAll, if_neg different]
  exact replaceLoop_append nonempty [] text

theorem sequenceAt_eq_none {text : Bytes} (absent : ¬ doubleUnderscore <+: text) :
    sequenceAt text = none := by
  rw [sequenceAt.eq_def]
  split
  · next a b _ _ _ _ _ =>
      refine if_neg fun marks => absent ?_
      rw [marks.1, marks.2.1]
      exact ⟨_, rfl⟩
  · rfl

/-- The body of the loop, at two underscores. -/
theorem unescapeAt_append {rest : Bytes} (done : Bytes) (here : doubleUnderscore <+: rest) :
    unescapeAt (done ++ rest) done.length
      = done ++ (sequenceAt rest).elim rest (· :: rest.drop 6) := by
  obtain ⟨tail, rfl⟩ := here
  rw [unescapeAt, List.length_append]
  -- too short for an escape sequence, or long enough
  rcases tail with _ | ⟨c, _ | ⟨d, _ | ⟨e, _ | ⟨f, tail⟩⟩⟩⟩
  · rw [if_neg (by simp [doubleUnderscore])]; rfl
  · rw [if_neg (by simp [doubleUnderscore])]; rfl
  · rw [if_neg (by simp [doubleUnderscore])]; rfl
  · rw [if_neg (by simp [doubleUnderscore])]; rfl
  · have fourth : (done ++ (doubleUnderscore ++ c :: d :: e :: f :: tail))[done.length + 4]?
        = some e := by
      rw [List.getElem?_append_right (Nat.le_add_right _ _), Nat.add_sub_cancel_left]
      rfl
    have fifth : (done ++ (doubleUnderscore ++ c :: d :: e :: f :: tail))[done.length + 5]?
        = some f := by
      rw [List.getElem?_append_right (Nat.le_add_right _ _), Nat.add_sub_cancel_left]
      rfl
    have digits : ((done ++ (doubleUnderscore ++ c :: d :: e :: f :: tail)).drop
        (done.length + 2)).take 2 = [c, d] := by
      rw [List.drop_append, List.drop_of_length_le (Nat.le_add_right _ _),
        Nat.add_sub_cancel_left]
      rfl
    have behind : (done ++ (doubleUnderscore ++ c :: d :: e :: f :: tail)).drop
        (done.length + 6) = tail := by
      rw [List.drop_append, List.drop_of_length_le (Nat.le_add_right _ _),
        Nat.add_sub_cancel_left]
      rfl
    have room : done.length + 6
        ≤ done.length + (doubleUnderscore ++ c :: d :: e :: f :: tail).length := by
      simp [doubleUnderscore]
    rw [fourth, fifth, digits, behind, List.take_left]
    by_cases marks : e = underscore ∧ f = underscore
    · have sequence : sequenceAt (doubleUnderscore ++ c :: d :: e :: f :: tail)
          = (fromChars16 [c, d]).map UInt8.ofNat := if_pos ⟨rfl, rfl, marks⟩
      rw [if_pos ⟨room, congrArg some marks.1, congrArg some marks.2⟩, sequence]
      cases fromChars16 [c, d] with
      | none => rfl
      | some character => exact List.append_assoc done [UInt8.ofNat character] tail
    · have sequence : sequenceAt (doubleUnderscore ++ c :: d :: e :: f :: tail) = none :=
        if_neg fun all => marks all.2.2
      rw [if_neg fun all => marks ⟨Option.some.inj all.2.1, Option.some.inj all.2.2⟩, sequence]
      rfl

theorem unescapeLoop_eq (result : Bytes) (pos : Nat) :
    unescapeLoop result pos = match find result doubleUnderscore pos with
      | none => result
      | some place => unescapeLoop (unescapeAt result place) (place + 1) := by
  rw [unescapeLoop]
  split
  · next missing => rw [missing]
  · next place found => rw [found]

theorem unescapeLoop_append (done rest : Bytes) :
    unescapeLoop (done ++ rest) done.length = done ++ unescapeText rest := by
  induction size : rest.length using Nat.strong_induction_on generalizing done rest with
  | _ n ih =>
    cases rest with
    | nil =>
        have nonempty : doubleUnderscore ≠ [] := List.cons_ne_nil _ _
        rw [unescapeLoop_eq, find_end done nonempty, unescapeText]
    | cons c text =>
        have shorter : text.length < n := by
          rw [← size]
          exact Nat.lt_succ_self _
        -- the loop goes on behind the character, which it leaves as it is
        have keep : unescapeLoop (done ++ c :: text) (done.length + 1)
            = done ++ c :: unescapeText text := by
          have behind := ih text.length shorter (done ++ [c]) text rfl
          rwa [List.append_assoc, List.append_assoc, List.singleton_append,
            List.singleton_append, List.length_append] at behind
        rw [unescapeText]
        by_cases here : doubleUnderscore <+: c :: text
        · rw [unescapeLoop_eq, find_here done here]
          change unescapeLoop (unescapeAt (done ++ c :: text) done.length) (done.length + 1) = _
          rw [unescapeAt_append done here]
          cases sequence : sequenceAt (c :: text) with
          | none => exact keep
          | some character =>
              have less : (text.drop 5).length < n := by
                rw [List.length_drop]
                omega
              have behind := ih _ less (done ++ [character]) (text.drop 5) rfl
              rwa [List.append_assoc, List.append_assoc, List.singleton_append,
                List.singleton_append, List.length_append] at behind
        · rw [sequenceAt_eq_none here, unescapeLoop_eq, find_skip done here, ← unescapeLoop_eq,
            List.length_append]
          exact keep

theorem unescapeFileName_eq (filename : Bytes) :
    unescapeFileName filename = unescapeText filename :=
  unescapeLoop_append [] filename

/-! ## The escaped text -/

/-- `EscapeFileName` in one pass, for a name that is not only dots. -/
def escapeText : Bytes → Bytes
  | [] => []
  | c :: text =>
      if doubleUnderscore <+: c :: text then escapedDoubleUnderscore ++ escapeText (text.drop 1)
      else escapeCharacter c ++ escapeText text
termination_by text => text.length

theorem flatMap_escapedDoubleUnderscore :
    escapedDoubleUnderscore.flatMap escapeCharacter = escapedDoubleUnderscore := by
  decide

theorem escapeText_eq (text : Bytes) :
    (replaceText doubleUnderscore escapedDoubleUnderscore text).flatMap escapeCharacter
      = escapeText text := by
  induction text using escapeText.induct with
  | case1 => rw [replaceText, escapeText, List.flatMap_nil]
  | case2 c text here ih =>
      rw [replaceText, escapeText, if_pos here, if_pos here, List.flatMap_append,
        flatMap_escapedDoubleUnderscore]
      exact congrArg (escapedDoubleUnderscore ++ ·) ih
  | case3 c text here ih =>
      rw [replaceText, escapeText, if_neg here, if_neg here, List.flatMap_cons, ih]

theorem escapeFileName_eq {filename : Bytes} (plain : filename.all (· = dot) = false) :
    escapeFileName filename = escapeText filename := by
  have nonempty : doubleUnderscore ≠ [] := List.cons_ne_nil _ _
  have different : doubleUnderscore ≠ escapedDoubleUnderscore := by decide
  rw [escapeFileName, if_neg (by rw [plain]; exact Bool.false_ne_true),
    replaceAll_eq nonempty different, escapeText_eq]

theorem escapeFileName_dots {filename : Bytes} (dots : filename.all (· = dot) = true) :
    escapeFileName filename = filename.flatMap fun _ => escapedDot := by
  have nonempty : [dot] ≠ [] := List.cons_ne_nil _ _
  have different : [dot] ≠ escapedDot := by decide
  rw [escapeFileName, if_pos dots, replaceAll_eq nonempty different]
  induction filename with
  | nil => rw [replaceText, List.flatMap_nil]
  | cons c filename ih =>
      obtain ⟨first, rest⟩ := Bool.and_eq_true_iff.mp dots
      obtain rfl : c = dot := of_decide_eq_true first
      rw [replaceText, if_pos ⟨filename, rfl⟩, List.flatMap_cons]
      exact congrArg (escapedDot ++ ·) (ih rest)

/-! ## Decoding one piece -/

theorem hexDigitValue_hexDigit : ∀ n < 16, hexDigitValue (hexDigit n) = some n := by
  decide

theorem fromChars16_hexDigits (c : UInt8) :
    (fromChars16 [hexDigit (c.toNat / 16), hexDigit (c.toNat % 16)]).map UInt8.ofNat = some c := by
  have small : c.toNat < 256 := c.toNat_lt
  have high : c.toNat / 16 < 16 := by omega
  have low : c.toNat % 16 < 16 := by omega
  have joined : (0 * 16 + c.toNat / 16) * 16 + c.toNat % 16 = c.toNat := by omega
  have value : readHex [hexDigit (c.toNat / 16), hexDigit (c.toNat % 16)] 0 = (2, c.toNat) := by
    simp only [readHex, hexDigitValue_hexDigit _ high, hexDigitValue_hexDigit _ low, joined]
  have accepted : fromChars16 [hexDigit (c.toNat / 16), hexDigit (c.toNat % 16)]
      = some c.toNat := by
    rw [fromChars16, value, if_neg (by omega : ¬ (2 = 0 ∨ 0x100000000 ≤ c.toNat))]
  rw [accepted, Option.map_some, UInt8.ofNat_toNat]

theorem hexDigit_ne_underscore (c : UInt8) : hexDigit (c.toNat % 16) ≠ underscore := by
  have each : ∀ n < 16, hexDigit n ≠ underscore := by decide
  exact each _ (Nat.mod_lt _ (by decide))

theorem unescapeText_escapeSequence (c : UInt8) (text : Bytes) :
    unescapeText (escapeSequence c ++ text) = c :: unescapeText text := by
  have sequence : sequenceAt (escapeSequence c ++ text) = some c := by
    have marks : underscore = underscore ∧ underscore = underscore ∧ underscore = underscore
        ∧ underscore = underscore := ⟨rfl, rfl, rfl, rfl⟩
    rw [← fromChars16_hexDigits c]
    exact if_pos (e := none) marks
  rw [escapeSequence, List.cons_append, unescapeText, ← List.cons_append]
  change (match sequenceAt (escapeSequence c ++ text) with
    | some character => character :: unescapeText text
    | none => _) = _
  rw [sequence]

theorem unescapeText_plain {c : UInt8} {text : Bytes} (none_here : sequenceAt (c :: text) = none) :
    unescapeText (c :: text) = c :: unescapeText text := by
  rw [unescapeText, none_here]

theorem escapedDoubleUnderscore_eq :
    escapedDoubleUnderscore = escapeSequence underscore ++ escapeSequence underscore := by
  decide

theorem escapedDot_eq : escapedDot = escapeSequence dot := by
  decide

/-- A character that is not escaped is not read as the beginning of an escape sequence. -/
theorem sequenceAt_plain {c : UInt8} {text : Bytes} (absent : ¬ doubleUnderscore <+: c :: text) :
    sequenceAt (c :: escapeText text) = none := by
  by_cases single : c = underscore
  swap
  · exact sequenceAt_eq_none fun here => single (List.cons_prefix_cons.mp here).1.symm
  cases text with
  | nil =>
      rw [escapeText]
      rfl
  | cons d text =>
      have other : d ≠ underscore := by
        rintro rfl
        rw [single] at absent
        exact absent ⟨text, rfl⟩
      have no_pair : ¬ doubleUnderscore <+: d :: text := fun here =>
        other (List.cons_prefix_cons.mp here).1.symm
      rw [escapeText, if_neg no_pair, escapeCharacter]
      split
      · -- the fifth character is the second digit of the escape sequence of `d`
        exact if_neg fun marks => hexDigit_ne_underscore d marks.2.2.1
      · refine sequenceAt_eq_none fun here => other ?_
        exact (List.cons_prefix_cons.mp (List.cons_prefix_cons.mp here).2).1.symm

theorem unescapeText_escapeText (text : Bytes) : unescapeText (escapeText text) = text := by
  induction text using escapeText.induct with
  | case1 => rw [escapeText, unescapeText]
  | case2 c text here ih =>
      obtain ⟨rest, eq⟩ := here
      obtain ⟨rfl, rfl⟩ := List.cons.inj eq
      rw [escapeText, if_pos ⟨rest, rfl⟩, escapedDoubleUnderscore_eq, List.append_assoc,
        unescapeText_escapeSequence, unescapeText_escapeSequence]
      exact congrArg (fun t => underscore :: underscore :: t) ih
  | case3 c text here ih =>
      rw [escapeText, if_neg here, escapeCharacter]
      split
      · rw [unescapeText_escapeSequence, ih]
      · rw [List.singleton_append, unescapeText_plain (sequenceAt_plain here), ih]

theorem unescapeText_escapedDots {filename : Bytes} (dots : filename.all (· = dot) = true) :
    unescapeText (filename.flatMap fun _ => escapedDot) = filename := by
  induction filename with
  | nil => rw [List.flatMap_nil, unescapeText]
  | cons c filename ih =>
      obtain ⟨first, rest⟩ := Bool.and_eq_true_iff.mp dots
      obtain rfl : c = dot := of_decide_eq_true first
      rw [List.flatMap_cons, escapedDot_eq, unescapeText_escapeSequence, ← escapedDot_eq, ih rest]

theorem unescapeFileName_escape (filename : Bytes) :
    unescapeFileName (escapeFileName filename) = filename := by
  rw [unescapeFileName_eq]
  cases dots : filename.all (· = dot) with
  | true => rw [escapeFileName_dots dots, unescapeText_escapedDots dots]
  | false => rw [escapeFileName_eq dots, unescapeText_escapeText]

theorem escapeFileName_injective : Function.Injective escapeFileName :=
  Function.LeftInverse.injective unescapeFileName_escape

/-! ## The escaped name is safe -/

theorem escapeSequence_legal (c d : UInt8) (member : d ∈ escapeSequence c) :
    isIllegalCharacter d = false := by
  have each : ∀ n < 16, isIllegalCharacter (hexDigit n) = false := by decide
  have low : c.toNat / 16 < 16 := Nat.div_lt_of_lt_mul c.toNat_lt
  have high : c.toNat % 16 < 16 := Nat.mod_lt _ (by decide)
  simp only [escapeSequence, List.mem_cons, List.not_mem_nil, or_false] at member
  obtain rfl | rfl | rfl | rfl | rfl | rfl := member
  · decide
  · decide
  · exact each _ low
  · exact each _ high
  · decide
  · decide

theorem escapeCharacter_legal (c d : UInt8) (member : d ∈ escapeCharacter c) :
    isIllegalCharacter d = false := by
  rw [escapeCharacter] at member
  split at member
  · exact escapeSequence_legal c d member
  · next legal =>
      obtain rfl := List.mem_singleton.mp member
      exact Bool.not_eq_true _ ▸ legal

theorem escapeFileName_legal (filename : Bytes) (d : UInt8) (member : d ∈ escapeFileName filename) :
    isIllegalCharacter d = false := by
  cases dots : filename.all (· = dot) with
  | true =>
      rw [escapeFileName_dots dots, escapedDot_eq] at member
      obtain ⟨_, _, inner⟩ := List.mem_flatMap.mp member
      exact escapeSequence_legal dot d inner
  | false =>
      rw [escapeFileName_eq dots, ← escapeText_eq] at member
      obtain ⟨c, _, inner⟩ := List.mem_flatMap.mp member
      exact escapeCharacter_legal c d inner

/-- Escaping puts an underscore in front of everything that it changes. -/
theorem dots_of_escapeText {text : Bytes} (dots : ∀ d ∈ escapeText text, d = dot) :
    ∀ c ∈ text, c = dot := by
  have other : underscore ≠ dot := by decide
  induction text using escapeText.induct with
  | case1 => exact fun c member => absurd member List.not_mem_nil
  | case2 c text here ih =>
      rw [escapeText, if_pos here] at dots
      exact absurd (dots underscore (List.mem_append_left _ List.mem_cons_self)) other
  | case3 c text here ih =>
      rw [escapeText, if_neg here, escapeCharacter] at dots
      split at dots
      · exact absurd (dots underscore (List.mem_append_left _ List.mem_cons_self)) other
      · intro d member
        cases List.mem_cons.mp member with
        | inl first => exact dots d (List.mem_cons.mpr (.inl first))
        | inr inside =>
            exact ih (fun e within => dots e (List.mem_cons_of_mem c within)) d inside

theorem escapeFileName_not_dots {filename : Bytes} (nonempty : filename ≠ []) :
    (escapeFileName filename).all (· = dot) = false := by
  rw [← Bool.not_eq_true, List.all_eq_true]
  intro all
  have only : ∀ d ∈ escapeFileName filename, d = dot := fun d member =>
    of_decide_eq_true (all d member)
  cases dots : filename.all (· = dot) with
  | true =>
      rw [escapeFileName_dots dots] at only
      obtain ⟨c, rest, rfl⟩ := List.exists_cons_of_ne_nil nonempty
      have first : underscore ∈ (c :: rest).flatMap fun _ => escapedDot :=
        List.mem_append_left _ List.mem_cons_self
      exact absurd (only underscore first) (by decide)
  | false =>
      rw [escapeFileName_eq dots] at only
      rw [← Bool.not_eq_true, List.all_eq_true] at dots
      exact dots fun c member => decide_eq_true (dots_of_escapeText only c member)

theorem escapeFileName_eq_nil {filename : Bytes} : escapeFileName filename = [] ↔ filename = [] := by
  constructor
  · intro empty
    rw [← unescapeFileName_escape filename, empty, unescapeFileName_eq, unescapeText]
  · rintro rfl
    exact escapeFileName_dots rfl

theorem isFileNameSafe_escape {filename : Bytes} (nonempty : filename ≠ []) :
    isFileNameSafe (escapeFileName filename) = true := by
  have illegal : (escapeFileName filename).any isIllegalCharacter = false := by
    rw [← Bool.not_eq_true, List.any_eq_true]
    rintro ⟨d, member, bad⟩
    rw [escapeFileName_legal filename d member] at bad
    exact Bool.false_ne_true bad
  have content : (escapeFileName filename).isEmpty = false := by
    rw [← Bool.not_eq_true, List.isEmpty_iff]
    exact fun empty => nonempty (escapeFileName_eq_nil.mp empty)
  rw [isFileNameSafe, content, escapeFileName_not_dots nonempty, illegal]
  rfl

/-! ## Paths -/

/-- The path without the separator it ends with: the last call of `std::getline` fails at the end
of the text, so that separator does not begin another component. -/
def dropTrailing (path : Bytes) : Bytes :=
  if path.getLast? = some slash then path.dropLast else path

/-- The components between all separators, which a join puts together again. -/
def components (path : Bytes) : List Bytes := path.splitOn slash

theorem dropTrailing_of_getLast {path : Bytes} (open_end : path.getLast? ≠ some slash) :
    dropTrailing path = path :=
  if_neg open_end

theorem dropTrailing_append_slash (line : Bytes) : dropTrailing (line ++ [slash]) = line := by
  rw [dropTrailing, if_pos List.getLast?_concat, List.dropLast_concat]

theorem dropTrailing_append {line str : Bytes} (nonempty : str ≠ []) :
    dropTrailing (line ++ str) = line ++ dropTrailing str := by
  rw [dropTrailing, dropTrailing, List.getLast?_append_of_ne_nil line nonempty,
    List.dropLast_append_of_ne_nil nonempty]
  exact (apply_ite (line ++ ·) _ _ _).symm

theorem getlines_eq {line str : Bytes} (inside : slash ∉ line) (nonempty : line ++ str ≠ []) :
    getlines slash line str = components (dropTrailing (line ++ str)) := by
  induction str generalizing line with
  | nil =>
      rw [List.append_nil] at nonempty ⊢
      have open_end : line.getLast? ≠ some slash := fun last =>
        inside (List.mem_of_getLast? last)
      rw [getlines, if_neg nonempty, dropTrailing_of_getLast open_end, components,
        List.splitOn_eq_singleton inside]
  | cons c str ih =>
      by_cases separator : c = slash
      · subst separator
        rw [getlines, if_pos rfl]
        cases str with
        | nil =>
            rw [dropTrailing_append_slash, components, List.splitOn_eq_singleton inside]
            rfl
        | cons d str =>
            have more : d :: str ≠ [] := List.cons_ne_nil d str
            have behind : dropTrailing (line ++ slash :: d :: str)
                = line ++ slash :: dropTrailing (d :: str) := by
              rw [List.append_cons, dropTrailing_append more, ← List.append_cons]
            rw [ih List.not_mem_nil more, behind, components, components, List.nil_append,
              List.splitOn_append_cons_self_of_not_mem inside]
      · rw [getlines, if_neg separator, List.append_cons line c str]
        have nonempty : line ++ [c] ++ str ≠ [] := by simp
        refine ih (fun member => ?_) nonempty
        cases List.mem_append.mp member with
        | inl before => exact inside before
        | inr last => exact separator (List.mem_singleton.mp last).symm

theorem splitString_eq {path : Bytes} (nonempty : path ≠ []) :
    splitString path slash = components (dropTrailing path) :=
  getlines_eq List.not_mem_nil nonempty

theorem escapePath_eq (path : Bytes) :
    escapePath path
      = [slash].intercalate ((components (dropTrailing path)).map escapeFileName) := by
  cases path with
  | nil =>
      have empty : escapeFileName [] = [] := escapeFileName_eq_nil.mpr rfl
      change [slash].intercalate [] = [slash].intercalate [escapeFileName []]
      rw [empty]
      rfl
  | cons c path => rw [escapePath, splitString_eq (List.cons_ne_nil c path)]

theorem slash_not_mem_escape (filename : Bytes) : slash ∉ escapeFileName filename := fun member =>
  absurd (escapeFileName_legal filename slash member) (by decide)

/-- The components of the escaped path are the escaped components. -/
theorem components_escapePath (path : Bytes) :
    components (escapePath path) = (components (dropTrailing path)).map escapeFileName := by
  rw [escapePath_eq]
  refine List.splitOn_intercalate slash (fun piece member => ?_) ?_
  · obtain ⟨filename, _, rfl⟩ := List.mem_map.mp member
    exact slash_not_mem_escape filename
  · rw [ne_eq, List.map_eq_nil_iff]
    exact List.splitOn_ne_nil slash _

theorem escapePath_inj {p q : Bytes} :
    escapePath p = escapePath q ↔ dropTrailing p = dropTrailing q := by
  constructor
  · intro same
    have pieces := congrArg components same
    rw [components_escapePath, components_escapePath] at pieces
    have joined := congrArg ([slash].intercalate ·)
      (List.map_injective_iff.mpr escapeFileName_injective pieces)
    simpa only [components, List.intercalate_splitOn] using joined
  · intro same
    rw [escapePath_eq, escapePath_eq, same]

theorem components_cons (c : UInt8) (path : Bytes) :
    components (c :: path) = if c = slash then [] :: components path
      else (components path).modifyHead (c :: ·) := by
  rw [components, List.splitOn_cons_eq_if_modifyHead]
  simp only [beq_iff_eq, components]

/-- The last component is empty only behind a separator. -/
theorem components_getLast {path : Bytes} (last : (components path).getLast? = some []) :
    path = [] ∨ path.getLast? = some slash := by
  induction path with
  | nil => exact .inl rfl
  | cons c path ih =>
      right
      have some_piece : components path ≠ [] := List.splitOn_ne_nil slash path
      obtain ⟨first, rest, pieces⟩ := List.exists_cons_of_ne_nil some_piece
      rw [components_cons, pieces] at last
      rw [pieces] at ih
      split at last
      · next separator =>
          rw [List.getLast?_cons_cons] at last
          cases ih last with
          | inl empty => rw [empty, separator]; rfl
          | inr behind => rw [List.getLast?_cons, behind]; rfl
      · cases rest with
        | nil => exact absurd (Option.some.inj last) (List.cons_ne_nil c first)
        | cons second rest =>
            rw [List.modifyHead_cons, List.getLast?_cons_cons] at last
            rw [List.getLast?_cons_cons] at ih
            cases ih last with
            | inl empty =>
                rw [empty] at pieces
                exact absurd (List.cons.inj pieces).2.symm (List.cons_ne_nil _ _)
            | inr behind => rw [List.getLast?_cons, behind]; rfl

theorem splitString_of_getLast {path : Bytes} (nonempty : path ≠ [])
    (open_end : path.getLast? ≠ some slash) : splitString path slash = components path := by
  rw [splitString_eq nonempty, dropTrailing_of_getLast open_end]

theorem splitString_escapePath {path : Bytes} (open_end : path.getLast? ≠ some slash) :
    splitString (escapePath path) slash = (splitString path slash).map escapeFileName := by
  by_cases empty : path = []
  · subst empty
    rfl
  have pieces : components (escapePath path) = (components path).map escapeFileName := by
    rw [components_escapePath, dropTrailing_of_getLast open_end]
  have last : (components (escapePath path)).getLast? ≠ some [] := by
    rw [pieces, List.getLast?_map]
    intro blank
    obtain ⟨piece, at_end, nothing⟩ := Option.map_eq_some_iff.mp blank
    rw [escapeFileName_eq_nil.mp nothing] at at_end
    exact (components_getLast at_end).elim empty open_end
  have nonempty : escapePath path ≠ [] := fun nothing => last (by rw [nothing]; rfl)
  have open_escaped : (escapePath path).getLast? ≠ some slash := by
    intro ends
    obtain ⟨front, eq⟩ := List.getLast?_eq_some_iff.mp ends
    apply last
    rw [eq, components, List.splitOn_append_cons_self]
    exact List.getLast?_concat
  rw [splitString_of_getLast nonempty open_escaped, pieces, splitString_of_getLast empty open_end]

/-- `EscapeFileName` is undone by `UnescapeFileName` and leaves only safe names. `EscapePath`
escapes the components in place, so two paths become the same one only if they are the same up to
the separator at their end. -/
theorem escaping_reversible :
    (∀ filename, unescapeFileName (escapeFileName filename) = filename) ∧
    (∀ filename, escapeFileName filename = [] ↔ filename = []) ∧
    (∀ filename, filename ≠ [] → isFileNameSafe (escapeFileName filename) = true) ∧
    Function.Injective escapeFileName ∧
    (∀ p q, escapePath p = escapePath q ↔ dropTrailing p = dropTrailing q) ∧
    (∀ p, components (escapePath p) = (components (dropTrailing p)).map escapeFileName) ∧
    (∀ p : Bytes, p.getLast? ≠ some slash →
      splitString (escapePath p) slash = (splitString p slash).map escapeFileName) :=
  ⟨unescapeFileName_escape, fun _ => escapeFileName_eq_nil, fun _ => isFileNameSafe_escape,
    escapeFileName_injective, fun _ _ => escapePath_inj, components_escapePath,
    fun _ => splitString_escapePath⟩

/-- `"a"` and `"a/"` become the same path. -/
theorem escapePath_not_injective : ¬ Function.Injective escapePath := by
  intro injective
  have same : escapePath [0x61] = escapePath [0x61, 0x2f] := escapePath_inj.mpr (by decide)
  exact absurd (injective same) (by decide)

end Phocoena.NandPaths
