import Phocoena.Common.SettingsHandler
import Mathlib.Data.List.Nodup

/-! # Settings survive their encryption

What the writer puts into the buffer is described by the text it encodes. The reader decodes that
text and, behind it, the bytes of the key itself, in which neither a line feed nor an equals sign
occurs.
-/

namespace Phocoena.SettingsHandler

/-! ## The key -/

/-- The key at a position of the buffer. -/
def keyAt : Nat → UInt32
  | 0 => INITIAL_SEED
  | n + 1 => rotate (keyAt n)

theorem keyAt_period (n : Nat) : keyAt (n + 32) = keyAt n := by
  induction n with
  | zero => decide
  | succ n ih => exact congrArg rotate ih

/-- A property of the key has to be checked for one rotation only. -/
theorem keyAt_forall {p : UInt32 → Prop} (round : ∀ n < 32, p (keyAt n)) (n : Nat) :
    p (keyAt n) := by
  induction n using Nat.strong_induction_on with
  | _ n ih =>
    by_cases small : n < 32
    · exact round n small
    · obtain ⟨m, rfl⟩ := Nat.exists_eq_add_of_le' (Nat.not_lt.mp small)
      rw [keyAt_period]
      exact ih m (by omega)

theorem crypt_eq (b : UInt8) (key : UInt32) : crypt b key = b ^^^ key.toUInt8 := by
  rw [crypt, UInt32.toUInt8_xor, UInt8.toUInt8_toUInt32]

theorem crypt_crypt (b : UInt8) (key : UInt32) : crypt (crypt b key) key = b := by
  rw [crypt_eq, crypt_eq, UInt8.xor_assoc, UInt8.xor_self, UInt8.xor_zero]

theorem crypt_LF (n : Nat) : crypt LF (keyAt n) ≠ 0 := by
  refine keyAt_forall (p := fun key => crypt LF key ≠ 0) ?_ n
  decide

/-- What the reader makes of a byte that was never written. -/
theorem crypt_zero (n : Nat) : crypt 0 (keyAt n) ≠ LF ∧ crypt 0 (keyAt n) ≠ equals := by
  refine keyAt_forall (p := fun key => crypt 0 key ≠ LF ∧ crypt 0 key ≠ equals) ?_ n
  decide

/-! ## Encoding a text -/

@[simp] theorem length_decode (key : UInt32) (text : Bytes) :
    (decode key text).length = text.length := by
  induction text generalizing key with
  | nil => rfl
  | cons b text ih => simp [decode, ih]

theorem decode_decode (key : UInt32) (text : Bytes) : decode key (decode key text) = text := by
  induction text generalizing key with
  | nil => rfl
  | cons b text ih => rw [decode, decode, crypt_crypt, ih]

theorem decode_append (n : Nat) (a b : Bytes) :
    decode (keyAt n) (a ++ b) = decode (keyAt n) a ++ decode (keyAt (n + a.length)) b := by
  induction a generalizing n with
  | nil => rfl
  | cons c a ih =>
      rw [List.cons_append, decode, decode, List.cons_append]
      have behind := ih (n + 1)
      rw [Nat.add_right_comm] at behind
      exact congrArg (crypt c (keyAt n) :: ·) behind

theorem decode_seed (a b : Bytes) :
    decode INITIAL_SEED (a ++ b) = decode INITIAL_SEED a ++ decode (keyAt a.length) b := by
  have split := decode_append 0 a b
  rwa [Nat.zero_add] at split

theorem decode_unwritten (n m : Nat) :
    ∀ c ∈ decode (keyAt n) (List.replicate m 0), c ≠ LF ∧ c ≠ equals := by
  induction m generalizing n with
  | zero => exact fun c member => absurd member List.not_mem_nil
  | succ m ih =>
      intro c member
      rw [List.replicate_succ, decode] at member
      cases List.mem_cons.mp member with
      | inl first => rw [first]; exact crypt_zero n
      | inr rest => exact ih (n + 1) c rest

/-! ## The writer -/

/-- The writer has written the text; `tail` is the rest of the buffer. -/
structure Holds (w : SettingsWriter) (text tail : Bytes) : Prop where
  position : w.position = text.length
  key : w.key = keyAt text.length
  buffer : w.buffer.toList = decode INITIAL_SEED text ++ tail

variable {w : SettingsWriter} {text tail : Bytes}

theorem Holds.room (holds : Holds w text tail) : text.length + tail.length = 0x100 := by
  have lengths := congrArg List.length holds.buffer
  rw [Vector.length_toList, List.length_append, length_decode] at lengths
  exact lengths.symm

theorem Holds.init : Holds .init [] (List.replicate 0x100 0) :=
  ⟨rfl, rfl, by rw [SettingsWriter.init, Vector.toList_replicate]; rfl⟩

theorem Holds.writeByte {c : UInt8} (b : UInt8) (holds : Holds w text (c :: tail)) :
    Holds (w.writeByte b) (text ++ [b]) tail := by
  have size := holds.room
  rw [List.length_cons] at size
  have room : w.position < 0x100 := by
    rw [holds.position]
    omega
  rw [SettingsWriter.writeByte, dif_pos room]
  refine ⟨?_, ?_, ?_⟩
  · rw [List.length_append, ← holds.position]
    rfl
  · rw [List.length_append, holds.key]
    rfl
  · have encoded : decode INITIAL_SEED (text ++ [b])
        = decode INITIAL_SEED text ++ [crypt b (keyAt text.length)] := decode_seed text [b]
    rw [Vector.toList_set, holds.buffer, holds.position, holds.key, encoded, List.append_assoc,
      List.set_append_right _ _ (by rw [length_decode]), length_decode, Nat.sub_self]
    rfl

theorem Holds.writeBytes (str : Bytes) (holds : Holds w text tail) (fits : str.length ≤ tail.length) :
    Holds (w.writeBytes str) (text ++ str) (tail.drop str.length) := by
  induction str generalizing w text tail with
  | nil =>
      rw [List.append_nil]
      exact holds
  | cons b str ih =>
      cases tail with
      | nil => exact absurd fits (Nat.not_succ_le_zero _)
      | cons c tail =>
          have behind := ih (holds.writeByte b) (Nat.le_of_succ_le_succ fits)
          rw [List.append_assoc, List.singleton_append] at behind
          exact behind

theorem Holds.range (holds : Holds w text tail) (front str : Bytes)
    (eq : text = front ++ str) :
    w.range front.length w.position = decode (keyAt front.length) str := by
  have encoded : decode INITIAL_SEED text
      = decode INITIAL_SEED front ++ decode (keyAt front.length) str := by
    rw [eq, decode_seed]
  have stop : w.position = (decode INITIAL_SEED text).length := by
    rw [length_decode, holds.position]
  rw [SettingsWriter.range, holds.buffer, stop, List.take_left, encoded]
  have start := length_decode INITIAL_SEED front
  rw [← start, List.drop_left, start]

/-! ## Laying out the lines -/

/-- The text that a line becomes at a position: as many line feeds in front of it as it needs to
be encoded without a zero byte. -/
inductive Laid (str : Bytes) : Nat → Bytes → Prop where
  | plain {pos : Nat} (nonzero : 0 ∉ decode (keyAt pos) str) : Laid str pos str
  | feed {pos : Nat} {text : Bytes} (zero : 0 ∈ decode (keyAt pos) str)
      (rest : Laid str (pos + 1) text) : Laid str pos (LF :: text)

abbrev Setting := Bytes × Bytes

def line (s : Setting) : Bytes := s.1 ++ [equals] ++ s.2 ++ [CR, LF]

/-- The text of a list of settings from a position on, in a buffer without an end. -/
inductive LaidOut : Nat → List Setting → Bytes → Prop where
  | nil {pos : Nat} : LaidOut pos [] []
  | cons {pos : Nat} {s : Setting} {settings : List Setting} {text more : Bytes}
      (first : Laid (line s) pos text) (rest : LaidOut (pos + text.length) settings more) :
      LaidOut pos (s :: settings) (text ++ more)

/-- The encoded lines fit in the buffer, with the line feeds between them. -/
def Fits (settings : List Setting) : Prop :=
  ∃ text, LaidOut 0 settings text ∧ text.length ≤ 0x100

theorem Laid.nonzero {str text : Bytes} {pos : Nat} (laid : Laid str pos text) :
    0 ∉ decode (keyAt pos) text := by
  induction laid with
  | plain nonzero => exact nonzero
  | @feed pos text zero rest ih =>
      rw [decode]
      intro member
      cases List.mem_cons.mp member with
      | inl first => exact crypt_LF pos first.symm
      | inr behind => exact ih behind

theorem Laid.length_le {str text : Bytes} {pos : Nat} (laid : Laid str pos text) :
    str.length ≤ text.length := by
  induction laid with
  | plain nonzero => exact le_refl _
  | feed zero rest ih => exact Nat.le_succ_of_le ih

theorem LaidOut.nonzero {settings : List Setting} {text : Bytes} {pos : Nat}
    (laid : LaidOut pos settings text) : 0 ∉ decode (keyAt pos) text := by
  induction laid with
  | nil => exact List.not_mem_nil
  | cons first rest ih =>
      rw [decode_append]
      intro member
      cases List.mem_append.mp member with
      | inl inside => exact first.nonzero inside
      | inr behind => exact ih behind

/-- Taking back a line leaves its bytes in the part of the buffer that is not written. -/
theorem Holds.rollback (str : Bytes) (holds : Holds w text tail) (fits : str.length ≤ tail.length) :
    Holds { w.writeBytes str with position := w.position, key := w.key, inside := w.inside } text
      (decode (keyAt text.length) str ++ tail.drop str.length) := by
  refine ⟨holds.position, holds.key, ?_⟩
  have written := (holds.writeBytes str fits).buffer
  rw [← List.append_assoc, ← decode_seed]
  exact written

theorem Holds.writeLine {str out : Bytes} {pos : Nat} (laid : Laid str pos out)
    (holds : Holds w text tail) (here : text.length = pos) (fits : out.length ≤ tail.length) :
    Holds (w.writeLine str) (text ++ out) (tail.drop out.length) := by
  induction laid generalizing w text tail with
  | plain nonzero =>
      have written := holds.writeBytes str fits
      have encoded := written.range text str rfl
      rw [← holds.position] at encoded
      rw [SettingsWriter.writeLine, dif_neg]
      · exact written
      · rw [encoded, holds.position, here]
        exact nonzero
  | @feed pos out zero rest ih =>
      have short := rest.length_le
      rw [List.length_cons] at fits
      have enough : str.length ≤ tail.length := by omega
      have encoded := (holds.writeBytes str enough).range text str rfl
      rw [← holds.position] at encoded
      have back := holds.rollback str enough
      have size := back.room
      obtain ⟨c, left, eq⟩ : ∃ c left,
          decode (keyAt text.length) str ++ tail.drop str.length = c :: left := by
        refine List.exists_cons_of_ne_nil fun empty => ?_
        have total := holds.room
        rw [empty, List.length_nil] at size
        omega
      rw [eq] at back size
      have left_eq : left.drop out.length = tail.drop (out.length + 1) := by
        have dropped := congrArg (List.drop (out.length + 1)) eq
        rw [List.drop_append, length_decode, List.drop_drop,
          List.drop_of_length_le (by rw [length_decode]; omega)] at dropped
        rw [List.nil_append, Nat.add_sub_cancel' (by omega)] at dropped
        exact dropped.symm
      have total := holds.room
      rw [List.length_cons] at size
      have again := ih (back.writeByte LF) (by rw [List.length_append, here]; rfl) (by omega)
      rw [List.append_assoc, List.singleton_append, left_eq] at again
      rw [SettingsWriter.writeLine, dif_pos (by rw [encoded, holds.position, here]; exact zero)]
      exact again

/-- The writer after `AddSetting` for each of the settings. -/
def addSettings (w : SettingsWriter) (settings : List Setting) : SettingsWriter :=
  settings.foldl (fun w s => w.addSetting s.1 s.2) w

theorem Holds.addSettings {settings : List Setting} {out : Bytes} {pos : Nat}
    (laid : LaidOut pos settings out) (holds : Holds w text tail) (here : text.length = pos)
    (fits : out.length ≤ tail.length) :
    Holds (addSettings w settings) (text ++ out) (tail.drop out.length) := by
  induction laid generalizing w text tail with
  | nil =>
      rw [List.append_nil]
      exact holds
  | @cons pos s settings first_text more first rest ih =>
      rw [List.length_append] at fits
      have one := holds.writeLine first here (by omega)
      have all := ih one (by rw [List.length_append, here]) (by rw [List.length_drop]; omega)
      rw [List.append_assoc, List.drop_drop, ← List.length_append] at all
      exact all

/-! ## `WriteLine` returns -/

theorem writeByte_position (w : SettingsWriter) (b : UInt8) :
    (w.writeByte b).position = min 0x100 (w.position + 1) := by
  have inside := w.inside
  rw [SettingsWriter.writeByte]
  split
  · change w.position + 1 = _
    omega
  · omega

theorem writeBytes_position (w : SettingsWriter) (str : Bytes) :
    (w.writeBytes str).position = min 0x100 (w.position + str.length) := by
  induction str generalizing w with
  | nil =>
      have inside := w.inside
      change w.position = min 0x100 w.position
      omega
  | cons b str ih =>
      have rest := ih (w.writeByte b)
      rw [writeByte_position] at rest
      rw [List.length_cons]
      exact rest.trans (by omega)

/-- `WriteLine` writes the line behind no more line feeds than the buffer has room for. -/
theorem writeLine_position (w : SettingsWriter) (str : Bytes) :
    ∃ feeds ≤ 0x100 - w.position,
      (w.writeLine str).position = min 0x100 (w.position + feeds + str.length) := by
  induction w using SettingsWriter.writeLine.induct str with
  | case1 w written zero ih =>
      obtain ⟨feeds, few, eq⟩ := ih
      have room := SettingsWriter.lt_of_zero_written zero
      rw [writeByte_position] at few eq
      refine ⟨feeds + 1, ?_, ?_⟩
      · change feeds ≤ 0x100 - min 0x100 (w.position + 1) at few
        omega
      · rw [SettingsWriter.writeLine, dif_pos zero]
        refine eq.trans ?_
        change min 0x100 (min 0x100 (w.position + 1) + feeds + str.length) = _
        omega
  | case2 w written nonzero =>
      refine ⟨0, Nat.zero_le _, ?_⟩
      rw [SettingsWriter.writeLine, dif_neg nonzero]
      exact writeBytes_position w str

/-! ## The lines of the decoded text -/

/-- A text of lines, with something behind the last of them. -/
def page (lines : List Bytes) (rest : Bytes) : Bytes :=
  lines.flatMap (· ++ [LF]) ++ rest

theorem page_cons (line : Bytes) (lines : List Bytes) (rest : Bytes) :
    page (line :: lines) rest = line ++ LF :: page lines rest := by
  simp [page]

theorem page_append (before after : List Bytes) (rest : Bytes) :
    page (before ++ after) rest = page before (page after rest) := by
  simp [page]

/-- A prefix without a line feed that a text begins with lies in its first line. -/
theorem prefix_line {token line rest : Bytes} (inside : LF ∉ token)
    (begins : token <+: line ++ LF :: rest) : token <+: line := by
  induction line generalizing token with
  | nil =>
      cases token with
      | nil => exact List.nil_prefix
      | cons c token =>
          obtain ⟨rfl, _⟩ := List.cons_prefix_cons.mp begins
          exact absurd List.mem_cons_self inside
  | cons d line ih =>
      cases token with
      | nil => exact List.nil_prefix
      | cons c token =>
          obtain ⟨rfl, behind⟩ := List.cons_prefix_cons.mp begins
          exact List.cons_prefix_cons.mpr
            ⟨rfl, ih (fun member => inside (List.mem_cons_of_mem c member)) behind⟩

theorem firstAt_absent {c : UInt8} {token text : Bytes} (absent : c ∉ text) :
    firstAt (c :: token) text = none := by
  refine firstAt_eq_none.mpr fun m begins => absent ?_
  obtain ⟨rest, eq⟩ := begins
  have member : c ∈ text.drop m := by
    rw [← eq]
    exact List.mem_cons_self
  exact List.mem_of_mem_drop member

/-- A token that begins with a line feed is not found inside a line. -/
theorem firstAt_line {token line : Bytes} (rest : Bytes) (inside : LF ∉ line) :
    firstAt (LF :: token) (line ++ LF :: rest)
      = (firstAt (LF :: token) (LF :: rest)).map (line.length + ·) := by
  induction line with
  | nil => simp
  | cons c line ih =>
      have other : LF ≠ c := List.ne_of_not_mem_cons inside
      rw [List.cons_append, firstAt_cons fun begins => other (List.cons_prefix_cons.mp begins).1,
        ih (List.not_mem_of_not_mem_cons inside), Option.map_map]
      congr 1
      funext n
      simp only [Function.comp_apply, List.length_cons]
      omega

variable {first token rest : Bytes} {lines : List Bytes}

/-- No line behind the first one begins with the token. -/
theorem firstAt_page_none (plain : ∀ l ∈ first :: lines, LF ∉ l) (blank : LF ∉ token)
    (other : ∀ l ∈ lines, ¬ token <+: l) (behind : LF ∉ rest) (last : ¬ token <+: rest) :
    firstAt (LF :: token) (page (first :: lines) rest) = none := by
  induction lines generalizing first with
  | nil =>
      have here : ¬ LF :: token <+: LF :: page [] rest := fun begins =>
        last (List.cons_prefix_cons.mp begins).2
      rw [page_cons, firstAt_line _ (plain first List.mem_cons_self), firstAt_cons here]
      change Option.map _ (Option.map _ (firstAt (LF :: token) rest)) = none
      rw [firstAt_absent behind]
      rfl
  | cons second lines ih =>
      have here : ¬ LF :: token <+: LF :: page (second :: lines) rest := by
        intro begins
        rw [page_cons] at begins
        exact other second List.mem_cons_self
          (prefix_line blank (List.cons_prefix_cons.mp begins).2)
      rw [page_cons, firstAt_line _ (plain first List.mem_cons_self), firstAt_cons here,
        ih (fun l member => plain l (List.mem_cons_of_mem first member))
          (fun l member => other l (List.mem_cons_of_mem second member))]
      rfl

/-- The token is found at the first line behind the first one that begins with it. -/
theorem firstAt_page_some (plain : ∀ l ∈ first :: lines, LF ∉ l) (blank : LF ∉ token)
    (other : ∀ l ∈ lines, ¬ token <+: l) :
    firstAt (LF :: token) (page (first :: lines) (token ++ rest))
      = some ((page (first :: lines) []).length - 1) := by
  induction lines generalizing first with
  | nil =>
      have begins : LF :: token <+: LF :: (token ++ rest) := ⟨rest, rfl⟩
      rw [page_cons, firstAt_line _ (plain first List.mem_cons_self)]
      change Option.map _ (firstAt (LF :: token) (LF :: (token ++ rest))) = _
      rw [firstAt_begins begins]
      simp [page]
  | cons second lines ih =>
      have here : ¬ LF :: token <+: LF :: page (second :: lines) (token ++ rest) := by
        intro begins
        rw [page_cons] at begins
        exact other second List.mem_cons_self
          (prefix_line blank (List.cons_prefix_cons.mp begins).2)
      rw [page_cons, firstAt_line _ (plain first List.mem_cons_self), firstAt_cons here,
        ih (fun l member => plain l (List.mem_cons_of_mem first member))
          (fun l member => other l (List.mem_cons_of_mem second member)), page_cons first]
      simp only [Option.map_some, List.length_append, List.length_cons, page_cons second]
      congr 1

theorem page_eq (lines : List Bytes) (rest : Bytes) : page lines rest = page lines [] ++ rest := by
  simp [page]

theorem page_ends (first : Bytes) (lines : List Bytes) :
    ∃ front, page (first :: lines) [] = front ++ [LF] := by
  induction lines generalizing first with
  | nil => exact ⟨first, by simp [page]⟩
  | cons second lines ih =>
      obtain ⟨front, eq⟩ := ih second
      exact ⟨first ++ LF :: front, by rw [page_cons, eq]; simp⟩

/-! ## Looking up a key -/

theorem find_start (text token : Bytes) : find text token 0 = firstAt token text := by
  rw [find, if_pos (Nat.zero_le _), List.drop_zero]
  simp

/-- The value ends at the line feed behind it. -/
theorem valueAt_eq {decoded toFind front value : Bytes}
    (eq : decoded = front ++ toFind ++ (value ++ LF :: rest)) (inside : LF ∉ value)
    (small : decoded.length < 0x10000000000000000) :
    valueAt decoded toFind front.length = value := by
  have stops : firstAt [LF] (value ++ LF :: rest) = some value.length := by
    have begins : [LF] <+: LF :: rest := ⟨rest, rfl⟩
    rw [firstAt_line rest inside, firstAt_begins begins]
    rfl
  have delimiter : find decoded [LF] (front.length + toFind.length)
      = some (front.length + toFind.length + value.length) := by
    rw [eq, ← List.length_append, find_append, stops]
    rfl
  have short : value.length ≤ decoded.length := by
    rw [eq]
    simp only [List.length_append]
    omega
  have count : (front.length + toFind.length + value.length + 0x10000000000000000
      - (front.length + toFind.length)) % 0x10000000000000000 = value.length := by
    omega
  rw [valueAt, delimiter, Option.getD_some, substr, count, eq, ← List.length_append,
    List.drop_left, List.take_left]

variable {key value : Bytes} {before after : List Bytes}

theorem getValue_some {r : SettingsReader} {found : Nat}
    (line : firstAt (LF :: (key ++ [equals])) r.decoded = some found) :
    r.getValue key = valueAt r.decoded (LF :: (key ++ [equals])) found := by
  rw [SettingsReader.getValue]
  simp only [List.cons_append, List.nil_append, find_start, line]

theorem getValue_none {r : SettingsReader}
    (no_line : firstAt (LF :: (key ++ [equals])) r.decoded = none) :
    r.getValue key = if firstAt (key ++ [equals]) r.decoded = some 0 then
      valueAt r.decoded (key ++ [equals]) 0 else [] := by
  rw [SettingsReader.getValue]
  simp only [List.cons_append, List.nil_append, find_start, no_line]

theorem getValue_found {r : SettingsReader}
    (eq : r.decoded = page (before ++ (key ++ [equals] ++ value) :: after) rest)
    (plain : ∀ l ∈ before ++ (key ++ [equals] ++ value) :: after, LF ∉ l)
    (other : ∀ l ∈ before ++ after, ¬ key ++ [equals] <+: l)
    (behind : LF ∉ rest) (last : equals ∉ rest)
    (small : r.decoded.length < 0x10000000000000000) : r.getValue key = value := by
  have own := plain (key ++ [equals] ++ value) (by simp)
  have blank : LF ∉ key ++ [equals] := fun member => own (List.mem_append_left _ member)
  have inside : LF ∉ value := fun member => own (List.mem_append_right _ member)
  cases before with
  | nil =>
      rw [List.nil_append, page_cons] at eq
      have first_only : firstAt (LF :: (key ++ [equals])) r.decoded = none := by
        rw [eq, ← page_cons]
        exact firstAt_page_none plain blank other behind fun begins =>
          last (begins.subset (by simp))
      have begins : key ++ [equals] <+: r.decoded := by
        rw [eq, List.append_assoc]
        exact List.prefix_append _ _
      have split : r.decoded = [] ++ (key ++ [equals]) ++ (value ++ LF :: page after rest) := by
        rw [eq, List.nil_append, List.append_assoc]
      rw [getValue_none first_only, if_pos (firstAt_begins begins)]
      exact @valueAt_eq (page after rest) _ _ [] _ split inside small
  | cons first lines =>
      obtain ⟨front, ends⟩ := page_ends first lines
      have split : r.decoded = page (first :: lines)
          (key ++ [equals] ++ (value ++ LF :: page after rest)) := by
        rw [eq, page_append, page_cons (key ++ [equals] ++ value), List.append_assoc]
      have found : firstAt (LF :: (key ++ [equals])) r.decoded = some front.length := by
        rw [split, firstAt_page_some
          (fun l member => plain l (List.mem_append_left _ member)) blank
          (fun l member => other l (List.mem_append_left _ (List.mem_cons_of_mem _ member))), ends]
        simp
      rw [getValue_some found]
      refine @valueAt_eq (page after rest) _ _ _ _ ?_ inside small
      rw [split, page_eq, ends]
      simp

theorem getValue_missing {r : SettingsReader} (eq : r.decoded = page lines rest)
    (plain : ∀ l ∈ lines, LF ∉ l) (blank : LF ∉ key)
    (other : ∀ l ∈ lines, ¬ key ++ [equals] <+: l)
    (behind : LF ∉ rest) (last : equals ∉ rest) : r.getValue key = [] := by
  have token_blank : LF ∉ key ++ [equals] := by
    intro member
    cases List.mem_append.mp member with
    | inl inside => exact blank inside
    | inr sign => exact absurd (List.mem_singleton.mp sign) (by decide)
  have no_rest : ¬ key ++ [equals] <+: rest := fun begins => last (begins.subset (by simp))
  have no_line : firstAt (LF :: (key ++ [equals])) r.decoded = none := by
    rw [eq]
    cases lines with
    | nil => exact firstAt_absent behind
    | cons first lines =>
        exact firstAt_page_none plain token_blank
          (fun l member => other l (List.mem_cons_of_mem first member)) behind no_rest
  have no_start : firstAt (key ++ [equals]) r.decoded ≠ some 0 := by
    intro found
    have begins := (firstAt_spec found).1
    rw [List.drop_zero, eq] at begins
    cases lines with
    | nil => exact no_rest begins
    | cons first lines =>
        rw [page_cons] at begins
        exact other first List.mem_cons_self (prefix_line token_blank begins)
  rw [getValue_none no_line, if_neg no_start]

/-! ## The settings on the page -/

/-- What `AddSetting` accepts without mixing up the lines. -/
structure Plain (s : Setting) : Prop where
  key_CR : CR ∉ s.1
  key_LF : LF ∉ s.1
  key_equals : equals ∉ s.1
  value_CR : CR ∉ s.2
  value_LF : LF ∉ s.2

def content (s : Setting) : Bytes := s.1 ++ [equals] ++ s.2

theorem Plain.content_LF {s : Setting} (plain : Plain s) : LF ∉ content s := by
  have sign : LF ≠ equals := by decide
  simp [content, plain.key_LF, plain.value_LF, sign]

theorem filter_CR_of_not_mem {text : Bytes} (absent : CR ∉ text) :
    text.filter (· ≠ CR) = text :=
  List.filter_eq_self.mpr fun _ member =>
    decide_eq_true fun same => absent (same ▸ member)

theorem filter_line {s : Setting} (plain : Plain s) :
    (line s).filter (· ≠ CR) = content s ++ [LF] := by
  have sign : equals ≠ CR := by decide
  have feed : LF ≠ CR := by decide
  rw [line, List.filter_append, List.filter_append, List.filter_append,
    filter_CR_of_not_mem plain.key_CR, filter_CR_of_not_mem plain.value_CR]
  simp [content, sign, feed]

theorem Laid.on_page {s : Setting} {text : Bytes} {pos : Nat} (laid : Laid (line s) pos text)
    (plain : Plain s) : ∃ feeds, text.filter (· ≠ CR)
      = page (List.replicate feeds [] ++ [content s]) [] := by
  induction laid with
  | plain nonzero => exact ⟨0, by rw [filter_line plain]; simp [page]⟩
  | feed zero rest ih =>
      obtain ⟨feeds, eq⟩ := ih
      have feed : LF ≠ CR := by decide
      refine ⟨feeds + 1, ?_⟩
      rw [List.filter_cons_of_pos (p := fun c => decide (c ≠ CR)) (decide_eq_true feed), eq,
        List.replicate_succ, List.cons_append, page_cons]
      rfl

theorem LaidOut.on_page {settings : List Setting} {text : Bytes} {pos : Nat}
    (laid : LaidOut pos settings text) (plain : ∀ s ∈ settings, Plain s) :
    ∃ lines, text.filter (· ≠ CR) = page lines [] ∧
      lines.filter (· ≠ []) = settings.map content := by
  induction laid with
  | nil => exact ⟨[], rfl, rfl⟩
  | @cons pos s settings text more first rest ih =>
      obtain ⟨lines, eq, kept⟩ := ih fun s member => plain s (List.mem_cons_of_mem _ member)
      obtain ⟨feeds, first_eq⟩ := first.on_page (plain s List.mem_cons_self)
      refine ⟨List.replicate feeds [] ++ [content s] ++ lines, ?_, ?_⟩
      · rw [List.filter_append, eq, first_eq,
          page_append (List.replicate feeds [] ++ [content s]) lines]
        exact (page_eq _ _).symm
      · have nonempty : content s ≠ [] := by simp [content]
        rw [List.filter_append, List.filter_append, kept]
        simp [nonempty]

/-- A line begins with a key and the sign only if it is the line of that key. -/
theorem key_of_begins {key : Bytes} {s : Setting} (inside : equals ∉ key) (plain : Plain s)
    (begins : key ++ [equals] <+: content s) : key = s.1 := by
  obtain ⟨own, value⟩ := s
  have sign := plain.key_equals
  rw [content] at begins
  clear plain
  induction key generalizing own with
  | nil =>
      cases own with
      | nil => rfl
      | cons c own =>
          exact absurd (List.cons_prefix_cons.mp begins).1 (List.ne_of_not_mem_cons sign)
  | cons c key ih =>
      cases own with
      | nil =>
          exact absurd (List.cons_prefix_cons.mp begins).1.symm (List.ne_of_not_mem_cons inside)
      | cons d own =>
          obtain ⟨rfl, behind⟩ := List.cons_prefix_cons.mp begins
          exact congrArg (c :: ·) (ih (List.not_mem_of_not_mem_cons inside) own behind
            (List.not_mem_of_not_mem_cons sign))

/-- What the reader decodes: the lines of the settings, and a rest from the unwritten bytes. -/
theorem decoded_page {settings : List Setting} (plain : ∀ s ∈ settings, Plain s)
    (fits : Fits settings) : ∃ lines rest,
      (SettingsReader.init (addSettings .init settings).buffer).decoded = page lines rest ∧
      lines.filter (· ≠ []) = settings.map content ∧ LF ∉ rest ∧ equals ∉ rest := by
  obtain ⟨text, laid, small⟩ := fits
  have holds := Holds.init.addSettings laid rfl (by rw [List.length_replicate]; exact small)
  obtain ⟨lines, eq, kept⟩ := laid.on_page plain
  rw [List.nil_append, List.drop_replicate] at holds
  have unwritten := decode_unwritten text.length (0x100 - text.length)
  refine ⟨lines, (decode (keyAt text.length)
    (List.replicate (0x100 - text.length) 0)).filter (· ≠ CR), ?_, kept, ?_, ?_⟩
  · rw [SettingsReader.init, holds.buffer]
    have encoded := decode_seed (decode INITIAL_SEED text)
      (List.replicate (0x100 - text.length) 0)
    rw [length_decode, decode_decode] at encoded
    rw [encoded, List.filter_append, eq, ← page_eq]
  · exact fun member => (unwritten LF (List.mem_of_mem_filter member)).1 rfl
  · exact fun member => (unwritten equals (List.mem_of_mem_filter member)).2 rfl

theorem length_decoded (buffer : SettingsBuffer) :
    (SettingsReader.init buffer).decoded.length < 0x10000000000000000 := by
  have short := List.length_filter_le (· ≠ CR) (decode INITIAL_SEED buffer.toList)
  rw [length_decode, Vector.length_toList] at short
  exact lt_of_le_of_lt short (by decide)

/-- A line of the page is blank or the line of a setting. -/
theorem line_cases {settings : List Setting} (kept : lines.filter (· ≠ []) = settings.map content)
    {l : Bytes} (member : l ∈ lines) : l = [] ∨ ∃ s ∈ settings, content s = l := by
  by_cases blank : l = []
  · exact .inl blank
  · have inside : l ∈ lines.filter (· ≠ []) :=
      List.mem_filter.mpr ⟨member, decide_eq_true blank⟩
    rw [kept] at inside
    exact .inr (List.mem_map.mp inside)

theorem no_prefix_nil {key : Bytes} : ¬ key ++ [equals] <+: [] := by
  intro begins
  exact absurd (List.prefix_nil.mp begins) (by simp)

theorem written_nonzero {settings : List Setting} (fits : Fits settings) :
    0 ∉ (addSettings .init settings).range 0 (addSettings .init settings).position := by
  obtain ⟨text, laid, small⟩ := fits
  have holds := Holds.init.addSettings laid rfl (by rw [List.length_replicate]; exact small)
  rw [List.nil_append] at holds
  have encoded := holds.range [] text rfl
  rw [List.length_nil] at encoded
  rw [encoded]
  exact laid.nonzero

theorem getValue_setting {settings : List Setting} (distinct : (settings.map Prod.fst).Nodup)
    (plain : ∀ s ∈ settings, Plain s) (fits : Fits settings) {s : Setting}
    (member : s ∈ settings) :
    (SettingsReader.init (addSettings .init settings).buffer).getValue s.1 = s.2 := by
  obtain ⟨lines, rest, eq, kept, behind, last⟩ := decoded_page plain fits
  have present : content s ∈ lines.filter (· ≠ []) := by
    rw [kept]
    exact List.mem_map_of_mem member
  obtain ⟨before, after, split⟩ := List.append_of_mem (List.mem_of_mem_filter present)
  subst split
  refine getValue_found eq (fun l at_l => ?_) (fun l at_l begins => ?_) behind last
    (length_decoded _)
  · cases line_cases kept at_l with
    | inl blank => rw [blank]; exact List.not_mem_nil
    | inr own =>
        obtain ⟨t, inside, rfl⟩ := own
        exact (plain t inside).content_LF
  · -- the settings around the line have other keys
    have nonempty : content s ≠ [] := by simp [content]
    rw [List.filter_append, List.filter_cons_of_pos (p := fun l => decide (l ≠ []))
      (decide_eq_true nonempty)] at kept
    obtain ⟨front, back, rfl, front_eq, back_eq⟩ := List.map_eq_append_iff.mp kept.symm
    obtain ⟨t, back, rfl, same, back_eq⟩ := List.map_eq_cons_iff.mp back_eq
    have t_inside : t ∈ front ++ t :: back := by simp
    have sign := (plain s member).key_equals
    have t_key : s.1 = t.1 := by
      refine key_of_begins sign (plain t t_inside) ?_
      rw [same]
      exact List.prefix_append _ _
    have around : ∃ u ∈ front ++ back, content u = l := by
      have filled : l ≠ [] := fun blank => no_prefix_nil (blank ▸ begins)
      have keep : decide (l ≠ []) = true := decide_eq_true filled
      cases List.mem_append.mp at_l with
      | inl inside =>
          have kept_l : l ∈ front.map content := by
            rw [front_eq]
            exact List.mem_filter.mpr ⟨inside, keep⟩
          obtain ⟨u, at_u, eq⟩ := List.mem_map.mp kept_l
          exact ⟨u, List.mem_append_left _ at_u, eq⟩
      | inr inside =>
          have kept_l : l ∈ back.map content := by
            rw [back_eq]
            exact List.mem_filter.mpr ⟨inside, keep⟩
          obtain ⟨u, at_u, eq⟩ := List.mem_map.mp kept_l
          exact ⟨u, List.mem_append_right _ at_u, eq⟩
    obtain ⟨u, at_u, rfl⟩ := around
    have u_inside : u ∈ front ++ t :: back := by
      cases List.mem_append.mp at_u with
      | inl inside => exact List.mem_append_left _ inside
      | inr inside => exact List.mem_append_right _ (List.mem_cons_of_mem t inside)
    have u_key : s.1 = u.1 := key_of_begins sign (plain u u_inside) begins
    rw [List.map_append, List.map_cons, List.nodup_middle, List.nodup_cons, ← List.map_append]
      at distinct
    refine distinct.1 ?_
    rw [← t_key, u_key]
    exact List.mem_map_of_mem at_u

theorem getValue_other {settings : List Setting} (plain : ∀ s ∈ settings, Plain s)
    (fits : Fits settings) {key : Bytes} (other : key ∉ settings.map Prod.fst)
    (sign : equals ∉ key) (blank : LF ∉ key) :
    (SettingsReader.init (addSettings .init settings).buffer).getValue key = [] := by
  obtain ⟨lines, rest, eq, kept, behind, last⟩ := decoded_page plain fits
  refine getValue_missing eq (fun l at_l => ?_) blank (fun l at_l begins => ?_) behind last
  · cases line_cases kept at_l with
    | inl nothing => rw [nothing]; exact List.not_mem_nil
    | inr own =>
        obtain ⟨t, inside, rfl⟩ := own
        exact (plain t inside).content_LF
  · cases line_cases kept at_l with
    | inl nothing => exact no_prefix_nil (nothing ▸ begins)
    | inr own =>
        obtain ⟨t, inside, rfl⟩ := own
        refine other ?_
        rw [key_of_begins sign (plain t inside) begins]
        exact List.mem_map_of_mem inside

/-- Settings that fit in the buffer are written without a zero byte and read back, and
`WriteLine` returns for every line, also when the buffer is full. -/
theorem settings_survive (settings : List Setting) (distinct : (settings.map Prod.fst).Nodup)
    (plain : ∀ s ∈ settings, Plain s) (fits : Fits settings) :
    0 ∉ (addSettings .init settings).range 0 (addSettings .init settings).position ∧
    (∀ s ∈ settings,
      (SettingsReader.init (addSettings .init settings).buffer).getValue s.1 = s.2) ∧
    (∀ key, key ∉ settings.map Prod.fst → equals ∉ key → LF ∉ key →
      (SettingsReader.init (addSettings .init settings).buffer).getValue key = []) ∧
    ∀ (w : SettingsWriter) (str : Bytes), ∃ feeds ≤ 0x100 - w.position,
      (w.writeLine str).position = min 0x100 (w.position + feeds + str.length) :=
  ⟨written_nonzero fits, fun _ member => getValue_setting distinct plain fits member,
    fun _ other sign blank => getValue_other plain fits other sign blank, writeLine_position⟩

/-- `"a"` with the value `"b=c"`. -/
def chained : Setting := ([0x61], [0x62, 0x3d, 0x63])

theorem chained_plain : ∀ s ∈ [chained], Plain s := by
  intro s member
  obtain rfl := List.mem_singleton.mp member
  exact ⟨by decide, by decide, by decide, by decide, by decide⟩

theorem chained_fits : Fits [chained] :=
  ⟨line chained ++ [], .cons (.plain (by decide)) .nil, by decide⟩

theorem settings_survive_chained :
    (SettingsReader.init (addSettings .init [chained]).buffer).getValue [0x61]
      = [0x62, 0x3d, 0x63] :=
  (settings_survive [chained] (by decide) chained_plain chained_fits).2.1 chained
    List.mem_cons_self

/-- The key `"a=b"`, which was not added, has the value `"c"`. -/
theorem getValue_chained : ¬ ∀ settings : List Setting, (settings.map Prod.fst).Nodup →
    (∀ s ∈ settings, Plain s) → Fits settings → ∀ key, key ∉ settings.map Prod.fst →
      (SettingsReader.init (addSettings .init settings).buffer).getValue key = [] := by
  intro claim
  have empty := claim [chained] (by decide) chained_plain chained_fits [0x61, 0x3d, 0x62]
    (by decide)
  obtain ⟨lines, rest, eq, kept, behind, last⟩ := decoded_page chained_plain chained_fits
  have present : content chained ∈ lines.filter (· ≠ []) := by
    rw [kept]
    exact List.mem_cons_self
  obtain ⟨before, after, rfl⟩ := List.append_of_mem (List.mem_of_mem_filter present)
  have keep : decide (content chained ≠ []) = true := by decide
  rw [List.filter_append, List.filter_cons_of_pos (p := fun l => decide (l ≠ [])) keep] at kept
  obtain ⟨front_nil, back⟩ | ⟨_, _, tail_nil⟩ := List.append_eq_cons_iff.mp kept
  swap
  · exact absurd (List.append_eq_nil_iff.mp tail_nil.symm).2 (List.cons_ne_nil _ _)
  have back_nil := (List.cons.inj back).2
  have blank : ∀ l ∈ before ++ after, l = [] := by
    intro l at_l
    by_contra filled
    cases List.mem_append.mp at_l with
    | inl inside =>
        exact List.filter_eq_nil_iff.mp front_nil l inside (decide_eq_true filled)
    | inr inside =>
        exact List.filter_eq_nil_iff.mp back_nil l inside (decide_eq_true filled)
  have found : (SettingsReader.init (addSettings .init [chained]).buffer).getValue
      [0x61, 0x3d, 0x62] = [0x63] := by
    refine getValue_found eq (fun l at_l => ?_)
      (fun l at_l begins => no_prefix_nil (blank l at_l ▸ begins)) behind last (length_decoded _)
    cases List.mem_append.mp at_l with
    | inl inside => rw [blank l (List.mem_append_left _ inside)]; exact List.not_mem_nil
    | inr inside =>
        cases List.mem_cons.mp inside with
        | inl own => rw [own]; decide
        | inr behind => rw [blank l (List.mem_append_right _ behind)]; exact List.not_mem_nil
  rw [found] at empty
  exact absurd empty (List.cons_ne_nil _ _)

end Phocoena.SettingsHandler
