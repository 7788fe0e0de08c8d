import Phocoena.Lib.TextSearch

/-! # The text of a session's summary

How `summary.json` is written and how it is changed afterwards, as text. The numbers with a point,
their parsing and their printing are those of the standard library, and parameters.
-/

namespace Phocoena.SupportDiagnostics

abbrev Text := List Char

def quote : Char := Char.ofNat 0x22

def backslash : Char := Char.ofNat 0x5c

def newline : Char := Char.ofNat 0x0a

def carriageReturn : Char := Char.ofNat 0x0d

def tab : Char := Char.ofNat 0x09

def openBrace : Char := Char.ofNat 0x7b

def closeBrace : Char := Char.ofNat 0x7d

def Sanitize (value : Text) : Text :=
  let value := value.map fun c =>
    if c.isAlphanum ∨ c = '-' ∨ c = '_' ∨ c = '.' then c else '_'
  (if value = [] then "unknown".toList else value).take 64

/-- `JsonEscape` on one character. -/
def escape (c : Char) : Text :=
  if c = backslash then [backslash, backslash]
  else if c = quote then [backslash, quote]
  else if c = newline then [backslash, 'n']
  else if c = carriageReturn then [backslash, 'r']
  else if c = tab then [backslash, 't']
  else if c.toNat < 0x20 then
    [backslash, 'u', '0', '0', Nat.digitChar (c.toNat / 16), Nat.digitChar (c.toNat % 16)]
  else [c]

def JsonEscape (value : Text) : Text := value.flatMap escape

/-- An integer as a stream prints it. -/
def printInt (n : Int) : Text :=
  if n < 0 then '-' :: Nat.toDigits 10 n.natAbs else Nat.toDigits 10 n.natAbs

/-- A value of the summary. -/
inductive Value where
  | text (value : Text)
  | integer (value : Int)

def Value.print : Value → Text
  | .text value => quote :: JsonEscape value ++ [quote]
  | .integer value => printInt value

/-- A field on a line of its own. -/
def field (key : String) (value : Text) : Text :=
  newline :: ' ' :: ' ' :: quote :: key.toList ++ quote :: ':' :: ' ' :: value

/-! ## `SummaryJson` -/

/-- What the build defines. -/
structure BuildInfo where
  phocoena_version : Text
  phocoena_commit : Text
  phocoena_source_state : Text
  upstream_commit : Text
  build_date : Text
  source_lock_sha256 : Text
  deriving DecidableEq

/-- What is known of the game and its settings at the start. -/
structure SupportSessionMetadata where
  game_id : Text
  game_name : Text
  internal_name : Text
  region : Text
  revision : Int
  disc_number : Int
  image_format : Text
  source_extension : Text
  renderer : Text
  cpu_mode : Text
  shader_mode : Text
  fifo_blocks : Nat
  requested_cpu_hz : Nat
  requested_gpu_hz : Nat
  deriving DecidableEq

def CHECKPOINT_INTERVAL_MS : Int := 30000

/-- The fields that stay the same for a session. -/
def headFields (build : BuildInfo) (id : Text) (m : SupportSessionMetadata) :
    List (String × Value) :=
  [("session_id", .text id), ("diagnostics_schema", .integer 2),
    ("checkpoint_interval_ms", .integer CHECKPOINT_INTERVAL_MS),
    ("phocoena_version", .text build.phocoena_version),
    ("phocoena_commit", .text build.phocoena_commit),
    ("phocoena_source_state", .text build.phocoena_source_state),
    ("upstream_commit", .text build.upstream_commit), ("build_date", .text build.build_date),
    ("source_lock_sha256", .text build.source_lock_sha256), ("game_id", .text m.game_id),
    ("game_name", .text m.game_name), ("internal_name", .text m.internal_name),
    ("region", .text m.region), ("revision", .integer m.revision),
    ("disc_number", .integer m.disc_number), ("image_format", .text m.image_format),
    ("source_extension", .text m.source_extension), ("renderer", .text m.renderer),
    ("cpu_mode", .text m.cpu_mode), ("shader_mode", .text m.shader_mode),
    ("fifo_blocks", .integer m.fifo_blocks), ("requested_cpu_hz", .integer m.requested_cpu_hz),
    ("requested_gpu_hz", .integer m.requested_gpu_hz)]

def head (build : BuildInfo) (id : Text) (m : SupportSessionMetadata) : Text :=
  openBrace :: (headFields build id m).flatMap fun f => field f.1 f.2.print ++ [',']

/-- `rest` is the text of the fields after `requested_gpu_hz`: the clocks, the progress and the
status. -/
def SummaryJson (build : BuildInfo) (id : Text) (m : SupportSessionMetadata) (rest : Text) : Text :=
  head build id m ++ rest

/-! ## Changes to a text -/

def token (key : String) : Text := quote :: key.toList ++ [quote, ':']

def isBlank (c : Char) : Bool := c = ' ' ∨ c = tab

/-- A character that ends a number. -/
def endsNumber (c : Char) : Bool := c = ',' ∨ c = closeBrace ∨ c = carriageReturn ∨ c = newline

/-- The text of the number at the key. -/
def numberAt (text : Text) (key : String) : Option Text :=
  match cutFirst (token key) text with
  | none => none
  | some (_, after) =>
      match after.dropWhile isBlank with
      | [] => none
      | c :: rest => some ((c :: rest).takeWhile (! endsNumber ·))

/-- `ReplaceJsonNumber` with the number as it is printed. -/
def ReplaceJsonNumber (text : Text) (key : String) (number : Text) : Text :=
  match cutFirst (token key) text with
  | none => text
  | some (before, after) =>
      match after.dropWhile isBlank with
      | [] => text
      | c :: rest => before ++ token key ++ after.takeWhile isBlank ++ number ++
          (c :: rest).dropWhile (! endsNumber ·)

/-- The text from the quote that ends a string. -/
def endOfString : Bool → Text → Option Text
  | _, [] => none
  | escaped, c :: text =>
      if c = quote ∧ ! escaped then some (c :: text)
      else endOfString (if c = backslash then ! escaped else false) text

def ReplaceJsonString (text : Text) (key : String) (value : Text) : Text :=
  match cutFirst (token key) text with
  | none => text
  | some (before, after) =>
      match after.dropWhile (· ≠ quote) with
      | [] => text
      | _ :: content =>
          match endOfString false content with
          | none => text
          | some rest => before ++ token key ++ after.takeWhile (· ≠ quote) ++
              quote :: JsonEscape value ++ rest

/-- The numbers with a point, as the standard library has them. -/
structure Numbers (Double : Type) where
  stod : Text → Option Double
  /-- printed as an integer or not -/
  print : Bool → Double → Text
  /-- `guest * 100.0 / wall`, when `wall` is positive -/
  percent : Double → Double → Option Double

section
variable {Double : Type} (numbers : Numbers Double)

def ReadJsonNumber (text : Text) (key : String) : Option Double :=
  (numberAt text key).bind numbers.stod

/-- The numbers that the checkpoint has, and whether they are integers. -/
def copiedNumbers : List (String × Bool) :=
  [("wall_ms", true), ("guest_ms", false), ("presented_frames", true), ("last_core_state", true),
    ("telemetry_samples", true), ("structured_samples", true), ("gmsp_avg", false),
    ("gmsp_min", false), ("gmsp_max", false), ("gmsp_last", false), ("fps_avg", false),
    ("fps_min", false), ("fps_max", false), ("fps_last", false), ("cpu_busy_percent_avg", false),
    ("cpu_busy_percent_max", false), ("gpu_busy_percent_avg", false),
    ("gpu_busy_percent_max", false), ("frame_mean_ms_avg", false),
    ("vulkan_worker_busy_percent_avg", false), ("vulkan_worker_busy_percent_max", false),
    ("shader_compile_calls", true), ("shader_compile_ms", false), ("pipeline_create_calls", true),
    ("pipeline_create_ms", false), ("jit_compile_calls", true), ("jit_compile_ms", false),
    ("vertex_loader_jit_calls", true), ("vertex_loader_jit_ms", false), ("disc_read_calls", true),
    ("disc_read_ms", false), ("disc_wait_calls", true), ("disc_wait_ms", false),
    ("gpu_wait_calls", true), ("gpu_wait_ms", false), ("fifo_sync_calls", true),
    ("fifo_sync_ms", false), ("vk_fence_wait_calls", true), ("vk_fence_wait_ms", false),
    ("vk_present_guard_calls", true), ("vk_present_guard_ms", false),
    ("vk_frame_reuse_calls", true), ("vk_frame_reuse_ms", false), ("log_write_calls", true),
    ("log_write_ms", false), ("fifo_decoder_calls", true), ("fifo_gather_blocks", true),
    ("guest_gpu_wait_timeouts", true), ("guest_pi_fifo_resets", true),
    ("guest_pi_reset_codes", true), ("last_guest_pi_reset_code", true),
    ("frame_p95_ms_max", false), ("frame_p99_ms_max", false), ("one_percent_low_fps_min", false),
    ("audio_release_events", true), ("audio_requeues", true), ("audio_wait_failures", true),
    ("audio_append_failures", true), ("gmsp_below_90_samples", true),
    ("gmsp_below_75_samples", true), ("gmsp_below_50_samples", true)]

def copy_number (checkpoint : Text) (summary : Text) (copied : String × Bool) : Text :=
  match ReadJsonNumber numbers checkpoint copied.1 with
  | none => summary
  | some value => ReplaceJsonNumber summary copied.1 (numbers.print copied.2 value)

/-- The speed over the time of the checkpoint. -/
def replaceSpeed (checkpoint summary : Text) : Text :=
  match ReadJsonNumber numbers checkpoint "wall_ms",
    ReadJsonNumber numbers checkpoint "guest_ms" with
  | some wall, some guest =>
      match numbers.percent guest wall with
      | some percent =>
          ReplaceJsonNumber summary "guest_speed_percent_approx" (numbers.print false percent)
      | none => summary
  | _, _ => summary

def close : Text := [newline, closeBrace, newline]

def recovery (crash_evidence : Bool) : Text :=
  ',' :: field "recovered_on_next_launch" "true".toList ++
  ',' :: field "crash_log_evidence" (if crash_evidence then "true".toList else "false".toList) ++
  ',' :: field "recovery_note" (quote :: ("Session was reconstructed from the last ~30 s " ++
    "checkpoint and preserved previous-run logs. Final seconds may be absent only when the " ++
    "process could not finalize.").toList ++ [quote])

def RecoverSummary (summary checkpoint exit_reason exit_input : Text) (crash_evidence : Bool) :
    Text :=
  let summary := ReplaceJsonString summary "status" "abnormal_exit".toList
  let summary := ReplaceJsonString summary "exit_reason" exit_reason
  let summary := ReplaceJsonString summary "exit_input" exit_input
  let summary := copiedNumbers.foldl (copy_number numbers checkpoint) summary
  let summary := replaceSpeed numbers checkpoint summary
  match cutLast close summary with
  | none => summary
  | some (before, after) => before ++ recovery crash_evidence ++ close ++ after

end

/-! ## What is kept of a summary -/

/-- A key that is replaced, by its characters. -/
def IsName (key : Text) : Prop :=
  key ≠ [] ∧ ∀ c ∈ key, c ≠ quote ∧ c ≠ backslash ∧ c ≠ ',' ∧ c ≠ ':'

instance (key : Text) : Decidable (IsName key) := inferInstanceAs (Decidable (_ ∧ _))

theorem digitChar_ne {n : Nat} (small : n < 16) :
    Nat.digitChar n ≠ quote ∧ Nat.digitChar n ≠ newline := by
  have all : ∀ m < 16, Nat.digitChar m ≠ quote ∧ Nat.digitChar m ≠ newline := by decide
  exact all n small

/-- A character is escaped by a backslash, or it stands for itself. -/
theorem escape_cases (c : Char) :
    (escape c = [c] ∧ c ≠ quote ∧ c ≠ backslash ∧ c ≠ newline) ∨ escape c = [backslash, quote] ∨
      ∃ rest, escape c = backslash :: rest ∧ ∀ d ∈ rest, d ≠ quote ∧ d ≠ newline := by
  rw [escape]
  by_cases slash : c = backslash
  · rw [if_pos slash]
    exact .inr (.inr ⟨_, rfl, by decide⟩)
  · rw [if_neg slash]
    by_cases quotes : c = quote
    · rw [if_pos quotes]
      exact .inr (.inl rfl)
    · rw [if_neg quotes]
      by_cases line : c = newline
      · rw [if_pos line]
        exact .inr (.inr ⟨_, rfl, by decide⟩)
      · rw [if_neg line]
        split_ifs with carriage tabs control
        · exact .inr (.inr ⟨_, rfl, by decide⟩)
        · exact .inr (.inr ⟨_, rfl, by decide⟩)
        · have high := @digitChar_ne (c.toNat / 16) (by omega)
          have low := @digitChar_ne (c.toNat % 16) (by omega)
          refine .inr (.inr ⟨_, rfl, ?_⟩)
          simp only [List.mem_cons, List.not_mem_nil, or_false, forall_eq_or_imp, forall_eq]
          exact ⟨by decide, by decide, by decide, high, low⟩
        · exact .inl ⟨rfl, quotes, slash, line⟩

theorem not_newline_of_mem_escape {c d : Char} (member : d ∈ escape c) : d ≠ newline := by
  obtain ⟨eq, _, _, line⟩ | eq | ⟨rest, eq, others⟩ := escape_cases c
  · rw [eq, List.mem_singleton] at member
    exact member ▸ line
  · rw [eq] at member
    revert d
    decide
  · rw [eq, List.mem_cons] at member
    obtain rfl | member := member
    · decide
    · exact (others d member).2

theorem printInt_digit {n : Int} {d : Char} (member : d ∈ printInt n) :
    d = '-' ∨ d.isDigit = true := by
  rw [printInt] at member
  split at member
  · refine (List.mem_cons.mp member).imp_right fun digit => ?_
    exact Nat.isDigit_of_mem_toDigits (by decide) (by decide) digit
  · exact .inr (Nat.isDigit_of_mem_toDigits (by decide) (by decide) member)

theorem printInt_ne {n : Int} {d : Char} (member : d ∈ printInt n) :
    d ≠ quote ∧ d ≠ newline := by
  obtain rfl | digit := printInt_digit member
  · decide
  · constructor
    · rintro rfl
      exact absurd digit (by decide)
    · rintro rfl
      exact absurd digit (by decide)

section
variable {key : String} {kept text : Text}

/-- The end of the token is not in an escaped text, nor at its end. -/
theorem not_prefix_escape {name : Text} (named : ∀ c ∈ name, c ≠ quote ∧ c ≠ backslash)
    (value tail : Text) : ¬ name ++ [quote, ':'] <+: JsonEscape value ++ quote :: ',' :: tail := by
  induction value generalizing name with
  | nil =>
      intro occurs
      cases name with
      | nil =>
          exact absurd (List.cons_prefix_cons.mp (List.cons_prefix_cons.mp occurs).2).1 (by decide)
      | cons c name =>
          exact (named c List.mem_cons_self).1 (List.cons_prefix_cons.mp occurs).1
  | cons x value ih =>
      intro occurs
      have flat : JsonEscape (x :: value) ++ quote :: ',' :: tail =
          escape x ++ (JsonEscape value ++ quote :: ',' :: tail) := by
        rw [JsonEscape, List.flatMap_cons, List.append_assoc]
        rfl
      rw [flat] at occurs
      have slash {rest : Text} (occurs : name ++ [quote, ':'] <+: backslash :: rest) : False := by
        cases name with
        | nil => exact absurd (List.cons_prefix_cons.mp occurs).1 (by decide)
        | cons c name =>
            exact (named c List.mem_cons_self).2 (List.cons_prefix_cons.mp occurs).1
      obtain ⟨eq, quotes, _⟩ | eq | ⟨rest, eq, _⟩ := escape_cases x <;> rw [eq] at occurs
      · cases name with
        | nil => exact quotes (List.cons_prefix_cons.mp occurs).1.symm
        | cons c name =>
            exact ih (fun d member => named d (List.mem_cons_of_mem c member))
              (List.cons_prefix_cons.mp occurs).2
      · exact slash occurs
      · exact slash occurs

theorem absent_escape (named : IsName key.toList) (value : Text) :
    Absent (token key) (JsonEscape value ++ [quote, ',']) := by
  have names : ∀ c ∈ key.toList, c ≠ quote ∧ c ≠ backslash := fun c member =>
    ⟨(named.2 c member).1, (named.2 c member).2.1⟩
  induction value with
  | nil =>
      refine .cons (fun tail occurs => ?_) (.of_forall_ne (by decide))
      obtain ⟨nonempty, others⟩ := named
      have occurs := (List.cons_prefix_cons.mp occurs).2
      cases name : key.toList with
      | nil => exact nonempty name
      | cons c rest =>
          rw [name] at occurs others
          exact (others c List.mem_cons_self).2.2.1 (List.cons_prefix_cons.mp occurs).1
  | cons x value ih =>
      rw [JsonEscape, List.flatMap_cons, List.append_assoc]
      obtain ⟨eq, quotes, _⟩ | eq | ⟨rest, eq, others⟩ := escape_cases x <;> rw [eq]
      · exact .cons_of_ne quotes ih
      · refine .cons_of_ne (by decide) (.cons (fun tail occurs => ?_) ih)
        refine not_prefix_escape names value tail ?_
        simpa [JsonEscape] using (List.cons_prefix_cons.mp occurs).2
      · exact .cons_of_ne (by decide) ((Absent.of_forall_ne fun d member =>
          (others d member).1).append ih)

/-- The key of a token that begins at a key. -/
theorem name_eq_of_prefix {name other a b : Text} (named : ∀ c ∈ name, c ≠ quote)
    (others : ∀ c ∈ other, c ≠ quote) (occurs : name ++ quote :: a <+: other ++ quote :: b) :
    name = other := by
  induction name generalizing other with
  | nil =>
      cases other with
      | nil => rfl
      | cons d other =>
          exact absurd (List.cons_prefix_cons.mp occurs).1.symm (others d List.mem_cons_self)
  | cons c name ih =>
      cases other with
      | nil => exact absurd (List.cons_prefix_cons.mp occurs).1 (named c List.mem_cons_self)
      | cons d other =>
          obtain ⟨rfl, inner⟩ := List.cons_prefix_cons.mp occurs
          rw [ih (fun e member => named e (List.mem_cons_of_mem c member))
            (fun e member => others e (List.mem_cons_of_mem c member)) inner]

/-- The token of another key is not in a field. -/
theorem absent_field (named : IsName key.toList) {other : String}
    (plain : ∀ c ∈ other.toList, c ≠ quote) (different : key.toList ≠ other.toList)
    (value : Value) : Absent (token key) (field other value.print ++ [',']) := by
  have names : ∀ c ∈ key.toList, c ≠ quote ∧ c ≠ backslash := fun c member =>
    ⟨(named.2 c member).1, (named.2 c member).2.1⟩
  have printed : Absent (token key) (value.print ++ [',']) := by
    cases value with
    | text value =>
        simp only [Value.print, List.cons_append, List.append_assoc]
        refine .cons (fun tail occurs => not_prefix_escape names value tail ?_)
          (absent_escape named value)
        simpa using (List.cons_prefix_cons.mp occurs).2
    | integer n =>
        refine .append (.of_forall_ne fun d member => ?_) (.of_forall_ne (by decide))
        exact (printInt_ne member).1
  have after : Absent (token key) (quote :: ':' :: ' ' :: (value.print ++ [','])) := by
    refine .cons (fun tail occurs => ?_)
      (.cons_of_ne (by decide) (.cons_of_ne (by decide) printed))
    obtain ⟨nonempty, others⟩ := named
    have occurs := (List.cons_prefix_cons.mp occurs).2
    cases name : key.toList with
    | nil => exact nonempty name
    | cons c rest =>
        rw [name] at occurs others
        exact (others c List.mem_cons_self).2.2.2 (List.cons_prefix_cons.mp occurs).1
  have keyed : Absent (token key)
      (quote :: (other.toList ++ quote :: ':' :: ' ' :: (value.print ++ [',']))) := by
    refine .cons (fun tail occurs => different ?_) ((Absent.of_forall_ne plain).append after)
    have occurs := (List.cons_prefix_cons.mp occurs).2
    rw [List.append_assoc] at occurs
    exact name_eq_of_prefix (fun c member => (names c member).1) plain occurs
  rw [field, List.append_assoc]
  exact .cons_of_ne (by decide) (.cons_of_ne (by decide) (.cons_of_ne (by decide) keyed))

/-- The end of the text is not in a field. -/
theorem absent_close {other : String} (plain : ∀ c ∈ other.toList, c ≠ newline) (value : Value) :
    Absent close (field other value.print ++ [',']) := by
  have printed : ∀ d ∈ value.print, d ≠ newline := by
    cases value with
    | text value =>
        intro d member
        rw [Value.print, List.cons_append, List.mem_cons, List.mem_append] at member
        obtain rfl | member | member := member
        · decide
        · obtain ⟨c, _, member⟩ := List.mem_flatMap.mp member
          exact not_newline_of_mem_escape member
        · rw [List.mem_singleton.mp member]
          decide
    | integer n => exact fun d member => (printInt_ne member).2
  simp only [field, List.cons_append, List.append_assoc]
  refine .cons (fun tail occurs => ?_) (.of_forall_ne fun d member => ?_)
  · have occurs := (List.cons_prefix_cons.mp occurs).2
    exact absurd (List.cons_prefix_cons.mp occurs).1 (by decide)
  · simp only [List.mem_cons, List.mem_append, List.not_mem_nil, or_false] at member
    obtain rfl | rfl | rfl | member | rfl | rfl | rfl | member | rfl := member
    · decide
    · decide
    · decide
    · exact plain d member
    · decide
    · decide
    · decide
    · exact printed d member
    · decide

/-- The keys of the fields that stay the same. -/
def headKeys : List String :=
  ["session_id", "diagnostics_schema", "checkpoint_interval_ms", "phocoena_version",
    "phocoena_commit", "phocoena_source_state", "upstream_commit", "build_date",
    "source_lock_sha256", "game_id", "game_name", "internal_name", "region", "revision",
    "disc_number", "image_format", "source_extension", "renderer", "cpu_mode", "shader_mode",
    "fifo_blocks", "requested_cpu_hz", "requested_gpu_hz"]

/-- The keys whose values a recovery replaces. -/
def replacedKeys : List String :=
  ["status", "exit_reason", "exit_input", "guest_speed_percent_approx", "ended_epoch"] ++
    copiedNumbers.map Prod.fst

/-- The bytes of a key, which are computed faster than its characters. -/
def bytes (key : String) : List Nat := key.toByteArray.data.toList.map UInt8.toNat

/-- A character of one byte is in a text only if its byte is. -/
theorem ne_of_bytes {key : String} {c d : Char} {byte : UInt8}
    (single : String.utf8EncodeChar d = [byte]) (others : ∀ b ∈ bytes key, b ≠ byte.toNat)
    (member : c ∈ key.toList) : c ≠ d := by
  rintro rfl
  obtain ⟨l, rfl⟩ := key.exists_eq_ofList
  rw [String.toList_ofList] at member
  refine others byte.toNat (List.mem_map_of_mem ?_) rfl
  rw [String.toByteArray_ofList, List.utf8Encode, List.toList_data_toByteArray]
  exact List.mem_flatMap.mpr ⟨c, member, single ▸ List.mem_singleton_self byte⟩

theorem headKeys_bytes : ∀ other ∈ headKeys, ∀ b ∈ bytes other, b ≠ 0x22 ∧ b ≠ 0x0a := by
  decide +kernel

theorem headKeys_plain : ∀ other ∈ headKeys, ∀ c ∈ other.toList, c ≠ quote ∧ c ≠ newline := by
  intro other known c member
  have plain := headKeys_bytes other known
  exact ⟨ne_of_bytes rfl (fun b inside => (plain b inside).1) member,
    ne_of_bytes rfl (fun b inside => (plain b inside).2) member⟩

theorem replacedKeys_bytes : ∀ key ∈ replacedKeys, bytes key ∉ [] :: headKeys.map bytes ∧
    ∀ b ∈ bytes key, b ≠ 0x22 ∧ b ≠ 0x5c ∧ b ≠ 0x2c ∧ b ≠ 0x3a := by
  decide +kernel

theorem replacedKeys_named : ∀ key ∈ replacedKeys, IsName key.toList ∧
    ∀ other ∈ headKeys, key.toList ≠ other.toList := by
  intro key replaced
  obtain ⟨different, plain⟩ := replacedKeys_bytes key replaced
  rw [List.mem_cons, not_or] at different
  refine ⟨⟨fun empty => different.1 ?_, fun c member => ⟨?_, ?_, ?_, ?_⟩⟩,
    fun other known same => different.2 ?_⟩
  · rw [String.toList_eq_nil_iff.mp empty]
    rfl
  · exact ne_of_bytes rfl (fun b inside => (plain b inside).1) member
  · exact ne_of_bytes rfl (fun b inside => (plain b inside).2.1) member
  · exact ne_of_bytes rfl (fun b inside => (plain b inside).2.2.1) member
  · exact ne_of_bytes rfl (fun b inside => (plain b inside).2.2.2) member
  · rw [String.toList_inj.mp same]
    exact List.mem_map_of_mem known

variable (build : BuildInfo) (id : Text) (m : SupportSessionMetadata)

theorem headFields_keys {f : String × Value} (member : f ∈ headFields build id m) :
    f.1 ∈ headKeys := by
  have keys : (headFields build id m).map Prod.fst = headKeys := rfl
  exact keys ▸ List.mem_map_of_mem member

theorem absent_head (replaced : key ∈ replacedKeys) : Absent (token key) (head build id m) := by
  obtain ⟨named, different⟩ := replacedKeys_named key replaced
  refine .cons_of_ne (by decide) (.flatMap fun f member => ?_)
  have known := headFields_keys build id m member
  exact absent_field named (fun c inside => (headKeys_plain f.1 known c inside).1)
    (different f.1 known) f.2

theorem close_absent_head : Absent close (head build id m) := by
  refine .cons_of_ne (by decide) (.flatMap fun f member => ?_)
  have known := headFields_keys build id m member
  exact absent_close (fun c inside => (headKeys_plain f.1 known c inside).2) f.2

theorem ReplaceJsonNumber_keeps (absent : Absent (token key) kept) (number : Text)
    (begins : kept <+: text) : kept <+: ReplaceJsonNumber text key number := by
  obtain ⟨tail, rfl⟩ := begins
  rw [ReplaceJsonNumber]
  split
  · exact List.prefix_append ..
  · rename_i found
    split
    · exact List.prefix_append ..
    · simp only [List.append_assoc]
      exact (absent.prefix_cutFirst found).trans (List.prefix_append ..)

theorem ReplaceJsonString_keeps (absent : Absent (token key) kept) (value : Text)
    (begins : kept <+: text) : kept <+: ReplaceJsonString text key value := by
  obtain ⟨tail, rfl⟩ := begins
  rw [ReplaceJsonString]
  split
  · exact List.prefix_append ..
  · rename_i found
    split
    · exact List.prefix_append ..
    · split
      · exact List.prefix_append ..
      · simp only [List.append_assoc]
        exact (absent.prefix_cutFirst found).trans (List.prefix_append ..)

/-- A recovery keeps the fields of the start. -/
theorem RecoverSummary_keeps {Double : Type} (numbers : Numbers Double) {summary : Text}
    (checkpoint exit_reason exit_input : Text) (crash_evidence : Bool)
    (begins : head build id m <+: summary) : head build id m <+:
      RecoverSummary numbers summary checkpoint exit_reason exit_input crash_evidence := by
  have absent {key : String} (replaced : key ∈ replacedKeys) :=
    absent_head build id m replaced
  have copied (l : List (String × Bool)) (inside : ∀ f ∈ l, f.1 ∈ replacedKeys) {text : Text}
      (begins : head build id m <+: text) :
      head build id m <+: l.foldl (copy_number numbers checkpoint) text := by
    induction l generalizing text with
    | nil => exact begins
    | cons f l ih =>
        refine ih (fun g member => inside g (List.mem_cons_of_mem f member)) ?_
        rw [copy_number]
        split
        · exact begins
        · exact ReplaceJsonNumber_keeps (absent (inside f List.mem_cons_self)) _ begins
  have begins := ReplaceJsonString_keeps (absent (by decide : "status" ∈ replacedKeys))
    "abnormal_exit".toList begins
  have begins := ReplaceJsonString_keeps (absent (by decide : "exit_reason" ∈ replacedKeys))
    exit_reason begins
  have begins := ReplaceJsonString_keeps (absent (by decide : "exit_input" ∈ replacedKeys))
    exit_input begins
  have begins := copied copiedNumbers (fun f member =>
    List.mem_append_right _ (List.mem_map_of_mem member)) begins
  have sped {text : Text} (begins : head build id m <+: text) :
      head build id m <+: replaceSpeed numbers checkpoint text := by
    rw [replaceSpeed]
    split
    · split
      · exact ReplaceJsonNumber_keeps (absent (by decide)) _ begins
      · exact begins
    · exact begins
  obtain ⟨tail, eq⟩ := sped begins
  rw [RecoverSummary, ← eq]
  split
  · exact List.prefix_append ..
  · rename_i found
    simp only [List.append_assoc]
    exact ((close_absent_head build id m).prefix_cutLast found).trans (List.prefix_append ..)

end

end Phocoena.SupportDiagnostics
