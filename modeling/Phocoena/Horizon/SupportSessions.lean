import Phocoena.Horizon.SupportDiagnostics

/-! # The summary of a session that is interrupted

`WriteTextAtomic` removes the file before it renames the new one. The summary outlives the session
when no write of it ends between the two.
-/

namespace Phocoena.SupportDiagnostics

/-! ## One write -/

/-- The temporary file has the whole text. -/
def WriteResults.Written (results : WriteResults) : Prop :=
  results.directories = true ∧ results.created = true ∧ results.written = none ∧
    results.dies ≠ some 0 ∧ results.dies ≠ some 1 ∧ results.dies ≠ some 2

/-- The temporary file gets its name. -/
def WriteResults.Completes (results : WriteResults) : Prop :=
  results.Written ∧ results.dies ≠ some 3 ∧ results.renamed = true

/-- A file that is removed is replaced. -/
def WriteResults.Safe (results : WriteResults) : Prop :=
  results.Written → results.removed = true → results.dies ≠ some 3 ∧ results.renamed = true

instance (results : WriteResults) : Decidable results.Written :=
  inferInstanceAs (Decidable (_ ∧ _))

instance (results : WriteResults) : Decidable results.Completes :=
  inferInstanceAs (Decidable (_ ∧ _))

instance (results : WriteResults) : Decidable results.Safe :=
  inferInstanceAs (Decidable (_ → _))

theorem temp_ne (path : Path) : path.temp ≠ path := by
  intro same
  have length := congrArg (·.name.length) same
  simp [Path.temp] at length

section
variable {results : WriteResults} {path : Path} {text : Text} {files : Files}

/-- The file of another name. -/
theorem WriteTextAtomic_other {other : Path} (target : other ≠ path) (temp : other ≠ path.temp) :
    (WriteTextAtomic results path text files).2 other = files other := by
  simp only [WriteTextAtomic, apply_ite Prod.snd, ite_apply, Function.update_of_ne target,
    Function.update_of_ne temp, ite_self]

/-- What the write leaves of the file that it is to replace. -/
theorem WriteTextAtomic_target : (WriteTextAtomic results path text files).2 path =
    if results.Completes then some text
    else if results.Written ∧ results.removed = true then none
    else files path := by
  obtain ⟨directories, created, written, removed, renamed, dies⟩ := results
  simp only [WriteTextAtomic, apply_ite Prod.snd, ite_apply, Function.update_self,
    Function.update_of_ne (temp_ne path), Function.update_of_ne (temp_ne path).symm]
  unfold WriteResults.Completes WriteResults.Written
  cases directories with
  | false => simp
  | true =>
  cases created with
  | false => simp
  | true =>
  cases written with
  | some _ => simp
  | none =>
  -- the temporary file is whole: the write dies before the removal, after it, or goes on
  simp
  split_ifs <;> simp_all

theorem WriteTextAtomic_returned {succeeded : Bool}
    (returned : (WriteTextAtomic results path text files).1 = .returned succeeded) :
    succeeded = true ↔ results.Completes := by
  simp only [WriteTextAtomic, apply_ite Prod.fst] at returned
  unfold WriteResults.Completes WriteResults.Written
  by_cases refused : ¬ results.directories ∨ ¬ results.created
  · rw [if_pos refused] at returned
    have : ¬ (results.directories = true ∧ results.created = true) := by tauto
    split at returned <;> cases returned
    simp only [Bool.false_eq_true, false_iff]
    tauto
  rw [if_neg refused] at returned
  rw [not_or, not_not, not_not] at refused
  cases written : results.written with
  | some _ =>
      simp only [written, Option.isSome_some, if_true] at returned
      split_ifs at returned
      cases returned
      simp
  | none =>
      simp only [written, Option.isSome_none, Bool.false_eq_true, if_false] at returned
      split_ifs at returned
      cases returned
      simp [*]

/-- A write that fails has lost the file when it removed it. -/
theorem WriteTextAtomic_false {files' : Files}
    (failed : WriteTextAtomic results path text files = (.returned false, files')) :
    files' path = files path ↔
      ¬ (results.Written ∧ results.removed = true) ∨ files path = none := by
  have incomplete : ¬ results.Completes := by
    rw [← WriteTextAtomic_returned (congrArg Prod.fst failed)]
    exact Bool.false_ne_true
  have target := @WriteTextAtomic_target results path text files
  rw [failed, if_neg incomplete] at target
  dsimp only at target
  rw [target]
  by_cases lost : results.Written ∧ results.removed = true
  · rw [if_pos lost]
    constructor
    · exact fun same => .inr same.symm
    · rintro (kept | none)
      · exact absurd lost kept
      · exact none.symm
  · rw [if_neg lost]
    exact iff_of_true rfl (.inl lost)

/-- A safe write leaves the file or replaces it. -/
theorem WriteResults.Safe.target (safe : results.Safe) :
    (WriteTextAtomic results path text files).2 path = some text ∨
      (WriteTextAtomic results path text files).2 path = files path := by
  rw [WriteTextAtomic_target]
  split_ifs with completes lost
  · exact .inl rfl
  · exact absurd ⟨lost.1, safe lost.1 lost.2⟩ completes
  · exact .inr rfl

end

/-! ## Writes of a session -/

section
variable {results : WriteResults} {path : Path} {text : Text} {s : State}

theorem write_session : (s.write results path text).2.s_session = s.s_session := by
  rw [State.write]
  split
  · split <;> rfl
  · rfl

theorem write_files : (s.write results path text).2.files =
    if s.alive then (WriteTextAtomic results path text s.files).2 else s.files := by
  rw [State.write]
  split
  · split <;> rename_i eq <;> rw [eq]
  · rfl

theorem write_other {other : Path} (target : other ≠ path) (temp : other ≠ path.temp) :
    (s.write results path text).2.files other = s.files other := by
  rw [write_files]
  split
  · exact WriteTextAtomic_other target temp
  · rfl

theorem write_target (safe : results.Safe) :
    (s.write results path text).2.files path = some text ∨
      (s.write results path text).2.files path = s.files path := by
  rw [write_files]
  split
  · exact safe.target
  · exact .inr rfl

theorem write_alive (alive : (s.write results path text).2.alive = true) : s.alive = true := by
  rw [State.write] at alive
  split at alive
  · assumption
  · exact alive

/-- A write that succeeds is made by a process that is alive. -/
theorem write_true (succeeded : (s.write results path text).1 = true) :
    s.alive = true ∧ (s.write results path text).2.files path = some text := by
  rw [write_files]
  rw [State.write] at succeeded
  split at succeeded
  · rename_i alive
    split at succeeded
    · rename_i files returned
      have completes := (WriteTextAtomic_returned (congrArg Prod.fst returned)).mp succeeded
      rw [if_pos alive, WriteTextAtomic_target, if_pos completes]
      exact ⟨alive, rfl⟩
    · cases succeeded
  · cases succeeded

end

/-! ## What a session keeps -/

/-- A character that ends no line. -/
def InLine (c : Char) : Prop := c ≠ newline ∧ c ≠ carriageReturn

instance (c : Char) : Decidable (InLine c) := inferInstanceAs (Decidable (_ ∧ _))

theorem inLine_of_isDigit {c : Char} (digit : c.isDigit = true) : InLine c := by
  constructor
  · rintro rfl
    exact absurd digit (by decide)
  · rintro rfl
    exact absurd digit (by decide)

theorem inLine_printInt {n : Int} {c : Char} (member : c ∈ printInt n) : InLine c := by
  obtain rfl | digit := printInt_digit member
  · decide
  · exact inLine_of_isDigit digit

theorem inLine_Sanitize {value : Text} {c : Char} (member : c ∈ Sanitize value) : InLine c := by
  have mapped {d : Char} : InLine
      (if d.isAlphanum ∨ d = '-' ∨ d = '_' ∨ d = '.' then d else '_') := by
    split
    · rename_i allowed
      constructor
      · rintro rfl
        exact absurd allowed (by decide)
      · rintro rfl
        exact absurd allowed (by decide)
    · decide
  have inside := List.mem_of_mem_take member
  split at inside
  · have named : ∀ d ∈ "unknown".toList, InLine d := by decide
    exact named c inside
  · obtain ⟨d, _, rfl⟩ := List.mem_map.mp inside
    exact mapped

theorem inLine_sessionId {metadata : SupportSessionMetadata} {started_epoch : Int} {tick : Nat}
    {c : Char} (member : c ∈ sessionId metadata started_epoch tick) : InLine c := by
  simp only [sessionId, List.mem_append, List.mem_cons] at member
  obtain member | rfl | member | rfl | member := member
  · exact inLine_printInt member
  · decide
  · exact inLine_Sanitize member
  · decide
  · exact inLine_of_isDigit (Nat.isDigit_of_mem_toDigits (by decide) (by decide) member)

theorem ReadKey_first {wanted : String} {value : Text}
    (key : ∀ c ∈ wanted.toList ++ ['='], InLine c) (inLine : ∀ c ∈ value, InLine c)
    (rest : Text) : ReadKey (keyLine wanted value ++ rest) wanted = value := by
  have line : ∀ c ∈ wanted.toList ++ ['='] ++ value, InLine c := by
    intro c member
    obtain member | member := List.mem_append.mp member
    · exact key c member
    · exact inLine c member
  have noReturn : (wanted.toList ++ ['='] ++ value).getLast? ≠ some carriageReturn :=
    fun last => (line _ (List.mem_of_getLast? last)).2 rfl
  have noLine : newline ∉ wanted.toList ++ ['='] ++ value := fun member => (line _ member).1 rfl
  rw [ReadKey, keyLine, List.append_assoc _ [newline], List.singleton_append,
    List.splitOn_append_cons_self_of_not_mem noLine, List.findSome?_cons, if_neg noReturn]
  dsimp only
  rw [if_pos (List.prefix_append ..), List.drop_left]
  rfl

/-- The marker leads back to the directory of the session. -/
theorem ReadKey_marker {id : Text} (inLine : ∀ c ∈ id, InLine c) (started_epoch : Int) :
    ReadKey (marker id started_epoch) "session_dir" = sessionDir id := by
  have dir : ∀ c ∈ sessionDir id, InLine c := by
    have named : ∀ c ∈ "sessions/".toList, InLine c := by decide
    intro c member
    exact (List.mem_append.mp member).elim (named c) (inLine c)
  have named : ∀ c ∈ "session_dir".toList ++ ['='], InLine c := by decide
  rw [marker, List.append_assoc]
  exact ReadKey_first named dir _

section
variable (build : BuildInfo) (id : Text) (m : SupportSessionMetadata) (started_epoch : Int)

/-- What holds from the start of a session on. -/
structure Kept (s : State) : Prop where
  summary : ∃ text, s.files (summaryPath id) = some text ∧ head build id m <+: text
  marked : s.files ActiveMarker = some (marker id started_epoch) ∨ s.files ActiveMarker = none
  session : ∀ session ∈ s.s_session, session.id = id ∧ session.metadata = m

variable {build id m started_epoch} {s : State}

theorem Kept.congr {s' : State} (kept : Kept build id m started_epoch s)
    (summary : s'.files (summaryPath id) = s.files (summaryPath id))
    (marked : s'.files ActiveMarker = s.files ActiveMarker ∨ s'.files ActiveMarker = none)
    (session : ∀ session ∈ s'.s_session, session.id = id ∧ session.metadata = m) :
    Kept build id m started_epoch s' := by
  refine ⟨summary ▸ kept.summary, ?_, session⟩
  obtain same | removed := marked
  · exact same ▸ kept.marked
  · exact .inr removed

/-- A write of another file of the session. -/
theorem Kept.writeOther (kept : Kept build id m started_epoch s) (results : WriteResults)
    (name : String) (text : Text)
    (others : ∀ other ∈ ["summary.json", "active-session.txt"],
      other.toList ≠ name.toList ∧ other.toList ≠ name.toList ++ ".tmp".toList) :
    Kept build id m started_epoch (s.write results ⟨sessionDir id, name.toList⟩ text).2 := by
  have summary := others "summary.json" (by decide)
  have marker := others "active-session.txt" (by decide)
  refine kept.congr ?_ (.inl ?_) ?_
  · exact write_other (fun same => summary.1 (congrArg Path.name same))
      fun same => summary.2 (congrArg Path.name same)
  · exact write_other (fun same => marker.1 (congrArg Path.name same))
      fun same => marker.2 (congrArg Path.name same)
  · rw [write_session]
    exact kept.session

theorem marker_ne_summary : ActiveMarker ≠ summaryPath id := fun same =>
  absurd (congrArg Path.name same)
    (by decide : "active-session.txt".toList ≠ "summary.json".toList)

theorem marker_ne_summary_temp : ActiveMarker ≠ (summaryPath id).temp := fun same =>
  absurd (congrArg Path.name same)
    (by decide : "active-session.txt".toList ≠ "summary.json".toList ++ ".tmp".toList)

theorem summary_ne_marker_temp : summaryPath id ≠ ActiveMarker.temp := fun same =>
  absurd (congrArg Path.name same)
    (by decide : "summary.json".toList ≠ "active-session.txt".toList ++ ".tmp".toList)

theorem summary_ne_settings {dir : Text} : summaryPath id ≠ ⟨dir, "settings.ini".toList⟩ :=
  fun same => absurd (congrArg Path.name same)
    (by decide : "summary.json".toList ≠ "settings.ini".toList)

theorem summary_ne_settings_temp {dir : Text} :
    summaryPath id ≠ (Path.mk dir "settings.ini".toList).temp := fun same =>
  absurd (congrArg Path.name same)
    (by decide : "summary.json".toList ≠ "settings.ini".toList ++ ".tmp".toList)

theorem Kept.writeSummary (kept : Kept build id m started_epoch s) {results : WriteResults}
    (safe : results.Safe) (rest : Text) :
    Kept build id m started_epoch
      (s.write results (summaryPath id) (SummaryJson build id m rest)).2 := by
  refine ⟨?_, ?_, ?_⟩
  · obtain new | same := @write_target results (summaryPath id) (SummaryJson build id m rest) s safe
    · exact ⟨_, new, List.prefix_append ..⟩
    · rw [same]
      exact kept.summary
  · rw [write_other marker_ne_summary marker_ne_summary_temp]
    exact kept.marked
  · rw [write_session]
    exact kept.session

/-- The writes of the summary that a call makes are safe. -/
def Meets (action : Action) (_ : State) : Prop :=
  match action with
  | .appendSupportTelemetry .. => True
  | .updateSupportClockReadings results _ => results.Safe
  | .endSupportSession results _ => results.summary.Safe

instance (action : Action) (s : State) : Decidable (Meets action s) :=
  match action with
  | .appendSupportTelemetry .. => inferInstanceAs (Decidable True)
  | .updateSupportClockReadings results _ => inferInstanceAs (Decidable results.Safe)
  | .endSupportSession results _ => inferInstanceAs (Decidable results.summary.Safe)

theorem Kept.append (kept : Kept build id m started_epoch s) (results : WriteResults)
    (wall_ms : Int) (checkpoint : Text) :
    Kept build id m started_epoch (AppendSupportTelemetry results wall_ms checkpoint s) := by
  rw [AppendSupportTelemetry]
  split
  · exact kept
  · rename_i session active
    obtain ⟨rfl, rfl⟩ := kept.session session active
    split
    · refine (kept.writeOther results "checkpoint.json" checkpoint (by decide)).congr rfl
        (.inl rfl) ?_
      rintro _ ⟨⟩
      exact ⟨rfl, rfl⟩
    · exact kept

theorem Kept.update (kept : Kept build id m started_epoch s) {results : WriteResults}
    (safe : results.Safe) (rest : Text) :
    Kept build id m started_epoch (UpdateSupportClockReadings build results rest s) := by
  rw [UpdateSupportClockReadings]
  split
  · exact kept
  · rename_i session active
    obtain ⟨rfl, rfl⟩ := kept.session session active
    exact kept.writeSummary safe rest

/-- The marker is removed, unless the process dies before. -/
theorem Kept.finish (kept : Kept build id m started_epoch s) (marker : Option Bool) :
    Kept build id m started_epoch (if s.alive then
      match marker with
      | none => { s with alive := false }
      | some removed =>
          { s with
            files := if removed then Function.update s.files ActiveMarker none else s.files
            s_session := none }
      else s) := by
  split
  · split
    · exact kept.congr rfl (.inl rfl) kept.session
    · rename_i removed
      cases removed with
      | false => exact kept.congr rfl (.inl rfl) nofun
      | true =>
          rw [if_pos rfl]
          exact kept.congr (by simp [Function.update_of_ne marker_ne_summary.symm])
            (.inr (by simp)) nofun
  · exact kept

theorem Kept.end (kept : Kept build id m started_epoch s) {results : EndResults}
    (safe : results.summary.Safe) (texts : EndTexts) :
    Kept build id m started_epoch (EndSupportSession build results texts s) := by
  rw [EndSupportSession]
  split
  · exact kept
  · rename_i session active
    obtain ⟨rfl, rfl⟩ := kept.session session active
    have telemetry : Kept build session.id session.metadata started_epoch
        (if texts.telemetry = [] then s
        else (s.write results.telemetry ⟨sessionDir session.id, "telemetry.log".toList⟩
          texts.telemetry).2) := by
      split
      · exact kept
      · exact kept.writeOther results.telemetry "telemetry.log" texts.telemetry (by decide)
    have metrics {s : State} (kept : Kept build session.id session.metadata started_epoch s) :
        Kept build session.id session.metadata started_epoch
          (if texts.metrics_csv = [] then s
          else (s.write results.metrics ⟨sessionDir session.id, "metrics.csv".toList⟩
            texts.metrics_csv).2) := by
      split
      · exact kept
      · exact kept.writeOther results.metrics "metrics.csv" texts.metrics_csv (by decide)
    have written := ((metrics telemetry).writeOther results.checkpoint "checkpoint.json"
      texts.checkpoint (by decide)).writeSummary safe texts.rest
    exact written.finish results.marker

theorem Kept.step {s' : State} {action : Action} (kept : Kept build id m started_epoch s)
    (meets : Meets action s) (next : step build action s = some s') :
    Kept build id m started_epoch s' := by
  cases action with
  | appendSupportTelemetry results wall_ms checkpoint =>
      cases next
      exact kept.append results wall_ms checkpoint
  | updateSupportClockReadings results rest =>
      cases next
      exact kept.update meets rest
  | endSupportSession results texts =>
      cases next
      exact kept.end meets texts

/-- A session that has begun, its first summary written. -/
theorem Kept.start {s' : State} {results : BeginResults} {texts : BeginTexts}
    {session : ActiveSession} (completes : results.summary.Completes)
    (began : startSession build results texts session started_epoch s = (true, s')) :
    Kept build session.id session.metadata started_epoch s' := by
  rw [startSession] at began
  dsimp only at began
  split at began
  · rename_i marked
    cases began
    have succeeded := congrArg Prod.fst marked
    obtain ⟨settings_alive, present⟩ := write_true succeeded
    rw [marked] at present
    have alive := write_alive (write_alive settings_alive)
    have ended := congrArg Prod.snd marked
    dsimp only at ended
    refine ⟨⟨SummaryJson build session.id session.metadata texts.rest, ?_, List.prefix_append ..⟩,
      .inl present, ?_⟩
    · rw [← ended, write_other marker_ne_summary.symm summary_ne_marker_temp,
        write_other summary_ne_settings summary_ne_settings_temp, write_files, if_pos alive,
        WriteTextAtomic_target, if_pos completes]
    · rw [← ended, write_session, write_session, write_session]
      rintro _ ⟨⟩
      exact ⟨rfl, rfl⟩
  · cases began

/-- The next launch leaves a summary with the fields of the session. -/
theorem Kept.recover {Double : Type} (numbers : Numbers Double)
    (kept : Kept build id m started_epoch s) (inLine : ∀ c ∈ id, InLine c)
    {results : RecoverResults} (safe : results.summary.Safe) (crash_evidence : Bool)
    (now : Double) : ∃ text,
      RecoverInterruptedSupportSession numbers results crash_evidence now s.files
        (summaryPath id) = some text ∧ head build id m <+: text := by
  rw [RecoverInterruptedSupportSession]
  obtain ⟨prior, present, begins⟩ := kept.summary
  obtain marked | removed := kept.marked
  · rw [marked]
    dsimp only
    have dir_ne : sessionDir id ≠ [] := List.append_ne_nil_of_left_ne_nil (by decide) id
    rw [ReadKey_marker inLine, if_pos dir_ne]
    have kept_marker (removed : Prop) [Decidable removed] (files : Files) :
        (if removed then Function.update files ActiveMarker none else files) (summaryPath id) =
          files (summaryPath id) := by
      split
      · exact Function.update_of_ne marker_ne_summary.symm ..
      · rfl
    rw [kept_marker]
    have head_ne : head build id m ≠ [] := List.cons_ne_nil _ _
    have prior_ne : prior ≠ [] := fun empty => head_ne (List.prefix_nil.mp (empty ▸ begins))
    have text_eq : ReadText s.files (summaryPath id) = prior := by rw [ReadText, present]; rfl
    obtain new | same := @WriteResults.Safe.target results.summary (summaryPath id)
      (recovered numbers crash_evidence now (ReadText s.files (summaryPath id))
        (ReadText s.files (checkpointPath id))) s.files safe
    · refine ⟨_, new, ?_⟩
      rw [text_eq, recovered, if_pos prior_ne]
      exact ReplaceJsonNumber_keeps (absent_head build id m (by decide)) _
        (RecoverSummary_keeps build id m numbers _ _ _ _ begins)
    · exact ⟨prior, same.trans present, begins⟩
  · rw [removed]
    exact kept.summary

end

/-! ## Runs -/

/-- A write that fails keeps the file exactly when it has not removed one. When the first summary
is written and no later write of it ends between its removal and its renaming, it has the fields
of the start after the next launch, wherever the run is cut. -/
theorem session_recovered {Double : Type} (numbers : Numbers Double) (build : BuildInfo) :
    (∀ results path text files files',
      WriteTextAtomic results path text files = (.returned false, files') →
      (files' path = files path ↔
        ¬ (results.Written ∧ results.removed = true) ∨ files path = none)) ∧
    ∀ results texts metadata started_epoch tick s₀ s₁ s,
      s₀.s_session = none →
      BeginSupportSession build results texts metadata started_epoch tick s₀ = (true, s₁) →
      results.summary.Completes → Reaches (step build) Meets s₁ s →
      ∀ (recover : RecoverResults) crash_evidence now, recover.summary.Safe → ∃ text,
        RecoverInterruptedSupportSession numbers recover crash_evidence now s.files
          (summaryPath (sessionId metadata started_epoch tick)) = some text ∧
        head build (sessionId metadata started_epoch tick) metadata <+: text := by
  refine ⟨fun _ _ _ _ _ failed => WriteTextAtomic_false failed, ?_⟩
  intro results texts metadata started_epoch tick s₀ s₁ s inactive began completes run recover
    crash_evidence now safe
  have started : Kept build (sessionId metadata started_epoch tick) metadata started_epoch s₁ := by
    have alone : (if s₀.s_session.isSome then
        EndSupportSession build results.superseded texts.superseded s₀ else s₀) = s₀ :=
      if_neg (by simp [inactive])
    rw [BeginSupportSession, alone] at began
    split at began
    · cases began
    · split at began
      · cases began
      · exact Kept.start completes began
  have kept := run.invariant started fun _ _ _ kept meets next => kept.step meets next
  exact kept.recover numbers (fun _ member => inLine_sessionId member) safe crash_evidence now

def complete : WriteResults := ⟨true, true, none, true, true, none⟩

/-- The process dies when the file is removed. -/
def removedOnly : WriteResults := ⟨true, true, none, true, true, some 3⟩

def noBuild : BuildInfo := ⟨[], [], [], [], [], []⟩

def aGame : SupportSessionMetadata :=
  ⟨"GALE01".toList, [], [], [], 0, 0, [], [], [], [], [], 1, 0, 0⟩

def aStart : BeginResults :=
  ⟨⟨complete, complete, complete, complete, none⟩, true, true, complete, complete, complete,
    complete⟩

def someTexts : BeginTexts := ⟨⟨[], [], [], []⟩, close, [], []⟩

def integers : Numbers Int := ⟨fun _ => none, fun _ n => printInt n, fun _ _ => none⟩

def atStart : Bool × State :=
  BeginSupportSession noBuild aStart someTexts aGame 1700000000 7 ⟨fun _ => none, none, true⟩

theorem atStart_began : atStart = (true, atStart.2) :=
  Prod.ext (by decide +kernel) rfl

/-- A session whose process dies in the middle of a checkpoint. -/
theorem session_recovered_checkpoint : ∃ s text, Reaches (step noBuild) Meets atStart.2 s ∧
    s.alive = false ∧
    RecoverInterruptedSupportSession integers ⟨complete, true⟩ false 1700000100 s.files
      (summaryPath (sessionId aGame 1700000000 7)) = some text ∧
    head noBuild (sessionId aGame 1700000000 7) aGame <+: text := by
  have run : Reaches (step noBuild) Meets atStart.2
      (AppendSupportTelemetry removedOnly 31000 [] atStart.2) :=
    @Reaches.tail _ _ _ _ _ _ _ (.appendSupportTelemetry removedOnly 31000 []) .refl trivial rfl
  obtain ⟨text, written, begins⟩ := (session_recovered integers noBuild).2 aStart someTexts aGame
    1700000000 7 _ _ _ rfl atStart_began (by decide) run ⟨complete, true⟩ false 1700000100
    (by decide)
  exact ⟨_, text, run, by decide +kernel, written, begins⟩

/-- The process dies between the removal and the renaming of the summary. -/
theorem summary_lost : ¬ ∀ s, Reaches (step noBuild) (fun _ _ => True) atStart.2 s → ∃ text,
    RecoverInterruptedSupportSession integers ⟨complete, true⟩ false 1700000100 s.files
      (summaryPath (sessionId aGame 1700000000 7)) = some text ∧
    head noBuild (sessionId aGame 1700000000 7) aGame <+: text := by
  intro kept
  obtain ⟨text, written, begins⟩ := kept
    (UpdateSupportClockReadings noBuild removedOnly close atStart.2)
    (@Reaches.tail _ _ _ _ _ _ _ (.updateSupportClockReadings removedOnly close) .refl trivial rfl)
  have lost : (RecoverInterruptedSupportSession integers ⟨complete, true⟩ false 1700000100
      (UpdateSupportClockReadings noBuild removedOnly close atStart.2).files
      (summaryPath (sessionId aGame 1700000000 7))).all fun text =>
        ¬ head noBuild (sessionId aGame 1700000000 7) aGame <+: text := by
    decide +kernel
  rw [written, Option.all_some] at lost
  exact of_decide_eq_true lost begins

end Phocoena.SupportDiagnostics
