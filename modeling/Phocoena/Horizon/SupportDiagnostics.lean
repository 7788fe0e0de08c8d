import Phocoena.Lib.Runs
import Phocoena.Horizon.SummaryText
import Mathlib.Logic.Function.Basic

/-! # The sessions of the support diagnostics

`WriteTextAtomic` step by step, the session that writes its files with it, and the recovery on the
next launch. What no recovery reads again is left out: the event log, the copied logs and the
bundles.
-/

namespace Phocoena.SupportDiagnostics

/-- A file under the root of the diagnostics. -/
structure Path where
  dir : Text
  name : Text
  deriving DecidableEq

abbrev Files := Path → Option Text

def Path.temp (path : Path) : Path := { path with name := path.name ++ ".tmp".toList }

/-! ## `WriteTextAtomic` -/

/-- What the steps do in a call: the directories, the temporary file, the text in it, the removal
and the renaming. A text that could not be written is there in part. -/
structure WriteResults where
  directories : Bool
  created : Bool
  written : Option Text
  removed : Bool
  renamed : Bool
  /-- the number of steps on the files after which the process dies -/
  dies : Option Nat

inductive Outcome where
  | returned (succeeded : Bool)
  | died
  deriving DecidableEq

def WriteTextAtomic (results : WriteResults) (path : Path) (text : Text) (files : Files) :
    Outcome × Files :=
  if results.dies = some 0 then (.died, files)
  else if ¬ results.directories ∨ ¬ results.created then (.returned false, files)
  else
    let files := Function.update files path.temp (some [])
    if results.dies = some 1 then (.died, files)
    else
      let files := Function.update files path.temp (some (results.written.getD text))
      if results.dies = some 2 then (.died, files)
      else if results.written.isSome then (.returned false, files)
      else
        let files := if results.removed then Function.update files path none else files
        if results.dies = some 3 then (.died, files)
        else
          let files := if results.renamed then
              Function.update (Function.update files path (files path.temp)) path.temp none
            else files
          if results.dies = some 4 then (.died, files) else (.returned results.renamed, files)

def ReadText (files : Files) (path : Path) : Text := (files path).getD []

/-- The value of the first line with the key. -/
def ReadKey (text : Text) (wanted : String) : Text :=
  ((text.splitOn newline).findSome? fun line =>
    let line := if line.getLast? = some carriageReturn then line.dropLast else line
    let key := wanted.toList ++ ['=']
    if key <+: line then some (line.drop key.length) else none).getD []

/-! ## The session -/

structure ActiveSession where
  id : Text
  metadata : SupportSessionMetadata
  last_checkpoint_wall_ms : Int

/-- A process that is not alive does nothing any more. -/
structure State where
  files : Files
  s_session : Option ActiveSession
  alive : Bool

def ActiveMarker : Path := ⟨[], "active-session.txt".toList⟩

def sessionDir (id : Text) : Text := "sessions/".toList ++ id

def summaryPath (id : Text) : Path := ⟨sessionDir id, "summary.json".toList⟩

def checkpointPath (id : Text) : Path := ⟨sessionDir id, "checkpoint.json".toList⟩

/-- A line of the marker. -/
def keyLine (key : String) (value : Text) : Text := key.toList ++ ['='] ++ value ++ [newline]

def marker (id : Text) (started_epoch : Int) : Text :=
  keyLine "session_dir" (sessionDir id) ++ keyLine "session_id" id ++
    keyLine "started_epoch" (printInt started_epoch)

namespace State

/-- A call of `WriteTextAtomic`, with what it returns. -/
def write (results : WriteResults) (path : Path) (text : Text) (s : State) : Bool × State :=
  if s.alive then
    match WriteTextAtomic results path text s.files with
    | (.returned succeeded, files) => (succeeded, { s with files })
    | (.died, files) => (false, { s with files, alive := false })
  else (false, s)

end State

section
variable (build : BuildInfo)

structure EndResults where
  telemetry : WriteResults
  metrics : WriteResults
  checkpoint : WriteResults
  summary : WriteResults
  /-- the removal of the marker; `none` when the process dies before it -/
  marker : Option Bool

/-- The texts of the files at the end. -/
structure EndTexts where
  telemetry : Text
  metrics_csv : Text
  checkpoint : Text
  rest : Text

def EndSupportSession (results : EndResults) (texts : EndTexts) (s : State) : State :=
  match s.s_session with
  | none => s
  | some session =>
      let s := if texts.telemetry = [] then s
        else (s.write results.telemetry ⟨sessionDir session.id, "telemetry.log".toList⟩
          texts.telemetry).2
      let s := if texts.metrics_csv = [] then s
        else (s.write results.metrics ⟨sessionDir session.id, "metrics.csv".toList⟩
          texts.metrics_csv).2
      let s := (s.write results.checkpoint (checkpointPath session.id) texts.checkpoint).2
      let s := (s.write results.summary (summaryPath session.id)
        (SummaryJson build session.id session.metadata texts.rest)).2
      if s.alive then
        match results.marker with
        | none => { s with alive := false }
        | some removed =>
            { s with
              files := if removed then Function.update s.files ActiveMarker none else s.files
              s_session := none }
      else s

def UpdateSupportClockReadings (results : WriteResults) (rest : Text) (s : State) : State :=
  match s.s_session with
  | none => s
  | some session => (s.write results (summaryPath session.id)
      (SummaryJson build session.id session.metadata rest)).2

def AppendSupportTelemetry (results : WriteResults) (wall_ms : Int) (checkpoint : Text)
    (s : State) : State :=
  match s.s_session with
  | none => s
  | some session =>
      if session.last_checkpoint_wall_ms = 0 ∨
          CHECKPOINT_INTERVAL_MS ≤ wall_ms - session.last_checkpoint_wall_ms then
        let s := (s.write results (checkpointPath session.id) checkpoint).2
        { s with s_session := some { session with last_checkpoint_wall_ms := wall_ms } }
      else s

/-- What `BeginSupportSession` gets from the file system. -/
structure BeginResults where
  superseded : EndResults
  directories : Bool
  session_directory : Bool
  summary : WriteResults
  settings : WriteResults
  marker : WriteResults
  error : WriteResults

structure BeginTexts where
  superseded : EndTexts
  rest : Text
  switch_ini : Text
  error : Text

def sessionId (metadata : SupportSessionMetadata) (started_epoch : Int) (tick : Nat) : Text :=
  printInt started_epoch ++ '-' ::
    (Sanitize (if metadata.game_id = [] then "EXEC".toList else metadata.game_id) ++
      '-' :: Nat.toDigits 10 tick)

/-- The files of a session that is active. -/
def startSession (results : BeginResults) (texts : BeginTexts) (session : ActiveSession)
    (started_epoch : Int) (s : State) : Bool × State :=
  let s := { s with s_session := some session }
  let s := (s.write results.summary (summaryPath session.id)
    (SummaryJson build session.id session.metadata texts.rest)).2
  let s := (s.write results.settings ⟨sessionDir session.id, "settings.ini".toList⟩
    (if texts.switch_ini = [] then
      "# switch.ini snapshot unavailable".toList ++ [newline] else texts.switch_ini)).2
  match s.write results.marker ActiveMarker (marker session.id started_epoch) with
  | (true, s) => (true, s)
  | (false, s) =>
      let s := (s.write results.error (summaryPath session.id)
        (SummaryJson build session.id session.metadata texts.error)).2
      (false, { s with s_session := none })

def BeginSupportSession (results : BeginResults) (texts : BeginTexts)
    (metadata : SupportSessionMetadata) (started_epoch : Int) (tick : Nat) (s : State) :
    Bool × State :=
  let s := if s.s_session.isSome then EndSupportSession build results.superseded texts.superseded s
    else s
  if ¬ results.directories then (false, s)
  else if ¬ results.session_directory then (false, { s with s_session := none })
  else
    startSession build results texts ⟨sessionId metadata started_epoch tick, metadata, 0⟩
      started_epoch s

end

/-! ## The next launch -/

structure RecoverResults where
  summary : WriteResults
  removed : Bool

/-- The text of a summary that was not there. -/
def fallback (exit_reason exit_input : Text) : Text :=
  openBrace :: field "status" (Value.text "abnormal_exit".toList).print ++
    ',' :: field "exit_reason" (quote :: exit_reason ++ [quote]) ++
    ',' :: field "exit_input" (quote :: exit_input ++ [quote]) ++
    ',' :: field "recovered_on_next_launch" "true".toList ++ close

section
variable {Double : Type} (numbers : Numbers Double)

/-- The text that a recovery writes. `now` is the time of it. -/
def recovered (crash_evidence : Bool) (now : Double) (prior_summary checkpoint : Text) : Text :=
  let exit_reason := (if crash_evidence then "crash" else "unfinalized_process_exit").toList
  let exit_input := (if crash_evidence then "none" else "unknown").toList
  if prior_summary ≠ [] then
    ReplaceJsonNumber
      (RecoverSummary numbers prior_summary checkpoint exit_reason exit_input crash_evidence)
      "ended_epoch" (numbers.print true now)
  else fallback exit_reason exit_input

def RecoverInterruptedSupportSession (results : RecoverResults) (crash_evidence : Bool)
    (now : Double) (files : Files) : Files :=
  match files ActiveMarker with
  | none => files
  | some text =>
      let relative := ReadKey text "session_dir"
      let (outcome, files) :=
        if relative ≠ [] then
          WriteTextAtomic results.summary ⟨relative, "summary.json".toList⟩
            (recovered numbers crash_evidence now
              (ReadText files ⟨relative, "summary.json".toList⟩)
              (ReadText files ⟨relative, "checkpoint.json".toList⟩)) files
        else (.returned true, files)
      if outcome ≠ .died ∧ results.removed then Function.update files ActiveMarker none else files

end

/-! ## Runs of a session -/

/-- A call once the session is begun, with the results of its writes. -/
inductive Action where
  | appendSupportTelemetry (results : WriteResults) (wall_ms : Int) (checkpoint : Text)
  | updateSupportClockReadings (results : WriteResults) (rest : Text)
  | endSupportSession (results : EndResults) (texts : EndTexts)

def step (build : BuildInfo) (action : Action) (s : State) : Option State :=
  match action with
  | .appendSupportTelemetry results wall_ms checkpoint =>
      some (AppendSupportTelemetry results wall_ms checkpoint s)
  | .updateSupportClockReadings results rest =>
      some (UpdateSupportClockReadings build results rest s)
  | .endSupportSession results texts => some (EndSupportSession build results texts s)

end Phocoena.SupportDiagnostics
