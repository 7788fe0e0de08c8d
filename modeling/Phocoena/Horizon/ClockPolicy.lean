import Mathlib.Logic.Function.Basic

/-! # Clock policy

A session asks a clock manager for processor and graphics rates and gives them back. The manager
keeps an override word for each module; other parties write these words between any two calls,
and every call can fail.
-/

namespace Phocoena.Horizon.PhocoenaClock

/-! ## Policy -/

def PERFORMANCE_CPU_TARGET_HZ : Nat := 1785000000
def PERFORMANCE_GPU_TARGET_HZ : Nat := 768000000
def LEGACY_CPU_TARGET_HZ : Nat := 1581000000
def LEGACY_GPU_TARGET_HZ : Nat := 614400000

inductive Profile where
  | Performance
  | Legacy
deriving DecidableEq, Repr

inductive Domain where
  | CPU
  | GPU
deriving DecidableEq, Repr

structure ClockTargets where
  cpu_hz : Nat
  gpu_hz : Nat

def targetsForProfile : Profile → ClockTargets
  | .Legacy => ⟨LEGACY_CPU_TARGET_HZ, LEGACY_GPU_TARGET_HZ⟩
  | .Performance => ⟨PERFORMANCE_CPU_TARGET_HZ, PERFORMANCE_GPU_TARGET_HZ⟩

def ClockTargets.of (targets : ClockTargets) : Domain → Nat
  | .CPU => targets.cpu_hz
  | .GPU => targets.gpu_hz

def selectNearestAtOrBelow (rates : List Nat) (target_hz : Nat) : Nat :=
  rates.foldl
    (fun selected rate => if rate ≠ 0 ∧ rate ≤ target_hz then max selected rate else selected) 0

def controlStillOwned (current_hz requested_hz : Nat) : Bool := current_hz == requested_hz

theorem selectNearestAtOrBelow_le (rates : List Nat) (target_hz : Nat) :
    selectNearestAtOrBelow rates target_hz ≤ target_hz := by
  suffices ∀ selected ≤ target_hz, rates.foldl (fun selected rate =>
      if rate ≠ 0 ∧ rate ≤ target_hz then max selected rate else selected) selected ≤ target_hz from
    this 0 (Nat.zero_le _)
  induction rates with
  | nil => exact fun selected le => le
  | cons rate rates ih =>
      intro selected le
      rw [List.foldl_cons]
      apply ih
      split <;> omega

/-! ## The clock manager -/

def CPU_INDEX : Nat := 0
def GPU_INDEX : Nat := 1
def MEMORY_INDEX : Nat := 2
def SYSCLK_FREQ_LIST_MAX : Nat := 32

def index : Domain → Nat
  | .CPU => CPU_INDEX
  | .GPU => GPU_INDEX

/-- Who wrote the value that a word holds; another party may have done so after the context was
read for the last time. -/
inductive Holder where
  | initial
  | session
  | other (late : Bool)
deriving DecidableEq, Repr

/-- An override word, and what happened to it since the session read its context first. -/
structure Word where
  hz : Nat
  holder : Holder := .initial
  previous : Nat := hz
  requested : Nat := 0
  written : Bool := false
  restoreFailed : Bool := false
deriving DecidableEq, Repr

inductive Event where
  | request (backend : Nat) (profile : Profile) (domain : Domain) (hz : Nat)
  | setOverride (backend module hz : Nat)
  | restore (backend : Nat) (domain : Domain)
  | release (backend : Nat)
deriving DecidableEq, Repr

/-- What a call meets: the words that others write before it, its result (zero for success),
whether a write that fails takes effect nonetheless, and the reply to a query of rates. -/
structure Outcome where
  others : List (Nat × Nat) := []
  result : Nat := 0
  effective : Bool := false
  rates : List Nat := []
  count : Nat := 0

structure World where
  word : Nat → Word
  outcomes : Nat → Outcome
  calls : Nat := 0
  backends : Nat := 0
  /-- the context has been read to release the session's requests -/
  contextRead : Bool := false
  log : List Event := []

namespace World

def initial (overrides : Nat → Nat) (outcomes : Nat → Outcome) : World :=
  { word := fun module => { hz := overrides module }, outcomes }

def change (w : World) (write : Nat × Nat) : World :=
  let word := { w.word write.1 with hz := write.2, holder := .other w.contextRead }
  { w with word := Function.update w.word write.1 word }

/-- A call of the manager. -/
def dispatch (w : World) : Outcome × World :=
  let outcome := w.outcomes w.calls
  (outcome, { outcome.others.foldl change w with calls := w.calls + 1 })

def record (w : World) (event : Event) : World := { w with log := w.log ++ [event] }

def setWord (w : World) (domain : Domain) (word : Word) : World :=
  { w with word := Function.update w.word (index domain) word }

end World

/-! ## The backend -/

inductive SysClkFlavor where
  | Official
  | OcSuite
deriving DecidableEq, Repr

structure SysClkBackend where
  id : Nat
  m_flavor : SysClkFlavor
  m_previous_overrides : Domain → Nat := fun _ => 0
  m_requested : Domain → Nat := fun _ => 0
  m_attempted : Domain → Bool := fun _ => false
  m_initialized : Bool := false

def name : Domain → String
  | .CPU => "CPU"
  | .GPU => "GPU"

def hex (n : Nat) : String := String.ofList (Nat.toDigits 16 n)

def resultText (operation : String) (result : Nat) : String :=
  operation ++ " failed: 0x" ++ String.ofList (List.replicate (8 - (hex result).length) '0') ++
    hex result

namespace SysClkBackend

def setOverride (id : Nat) (domain : Domain) (hz : Nat) (w : World) : Nat × World :=
  let (outcome, w) := (w.record (.setOverride id (index domain) hz)).dispatch
  if outcome.result = 0 ∨ outcome.effective then
    (outcome.result, w.setWord domain
      { w.word (index domain) with hz, holder := .session, written := true })
  else (outcome.result, w)

def readContext (flavor : SysClkFlavor) (w : World) : Except String (Domain → Nat) × World :=
  let (outcome, w) := w.dispatch
  if outcome.result ≠ 0 then
    let query := match flavor with
      | .Official => "sys-clk context query"
      | .OcSuite => "sys-clk-OC context query"
    (.error (resultText query outcome.result), w)
  else (.ok fun domain => (w.word (index domain)).hz, w)

/-- `Initialize` -/
def initializeContext (b : SysClkBackend) (w : World) : Except String SysClkBackend × World :=
  match readContext b.m_flavor w with
  | (.error error, w) => (.error error, w)
  | (.ok overrides, w) =>
      (.ok { b with m_previous_overrides := overrides, m_initialized := true },
        { w with word := fun module => { hz := (w.word module).hz }, contextRead := false })

def getAvailableRates (b : SysClkBackend) (w : World) : Except String (List Nat) × World :=
  let (outcome, w) := w.dispatch
  match b.m_flavor with
  | .Official =>
      if outcome.result ≠ 0 then
        (.error (resultText "sys-clk supported-rate query" outcome.result), w)
      else if SYSCLK_FREQ_LIST_MAX < outcome.count then
        (.error "sys-clk returned an invalid supported-rate count", w)
      else (.ok (outcome.rates.take outcome.count), w)
  | .OcSuite =>
      if outcome.result ≠ 0 then
        (.error (resultText "sys-clk-OC supported-rate query" outcome.result), w)
      else (.ok (outcome.rates.filter (· ≠ 0)), w)

def requestRate (b : SysClkBackend) (profile : Profile) (domain : Domain) (hz : Nat) (w : World) :
    Except String Unit × SysClkBackend × World :=
  let b := { b with
    m_attempted := Function.update b.m_attempted domain true
    m_requested := Function.update b.m_requested domain hz }
  let w := (w.record (.request b.id profile domain hz)).setWord domain
    { w.word (index domain) with requested := hz }
  let (result, w) := setOverride b.id domain hz w
  (if result ≠ 0 then .error (resultText (name domain ++ " override") result) else .ok (), b, w)

/-- One round of the loop of `Release`; `current` are the overrides when they could be read. -/
def releaseDomain (b : SysClkBackend) (current : Option (Domain → Nat)) (domain : Domain)
    (w : World) : Bool × String × SysClkBackend × World :=
  if b.m_attempted domain = false then (true, "", b, w)
  else
    let released := { b with m_attempted := Function.update b.m_attempted domain false }
    if ∃ overrides ∈ current,
        controlStillOwned (overrides domain) (b.m_requested domain) = false then
      (true, name domain ++ " changed externally; preserved current override; ", released, w)
    else
      let (result, w) := setOverride b.id domain (b.m_previous_overrides domain)
        (w.record (.restore b.id domain))
      if result ≠ 0 then
        (false, name domain ++ " restore failed 0x" ++ hex result ++ "; ", released,
          w.setWord domain { w.word (index domain) with restoreFailed := true })
      else
        (true, name domain ++ " previous override=" ++
          toString (b.m_previous_overrides domain) ++ " restored; ", released, w)

/-- `Release` -/
def release (b : SysClkBackend) (w : World) : Bool × String × SysClkBackend × World :=
  let w := w.record (.release b.id)
  if b.m_initialized = false ∧ b.m_attempted .CPU = false ∧ b.m_attempted .GPU = false then
    (true, "no clock overrides to release; MEM writes=0", b, w)
  else
    let (current, w) := readContext b.m_flavor w
    let (cpu_restored, cpu_text, b, w) :=
      releaseDomain b current.toOption .CPU { w with contextRead := true }
    let (gpu_restored, gpu_text, b, w) := releaseDomain b current.toOption .GPU w
    let unread := match current with
      | .error read_error =>
          "ownership read unavailable (conservative restore): " ++ read_error ++ "; "
      | .ok _ => ""
    (cpu_restored && gpu_restored, cpu_text ++ gpu_text ++ unread ++ "MEM writes=0",
      { b with m_initialized := false }, w)

/-- `~SysClkBackend` -/
def destroy (b : SysClkBackend) (w : World) : World := (release b w).2.2.2.dispatch.2

end SysClkBackend

/-! ## The session -/

inductive StartStatus where
  | Disabled
  | Active
  | Failed
deriving DecidableEq, Repr

structure StartReport where
  status : StartStatus := .Disabled
  mechanism : String := "disabled"
  external_manager : String := "not checked"
  detail : String := ""
  profile : Profile := .Performance
  requested_cpu_hz : Nat := PERFORMANCE_CPU_TARGET_HZ
  requested_gpu_hz : Nat := PERFORMANCE_GPU_TARGET_HZ
  selected_cpu_hz : Nat := 0
  selected_gpu_hz : Nat := 0
  cpu_requested : Bool := false
  gpu_requested : Bool := false

structure StopReport where
  attempted : Bool := false
  succeeded : Bool := true
  detail : String := ""

/-- What the factory comes back with: a backend it could connect, or why there is none. -/
structure BackendSelection where
  backend : Option SysClkFlavor
  external_manager : String := ""
  error : String := ""

structure Session where
  m_backend : Option SysClkBackend := none
  m_report : StartReport := {}

namespace Session

def isActive (s : Session) : Bool := s.m_report.status == .Active && s.m_backend.isSome

def orElse (text alternative : String) : String := if text.isEmpty then alternative else text

def failAndRelease (s : Session) (detail : String) (w : World) : Session × World :=
  match s.m_backend with
  | none => ({ m_backend := none, m_report := { s.m_report with status := .Failed, detail } }, w)
  | some b =>
      let (released, release_detail, b, w) := b.release w
      let detail := if released then detail else
        (if detail.isEmpty then "" else detail ++ "; ") ++ orElse release_detail "rollback failed"
      ({ m_backend := none, m_report := { s.m_report with status := .Failed, detail } },
        b.destroy w)

/-- The requests of `Start`, once the rates to ask for are known. -/
def requestRates (b : SysClkBackend) (report : StartReport) (w : World) : Session × World :=
  let report := { report with cpu_requested := true }
  match b.requestRate report.profile .CPU report.selected_cpu_hz w with
  | (.error error, b, w) =>
      failAndRelease { m_backend := some b, m_report := report }
        (orElse error "CPU clock request failed") w
  | (.ok _, b, w) =>
    let report := { report with gpu_requested := true }
    match b.requestRate report.profile .GPU report.selected_gpu_hz w with
    | (.error error, b, w) =>
        failAndRelease { m_backend := some b, m_report := report }
          (orElse error "GPU clock request failed; CPU request rolled back") w
    | (.ok _, b, w) =>
        -- `ReadEffective` only decides what the report says
        let (effective, w) := SysClkBackend.readContext b.m_flavor w
        let detail := match effective with
          | .error error => orElse error "requests accepted; effective clock read unavailable"
          | .ok _ => "CPU/GPU requests accepted; memory remained read only"
        ({ m_backend := some b, m_report := { report with status := .Active, detail } }, w)

def start (s : Session) (enabled : Bool) (factory : BackendSelection) (profile : Profile)
    (w : World) : Session × World :=
  if s.isActive then
    ({ s with m_report := { s.m_report with
        detail := "clock session already active; no additional requests made" } }, w)
  else
    let targets := targetsForProfile profile
    let report : StartReport :=
      { profile, requested_cpu_hz := targets.cpu_hz, requested_gpu_hz := targets.gpu_hz }
    if enabled = false then
      ({ s with m_report := { report with
          status := .Disabled, mechanism := "disabled by phocoena_auto_clocks=0"
          external_manager := "not checked", detail := "zero CPU/GPU/MEM clock writes" } }, w)
    else
      let external_manager := orElse factory.external_manager "none detected"
      let report := { report with external_manager }
      match factory.backend with
      | none =>
          ({ s with m_report := { report with
              status := .Failed, mechanism := "none"
              detail := orElse factory.error "no compatible clock-control backend" } }, w)
      | some flavor =>
        let b : SysClkBackend := { id := w.backends, m_flavor := flavor }
        let report := match flavor with
          | .Official => { report with
              mechanism := "sys-clk temporary override IPC API 4"
              external_manager := "sys-clk (sys:clk)" }
          | .OcSuite => { report with
              mechanism := "sys-clk-OC temporary override IPC API 2"
              external_manager := "sys-clk-OC (sysclkOC)" }
        let opened : Session := { m_backend := some b, m_report := report }
        match b.initializeContext { w with backends := w.backends + 1 } with
        | (.error error, w) =>
            failAndRelease opened (orElse error "clock backend initialization failed") w
        | (.ok b, w) =>
          let opened := { opened with m_backend := some b }
          match b.getAvailableRates w with
          | (.error error, w) =>
              failAndRelease opened (orElse error "failed reading supported CPU/GPU rates") w
          | (.ok cpu_rates, w) =>
            match b.getAvailableRates w with
            | (.error error, w) =>
                failAndRelease opened (orElse error "failed reading supported CPU/GPU rates") w
            | (.ok gpu_rates, w) =>
              let report := { report with
                selected_cpu_hz := selectNearestAtOrBelow cpu_rates targets.cpu_hz
                selected_gpu_hz := selectNearestAtOrBelow gpu_rates targets.gpu_hz }
              if report.selected_cpu_hz = 0 ∨ report.selected_gpu_hz = 0 then
                failAndRelease { opened with m_report := report }
                  "no supported CPU/GPU rate exists at or below the requested targets" w
              else requestRates b report w

def stop (s : Session) (w : World) : StopReport × Session × World :=
  match s.m_backend with
  | none => ({}, s, w)
  | some b =>
      let (succeeded, detail, b, w) := b.release w
      let status := if s.m_report.status = .Active then .Disabled else s.m_report.status
      ({ attempted := true, succeeded, detail },
        { m_backend := none, m_report := { s.m_report with status } }, b.destroy w)

/-- `~Session` -/
def destroy (s : Session) (w : World) : World := (s.stop w).2.2

end Session

/-! ## Runs -/

inductive Operation where
  | start (enabled : Bool) (factory : BackendSelection) (profile : Profile)
  | stop

/-- An operation, with what others write until it returns. -/
def Operation.perform : Operation → Session × World → Session × World
  | start enabled factory profile, (s, w) =>
      let (s, w) := s.start enabled factory profile w
      (s, w.dispatch.2)
  | stop, (s, w) =>
      let (_, s, w) := s.stop w
      (s, w.dispatch.2)

def run (operations : List Operation) (w : World) : Session × World :=
  operations.foldl (fun state operation => operation.perform state) ({}, w)

/-- The world after the session is destroyed. -/
def destroyed (state : Session × World) : World := (state.1.destroy state.2).dispatch.2

end Phocoena.Horizon.PhocoenaClock
