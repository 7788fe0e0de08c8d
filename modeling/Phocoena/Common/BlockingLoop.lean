import Mathlib.Logic.Function.Basic

/-! # The blocking loop

`Common::BlockingLoop` as a system of one worker and any number of other threads. Each access to an
atomic, a flag or an event is one step, and the steps of the threads come in any order.
-/

namespace Phocoena.BlockingLoop

def STATE_SLEEPING : Int := 0
def STATE_DONE : Int := 1
def STATE_LAST_EXECUTION : Int := 2
def STATE_NEED_EXECUTION : Int := 3

/-- Where the worker is. -/
inductive Worker where
  /-- It has not called `Run`, or it has returned. -/
  | outside
  /-- `Prepare` of `Run`, before it has `m_prepare_lock`. -/
  | prepareLock
  /-- `Prepare` of `Run`, with the lock. -/
  | preparing
  /-- `while (!m_shutdown.IsSet())` -/
  | check
  /-- In the payload. -/
  | payload
  /-- `switch (m_running_state.load())` -/
  | load
  /-- `case STATE_NEED_EXECUTION` -/
  | need
  /-- `case STATE_LAST_EXECUTION` -/
  | last
  /-- `m_done_event.Set()` of that case. -/
  | setDone
  /-- `case STATE_DONE` -/
  | maySleep
  /-- `if (m_running_state-- != STATE_DONE)` -/
  | trySleep
  /-- `case STATE_SLEEPING`, with no timeout. -/
  | sleep
  /-- `m_running_state.store(STATE_DONE)` behind the loop. -/
  | exitStore
  /-- `m_stopped.Set()` behind the loop. -/
  | exitStopped
  /-- `m_done_event.Set()` behind the loop. -/
  | exitDone
deriving DecidableEq

/-- How far the owner of `m_prepare_lock` has come in `Prepare`. -/
inductive Preparation where
  | test
  | store
  | clear
  | maySleep
  | unlock
deriving DecidableEq

/-- The members of the loop, the worker, and what has happened so far. -/
structure Loop where
  m_stopped : Bool
  m_shutdown : Bool
  m_may_sleep : Bool
  m_new_work_event : Bool
  m_done_event : Bool
  m_running_state : Int
  m_wait_lock : Bool
  m_prepare_lock : Option Preparation
  worker : Worker
  /-- The number of payload runs that have started. -/
  starts : Nat
  /-- The number of payload runs that are complete. -/
  completed : Nat
  /-- The number of the payload run that the calls of `Wakeup` have asked for: the next one when
  the last of them found or made the state `STATE_NEED_EXECUTION`. -/
  due : Nat
  /-- The same number when the last `Wakeup` returned. -/
  returned : Nat
  /-- How often the worker has set `m_stopped`. -/
  exits : Nat
  /-- How often a `Stop` has set `m_shutdown`. -/
  stops : Nat

/-- A loop that has been constructed. -/
def Loop.initial : Loop :=
  { m_stopped := true
    m_shutdown := false
    m_may_sleep := false
    m_new_work_event := false
    m_done_event := false
    m_running_state := STATE_SLEEPING
    m_wait_lock := false
    m_prepare_lock := none
    worker := .outside
    starts := 0
    completed := 0
    due := 0
    returned := 0
    exits := 0
    stops := 0 }

/-- One step of `Prepare` behind the lock. -/
def Loop.prepareStep (l : Loop) : Preparation → Loop
  | .test =>
      if l.m_stopped then { l with m_stopped := false, m_prepare_lock := some .store }
      else { l with m_prepare_lock := some .unlock }
  | .store => { l with m_running_state := STATE_LAST_EXECUTION, m_prepare_lock := some .clear }
  | .clear => { l with m_shutdown := false, m_prepare_lock := some .maySleep }
  | .maySleep => { l with m_may_sleep := true, m_prepare_lock := some .unlock }
  | .unlock => { l with m_prepare_lock := none }

/-! ## The worker -/

/-- One step of the worker, if it is not blocked. -/
def workerStep (l : Loop) : Option Loop :=
  match l.worker with
  | .outside => some { l with worker := .prepareLock }
  | .prepareLock =>
      match l.m_prepare_lock with
      | some _ => none
      | none => some { l with m_prepare_lock := some .test, worker := .preparing }
  | .preparing =>
      match l.m_prepare_lock with
      | none => none
      | some .unlock => some { l.prepareStep .unlock with worker := .check }
      | some preparation => some (l.prepareStep preparation)
  | .check =>
      if l.m_shutdown then some { l with worker := .exitStore }
      else some { l with worker := .payload, starts := l.starts + 1 }
  | .payload => some { l with worker := .load, completed := l.completed + 1 }
  | .load =>
      if l.m_running_state = STATE_NEED_EXECUTION then some { l with worker := .need }
      else if l.m_running_state = STATE_LAST_EXECUTION then some { l with worker := .last }
      else if l.m_running_state = STATE_DONE then some { l with worker := .maySleep }
      else if l.m_running_state = STATE_SLEEPING then some { l with worker := .sleep }
      else some { l with worker := .check }
  | .need => some { l with m_running_state := l.m_running_state - 1, worker := .check }
  | .last =>
      if l.m_running_state ≠ STATE_LAST_EXECUTION then
        some { l with m_running_state := l.m_running_state - 1, worker := .check }
      else some { l with m_running_state := l.m_running_state - 1, worker := .setDone }
  | .setDone => some { l with m_done_event := true, worker := .maySleep }
  | .maySleep =>
      if l.m_may_sleep then some { l with m_may_sleep := false, worker := .trySleep }
      else some { l with worker := .check }
  | .trySleep =>
      if l.m_running_state ≠ STATE_DONE then
        some { l with m_running_state := l.m_running_state - 1, worker := .check }
      else some { l with m_running_state := l.m_running_state - 1, worker := .sleep }
  | .sleep =>
      if l.m_new_work_event then some { l with m_new_work_event := false, worker := .check }
      else none
  | .exitStore => some { l with m_running_state := STATE_DONE, worker := .exitStopped }
  | .exitStopped => some { l with m_stopped := true, worker := .exitDone, exits := l.exits + 1 }
  | .exitDone => some { l with m_done_event := true, worker := .outside }

/-! ## The other threads -/

inductive WakeupPlace where
  | load
  | exchange
  | set
deriving DecidableEq

inductive WaitPlace where
  /-- The first `IsDone`, which looks at `m_stopped` and then at the state. -/
  | stopped
  | state
  | lock
  /-- `while (!IsDone())` -/
  | loopStopped
  | loopState
  | event
  | maySleep
  | unlock
deriving DecidableEq

/-- What a call of `Stop` has seen: how often the worker had set `m_stopped` when the call found it
clear, and whether no `Prepare` still had to clear `m_shutdown` when the call set it. -/
structure StopRecord where
  exits : Nat
  clean : Bool
deriving DecidableEq

/-- Where another thread is. `Stop` goes on with `Wakeup` and with `Wait`. -/
inductive Thread where
  | idle
  | wakeup (place : WakeupPlace) (stop : Option StopRecord)
  /-- `goal` is the payload run that was due when `Wait` began, and `live` says that the loop was
  not stopped then. -/
  | wait (place : WaitPlace) (goal : Nat) (live : Bool) (stop : Option StopRecord)
  | allowSleep
  | prepareLock
  | preparing
  /-- `if (m_stopped.IsSet())` of `Stop`. -/
  | stopTest
  /-- `m_shutdown.Set()` of `Stop`. -/
  | stopSet (exits : Nat)
  /-- `Wait` has returned. -/
  | waited (goal : Nat) (live : Bool)
  /-- `Stop` has returned from its `Wait`. -/
  | stopped (stop : StopRecord)
deriving DecidableEq

inductive Call where
  | Wakeup
  | Wait
  | AllowSleep
  | Prepare
  | Stop
deriving DecidableEq

/-- The state is `STATE_NEED_EXECUTION`, for the sake of a `Wakeup`. -/
def Loop.mark (l : Loop) : Loop :=
  { l with m_running_state := STATE_NEED_EXECUTION, due := l.starts + 1 }

def Loop.wakeupReturns (l : Loop) : Loop :=
  { l with returned := l.starts + 1 }

/-- One step of `Wakeup`; without a next place it has returned. -/
def wakeupStep (l : Loop) : WakeupPlace → Option WakeupPlace × Loop
  | .load =>
      if STATE_NEED_EXECUTION ≤ l.m_running_state then
        (none, { l with due := l.starts + 1 }.wakeupReturns)
      else (some .exchange, l)
  | .exchange =>
      if l.m_running_state ≠ STATE_SLEEPING then (none, l.mark.wakeupReturns)
      else (some .set, l.mark)
  | .set => (none, { l with m_new_work_event := true }.wakeupReturns)

/-- One step of `Wait`, if it is not blocked; without a next place it has returned. -/
def waitStep (l : Loop) : WaitPlace → Option (Option WaitPlace × Loop)
  | .stopped => some (if l.m_stopped then (none, l) else (some .state, l))
  | .state => some (if l.m_running_state ≤ STATE_DONE then (none, l) else (some .lock, l))
  | .lock =>
      if l.m_wait_lock then none else some (some .loopStopped, { l with m_wait_lock := true })
  | .loopStopped => some (if l.m_stopped then (some .maySleep, l) else (some .loopState, l))
  | .loopState =>
      some (if l.m_running_state ≤ STATE_DONE then (some .maySleep, l) else (some .event, l))
  | .event =>
      if l.m_done_event then some (some .loopStopped, { l with m_done_event := false }) else none
  | .maySleep => some (some .unlock, { l with m_may_sleep := true })
  | .unlock => some (none, { l with m_wait_lock := false })

/-- A `Wait` that begins. -/
def beginWait (l : Loop) (stop : Option StopRecord) : Thread :=
  .wait .stopped l.due (!l.m_stopped) stop

/-- No `Prepare` is between taking `m_stopped` and clearing `m_shutdown`. -/
def Loop.clean (l : Loop) : Bool :=
  l.m_prepare_lock ≠ some .store && l.m_prepare_lock ≠ some .clear

/-- One step of a thread in a call, if it is not blocked. -/
def threadStep (l : Loop) : Thread → Option (Thread × Loop)
  | .idle => none
  | .waited _ _ => none
  | .stopped _ => none
  | .wakeup place stop =>
      match wakeupStep l place with
      | (some next, l') => some (.wakeup next stop, l')
      | (none, l') =>
          match stop with
          | none => some (.idle, l')
          | some r => some (beginWait l' (some r), l')
  | .wait place goal live stop =>
      (waitStep l place).map fun next =>
        match next with
        | (some next, l') => (.wait next goal live stop, l')
        | (none, l') =>
            match stop with
            | none => (.waited goal live, l')
            | some r => (.stopped r, l')
  | .allowSleep => some (.idle, { l with m_may_sleep := true })
  | .prepareLock =>
      match l.m_prepare_lock with
      | some _ => none
      | none => some (.preparing, { l with m_prepare_lock := some .test })
  | .preparing =>
      match l.m_prepare_lock with
      | none => none
      | some .unlock => some (.idle, l.prepareStep .unlock)
      | some preparation => some (.preparing, l.prepareStep preparation)
  | .stopTest => if l.m_stopped then some (.idle, l) else some (.stopSet l.exits, l)
  | .stopSet exits =>
      some (.wakeup .load (some ⟨exits, l.clean⟩),
        { l with m_shutdown := true, stops := l.stops + 1 })

/-- A thread that is in no call begins one. -/
def beginCall (l : Loop) : Call → Thread
  | .Wakeup => .wakeup .load none
  | .Wait => beginWait l none
  | .AllowSleep => .allowSleep
  | .Prepare => .prepareLock
  | .Stop => .stopTest

def Thread.resting : Thread → Bool
  | .idle => true
  | .waited _ _ => true
  | .stopped _ => true
  | _ => false

/-! ## The system -/

structure System (ι : Type) where
  loop : Loop
  threads : ι → Thread

variable {ι : Type} [DecidableEq ι]

def System.initial : System ι := ⟨Loop.initial, fun _ => .idle⟩

inductive Action (ι : Type) where
  | worker
  | call (i : ι) (c : Call)
  | thread (i : ι)

def step (a : Action ι) (s : System ι) : Option (System ι) :=
  match a with
  | .worker => (workerStep s.loop).map fun l => { s with loop := l }
  | .call i c =>
      if (s.threads i).resting then
        some { s with threads := Function.update s.threads i (beginCall s.loop c) }
      else none
  | .thread i =>
      (threadStep s.loop (s.threads i)).map fun next =>
        ⟨next.2, Function.update s.threads i next.1⟩

end Phocoena.BlockingLoop
