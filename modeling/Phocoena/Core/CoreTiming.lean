import Phocoena.Lib.Heap
import Phocoena.Lib.Runs
import Mathlib.Algebra.Order.Ring.Int
import Mathlib.Data.Prod.Lex

/-! # The event queue

`CoreTimingManager` at overclock factor 1, where cycles and downcount are the same. The time
base is in `global_timer`, `slice_length` and `downcount`. The signed counters are unbounded:
where one would overflow the program has no defined behaviour. `MoveEvents` is one step, since
an event that another thread pushes during its loop is moved as if it was pushed before it.
-/

namespace Phocoena.CoreTiming

def MAX_SLICE_LENGTH : Int := 20000

/-- An unsigned 64-bit value as a signed one. -/
def s64 (x : Int) : Int := x.bmod (2 ^ 64)

structure Event (EventType : Type) where
  time : Int
  fifo_order : Nat
  userdata : Nat
  type : EventType
  /-- which call of `ScheduleEvent` it is from -/
  id : Nat
  /-- the time that was asked for, in unbounded arithmetic -/
  due : Int

/-- Events are sorted by time, and in the order they were added where the times are the same. -/
def Event.key {EventType : Type} (ev : Event EventType) : ℤ ×ₗ ℕ := toLex (ev.time, ev.fifo_order)

/-- A callback, as `Advance` calls it. -/
structure Call (EventType : Type) where
  event : Event EventType
  global_timer : Int
  /-- the queue that the event was picked from -/
  m_event_queue : List (Event EventType)

/-- Where the CPU thread is. -/
inductive Phase where
  /-- before the first `Advance` -/
  | starting
  /-- between two of them -/
  | running
  /-- in the loop of `Advance` -/
  | advancing
  /-- in a callback that the loop has called -/
  | callback
  deriving DecidableEq

structure State (EventType : Type) where
  global_timer : Int
  slice_length : Int
  downcount : Int
  m_idled_cycles : Int
  m_is_global_timer_sane : Bool
  m_event_queue : List (Event EventType)
  m_event_fifo_id : Nat
  m_ts_queue : List (Event EventType)
  phase : Phase
  /-- how many events have been scheduled -/
  scheduled : Nat
  calls : List (Call EventType)
  removed : List (Event EventType)

/-- The state that `Init` leaves. -/
def init {EventType : Type} : State EventType where
  global_timer := 0
  slice_length := MAX_SLICE_LENGTH
  downcount := MAX_SLICE_LENGTH
  m_idled_cycles := 0
  m_is_global_timer_sane := true
  m_event_queue := []
  m_event_fifo_id := 0
  m_ts_queue := []
  phase := .starting
  scheduled := 0
  calls := []
  removed := []

inductive Action (EventType : Type) where
  | scheduleEvent (cycles_into_future : Int) (type : EventType) (userdata : Nat)
  | scheduleEventNonCPU (cycles_into_future : Int) (type : EventType) (userdata : Nat)
  | removeEvent (type : EventType)
  | removeAllEvents (type : EventType)
  | forceExceptionCheck (cycles : Int)
  | adjustEventQueueTimes (new_ppc_clock old_ppc_clock : Nat)
  | idle
  /-- instructions that take this many cycles -/
  | execute (cycles : Nat)
  /-- `Advance` up to its loop -/
  | advance
  /-- a round of the loop, up to the callback -/
  | callBack
  | callbackReturns
  /-- `Advance` from its loop on -/
  | endAdvance

/-- The cycles of the emulated CPU that go by. -/
def Action.TakesTime {EventType : Type} : Action EventType → Prop
  | .idle | .execute _ => True
  | _ => False

section
variable {EventType : Type}

def getTicks (s : State EventType) : Int :=
  if s.m_is_global_timer_sane then s.global_timer
  else s.global_timer + (s.slice_length - s.downcount)

def forceExceptionCheck (cycles : Int) (s : State EventType) : State EventType :=
  if max 0 cycles < s.downcount then
    { s with
      slice_length := s.slice_length - (s.downcount - max 0 cycles)
      downcount := max 0 cycles }
  else s

def idle (s : State EventType) : State EventType :=
  { s with m_idled_cycles := s.m_idled_cycles + s.downcount, downcount := 0 }

/-- A time after the clock has changed. -/
def rescale (ticks : Int) (new_ppc_clock old_ppc_clock : Nat) (time : Int) : Int :=
  ticks + ((time - ticks) * new_ppc_clock).tdiv old_ppc_clock

def adjustEventQueueTimes (new_ppc_clock old_ppc_clock : Nat) (s : State EventType) :
    State EventType :=
  let rescaled := rescale s.global_timer new_ppc_clock old_ppc_clock
  { s with m_event_queue := s.m_event_queue.map fun ev =>
      { ev with time := rescaled ev.time, due := rescaled ev.due } }

variable (heaps : HeapAlgorithms (@Event.key EventType))

/-- The queue with one more event, under the next `fifo_order`. -/
def pushEvent (ev : Event EventType) (s : State EventType) : State EventType :=
  { s with
    m_event_queue :=
      heaps.push_heap (s.m_event_queue ++ [{ ev with fifo_order := s.m_event_fifo_id }])
    m_event_fifo_id := (s.m_event_fifo_id + 1) % 2 ^ 64 }

/-- `ScheduleEvent` from the CPU thread. -/
def scheduleEvent (cycles_into_future : Int) (type : EventType) (userdata : Nat)
    (s : State EventType) : State EventType :=
  let timeout := s64 (getTicks s + cycles_into_future)
  let forced := if s.m_is_global_timer_sane then s else forceExceptionCheck cycles_into_future s
  pushEvent heaps
    { time := timeout, fifo_order := 0, userdata, type, id := s.scheduled
      due := getTicks s + cycles_into_future }
    { forced with scheduled := s.scheduled + 1 }

/-- `ScheduleEvent` from another thread. -/
def scheduleEventNonCPU (cycles_into_future : Int) (type : EventType) (userdata : Nat)
    (s : State EventType) : State EventType :=
  { s with
    m_ts_queue := s.m_ts_queue ++ [
      { time := cycles_into_future, fifo_order := 0, userdata, type, id := s.scheduled
        due := cycles_into_future }]
    scheduled := s.scheduled + 1 }

/-- A round of the loop of `MoveEvents`. -/
def moveEvent (s : State EventType) (ev : Event EventType) : State EventType :=
  pushEvent heaps { ev with time := ev.time + s.global_timer, due := ev.due + s.global_timer } s

def moveEvents (s : State EventType) : State EventType :=
  { s.m_ts_queue.foldl (moveEvent heaps) s with m_ts_queue := [] }

/-- `Advance` up to its loop. -/
def advance (s : State EventType) : State EventType :=
  let moved := moveEvents heaps s
  { moved with
    global_timer := moved.global_timer + (moved.slice_length - moved.downcount)
    slice_length := MAX_SLICE_LENGTH
    m_is_global_timer_sane := true
    phase := .advancing }

/-- A round of the loop of `Advance`, up to the callback. -/
def callBack (s : State EventType) : Option (State EventType) :=
  match s.m_event_queue with
  | [] => none
  | evt :: _ =>
      if evt.time ≤ s.global_timer then
        some { s with
          m_event_queue := (heaps.pop_heap s.m_event_queue).dropLast
          phase := .callback
          calls := s.calls ++ [⟨evt, s.global_timer, s.m_event_queue⟩] }
      else none

/-- `Advance` from its loop on. -/
def endAdvance (s : State EventType) : Option (State EventType) :=
  match s.m_event_queue with
  | [] => some { s with
      m_is_global_timer_sane := false, downcount := s.slice_length, phase := .running }
  | evt :: _ =>
      if evt.time ≤ s.global_timer then none
      else
        let slice_length := min (evt.time - s.global_timer) MAX_SLICE_LENGTH
        some { s with
          m_is_global_timer_sane := false, slice_length, downcount := slice_length
          phase := .running }

variable [DecidableEq EventType]

def removeEvent (type : EventType) (s : State EventType) : State EventType :=
  let kept := s.m_event_queue.filter fun e => e.type ≠ type
  let erased := s.m_event_queue.filter fun e => e.type = type
  { s with
    m_event_queue := if erased.length ≠ 0 then heaps.make_heap kept else kept
    removed := s.removed ++ erased }

def removeAllEvents (type : EventType) (s : State EventType) : State EventType :=
  removeEvent heaps type (moveEvents heaps s)

/-- The CPU thread calls in from the code it executes and from the callbacks. Other threads
schedule events at any time. -/
def step (action : Action EventType) (s : State EventType) : Option (State EventType) :=
  match action with
  | .scheduleEventNonCPU cycles_into_future type userdata =>
      some (scheduleEventNonCPU cycles_into_future type userdata s)
  | .scheduleEvent cycles_into_future type userdata =>
      if s.phase = .advancing then none
      else some (scheduleEvent heaps cycles_into_future type userdata s)
  | .removeEvent type =>
      if s.phase = .advancing then none else some (removeEvent heaps type s)
  | .removeAllEvents type =>
      if s.phase = .advancing then none else some (removeAllEvents heaps type s)
  | .forceExceptionCheck cycles =>
      if s.phase = .advancing then none else some (forceExceptionCheck cycles s)
  | .adjustEventQueueTimes new_ppc_clock old_ppc_clock =>
      -- a division by zero is not defined
      if s.phase = .advancing ∨ old_ppc_clock = 0 then none
      else some (adjustEventQueueTimes new_ppc_clock old_ppc_clock s)
  | .idle => if s.phase = .running then some (idle s) else none
  | .execute cycles =>
      if s.phase = .running then some { s with downcount := s.downcount - cycles } else none
  | .advance =>
      if s.phase = .starting ∨ s.phase = .running then some (advance heaps s) else none
  | .callBack => if s.phase = .advancing then callBack heaps s else none
  | .callbackReturns =>
      if s.phase = .callback then some { s with phase := .advancing } else none
  | .endAdvance => if s.phase = .advancing then endAdvance s else none

end

end Phocoena.CoreTiming
