import Phocoena.Common.BlockingLoop
import Mathlib.Tactic.SplitIfs

/-! # The invariant of the blocking loop -/

namespace Phocoena.BlockingLoop

/-- Between the start of a payload run and the next look at `m_shutdown`. -/
def Worker.iterating : Worker → Bool
  | .payload | .load | .need | .last | .setDone | .maySleep | .trySleep | .sleep => true
  | _ => false

/-- In the `while` loop. -/
def Worker.inLoop (w : Worker) : Bool := w.iterating || w = .check

/-- Behind the loop, with `m_stopped` not set yet. -/
def Worker.leaving : Worker → Bool
  | .exitStore | .exitStopped => true
  | _ => false

/-- What holds of the members, the worker and the history at any time. -/
structure Inv (l : Loop) : Prop where
  range : 0 ≤ l.m_running_state ∧ l.m_running_state ≤ 3
  due_le : l.due ≤ l.starts + 1
  returned_le : l.returned ≤ l.starts + 1
  runs : l.completed + (if l.worker = .payload then 1 else 0) = l.starts
  need : l.worker = .need → l.m_running_state = 3
  last : l.worker = .last → l.m_running_state = 2 ∨ l.m_running_state = 3
  lowered : l.worker = .setDone ∨ l.worker = .maySleep ∨ l.worker = .trySleep →
    l.m_running_state = 1 ∨ l.m_running_state = 3
  asleep : l.worker = .sleep → l.m_running_state = 0 ∨ l.m_running_state = 3
  /-- In the last execution, every `Wakeup` was before the payload. -/
  current : l.worker.iterating → l.m_running_state = 2 → l.due ≤ l.starts
  /-- When the loop is done, a run has been completed for every `Wakeup`. -/
  served : l.stops = 0 ∨ l.worker.inLoop → l.m_running_state ≤ 1 → l.due ≤ l.completed
  /-- A `Wakeup` that returns in an iteration has left a trace of itself. -/
  noticed : l.worker.iterating → l.returned = l.starts + 1 →
    l.due = l.starts + 1 ∨ l.m_new_work_event = true
  /-- A loop that has been prepared has a payload run before it. -/
  started : l.worker.inLoop = false → l.worker.leaving = false → l.m_stopped = false →
    l.m_prepare_lock ≠ some .store → 2 ≤ l.m_running_state
  /-- The loop is prepared while the worker is not in it. -/
  owned : l.m_prepare_lock = some .store ∨ l.m_prepare_lock = some .clear →
    l.m_stopped = false ∧ l.worker.inLoop = false ∧ l.worker.leaving = false
  own : l.worker = .preparing → l.m_prepare_lock ≠ none → l.m_prepare_lock ≠ some .test →
    l.m_stopped = false
  running : l.worker.inLoop ∨ l.worker.leaving → l.m_stopped = false
  alive : l.stops = 0 → l.m_shutdown = false ∧ l.worker.leaving = false ∧
    l.worker ≠ .exitDone

section Steps

attribute [local simp] Worker.iterating Worker.inLoop Worker.leaving
  STATE_SLEEPING STATE_DONE STATE_LAST_EXECUTION STATE_NEED_EXECUTION

attribute [local grind] Worker.iterating Worker.inLoop Worker.leaving
  STATE_SLEEPING STATE_DONE STATE_LAST_EXECUTION STATE_NEED_EXECUTION

theorem Inv.initial : Inv Loop.initial := by
  constructor <;> simp [Loop.initial]

/-- `Prepare` finds `m_stopped` set and takes it. -/
theorem Inv.prepareTaken {l : Loop} (inv : Inv l) (held : l.m_prepare_lock = some .test)
    (stopped : l.m_stopped = true) :
    Inv { l with m_stopped := false, m_prepare_lock := some .store } := by
  cases inv
  simp [held] at *
  constructor <;> simp <;> grind -ring -linarith

theorem Inv.prepareStore {l : Loop} (inv : Inv l) (held : l.m_prepare_lock = some .store) :
    Inv (l.prepareStep .store) := by
  cases inv
  simp [held] at *
  constructor <;> simp [Loop.prepareStep] <;> grind -ring -linarith

theorem Inv.prepareClear {l : Loop} (inv : Inv l) (held : l.m_prepare_lock = some .clear) :
    Inv (l.prepareStep .clear) := by
  cases inv
  simp [held] at *
  constructor <;> simp [Loop.prepareStep] <;> grind -ring -linarith

/-- The rest of `Prepare` only passes the lock on. -/
theorem Inv.prepareRest {l : Loop} (inv : Inv l) {preparation : Preparation} (m_may_sleep : Bool)
    {next : Option Preparation} (held : l.m_prepare_lock = some preparation)
    (live : preparation = .test → l.m_stopped = false)
    (behind : preparation ≠ .store ∧ preparation ≠ .clear)
    (next_behind : next = some .unlock ∨ next = none) :
    Inv { l with m_may_sleep := m_may_sleep, m_prepare_lock := next } := by
  obtain ⟨range, due_le, returned_le, runs, need, last, lowered, asleep, current, served, noticed,
    started, owned, own, running, alive⟩ := inv
  refine ⟨range, due_le, returned_le, runs, need, last, lowered, asleep, current, served, noticed,
    ?_, ?_, ?_, running, alive⟩
  · intro outside not_leaving not_stopped _
    refine started outside not_leaving not_stopped fun same => ?_
    exact behind.1 (Option.some.inj (held.symm.trans same))
  · rintro (same | same) <;> rcases next_behind with other | other <;>
      cases same.symm.trans other
  · intro preparing _ _
    by_cases test : preparation = .test
    · exact live test
    · refine own preparing ?_ fun same => test (Option.some.inj (held.symm.trans same))
      rw [held]
      exact Option.some_ne_none _

/-- A step of `Prepare`, whoever holds the lock. -/
theorem Inv.prepareStep {l : Loop} (inv : Inv l) {preparation : Preparation}
    (held : l.m_prepare_lock = some preparation) : Inv (l.prepareStep preparation) := by
  cases preparation with
  | test =>
      rw [Loop.prepareStep]
      split
      · next stopped => exact inv.prepareTaken held stopped
      · next live =>
        exact inv.prepareRest l.m_may_sleep held (fun _ => Bool.not_eq_true _ ▸ live) (by simp)
          (.inl rfl)
  | store => exact inv.prepareStore held
  | clear => exact inv.prepareClear held
  | maySleep => exact inv.prepareRest true held (fun same => by cases same) (by simp) (.inl rfl)
  | unlock =>
      exact inv.prepareRest l.m_may_sleep held (fun same => by cases same) (by simp) (.inr rfl)

theorem Inv.workerStep {l l' : Loop} (inv : Inv l) (next : workerStep l = some l') : Inv l' := by
  obtain ⟨range, due_le, returned_le, runs, need, last, lowered, asleep, current, served, noticed,
    started, owned, own, running, alive⟩ := inv
  rw [BlockingLoop.workerStep.eq_def] at next
  cases at_worker : l.worker with
  | outside | payload | need | setDone | exitStore | exitStopped | exitDone =>
      simp only [at_worker, Option.some.injEq] at next
      subst next
      simp only [at_worker] at *
      constructor <;> first | assumption | simp <;> grind -ring -linarith
  | check | load | last | maySleep | trySleep | sleep =>
      simp only [at_worker] at next
      split_ifs at next <;> cases next
      all_goals
        simp only [at_worker] at *
        constructor <;> first | assumption | simp <;> grind -ring -linarith
  | prepareLock =>
      simp only [at_worker] at next
      split at next
      · cases next
      · cases next
        simp only [at_worker] at *
        constructor <;> first | assumption | simp <;> grind -ring -linarith
  | preparing =>
      simp only [at_worker] at next
      split at next
      · cases next
      · next held =>
        cases next
        simp [at_worker, held] at *
        constructor <;> simp [Loop.prepareStep] <;> grind -ring -linarith
      · next held =>
        cases next
        exact Inv.prepareStep ⟨range, due_le, returned_le, runs, need, last, lowered, asleep,
          current, served, noticed, started, owned, own, running, alive⟩ held

end Steps

/-! ## What lasts -/

/-- `m_shutdown` is set, and nobody is about to clear it. -/
def Loop.watched (l : Loop) : Prop :=
  l.m_shutdown = true ∧ l.clean = true ∧ l.m_stopped = false

/-- Besides, the worker will not be done before it sees that. -/
def Loop.marked (l : Loop) : Prop :=
  l.watched ∧ (l.m_running_state = 3 ∨ l.m_running_state = 2 ∧ l.worker.iterating = false)

/-- `Prepare` has taken `m_stopped`, and no `Stop` has set `m_shutdown` since. -/
def Loop.prepared (l : Loop) : Prop :=
  l.m_stopped = false ∧ l.worker.leaving = false ∧
    (l.m_prepare_lock = some .store ∨ l.m_prepare_lock = some .clear ∨ l.m_shutdown = false)

/-- What a step leaves of the things that the threads rely on. -/
structure Later (l l' : Loop) : Prop where
  due : l.due ≤ l'.due
  completed : l.completed ≤ l'.completed
  stops : l.stops ≤ l'.stops
  live : l'.stops = 0 → l.m_stopped = false → l'.m_stopped = false
  exits : l.exits ≤ l'.exits
  stopped : l'.m_stopped = true → l.m_stopped = true ∨ l.exits < l'.exits
  left : l.worker = .exitStopped → l'.worker = .exitStopped ∨ l.exits < l'.exits
  watched : l.watched → l'.watched ∨ l.exits < l'.exits
  marked : l.marked → l'.marked ∨ l'.worker = .exitStopped ∨ l.exits < l'.exits
  prepared : l'.stops = l.stops → l.prepared → l'.prepared

section Steps

attribute [local simp] Worker.iterating Worker.leaving Loop.clean Loop.watched Loop.marked
  Loop.prepared

theorem Later.prepareStep {l : Loop} {preparation : Preparation}
    (held : l.m_prepare_lock = some preparation) : Later l (l.prepareStep preparation) := by
  cases preparation with
  | test =>
      rw [Loop.prepareStep]
      split
      all_goals constructor <;> simp [held] <;> grind -ring -linarith
  | store | clear => constructor <;> simp [Loop.prepareStep, held]
  | maySleep | unlock => constructor <;> simp [Loop.prepareStep, held] <;> grind -ring -linarith

theorem Later.workerStep {l l' : Loop} (inv : Inv l) (next : workerStep l = some l') :
    Later l l' := by
  rw [BlockingLoop.workerStep.eq_def] at next
  cases at_worker : l.worker with
  | outside | payload | setDone | exitStore | exitDone =>
      simp only [at_worker, Option.some.injEq] at next
      subst next
      constructor <;> simp [at_worker]
  | need =>
      simp only [at_worker, Option.some.injEq] at next
      subst next
      constructor <;> simp [at_worker] <;> grind -ring -linarith
  | exitStopped =>
      have alive := inv.alive
      simp only [at_worker, Option.some.injEq] at next
      subst next
      simp [at_worker, Worker.leaving] at alive
      constructor <;> simp [at_worker] <;> grind -ring -linarith
  | check =>
      have owned := inv.owned
      simp [at_worker, Worker.inLoop] at owned
      simp only [at_worker] at next
      split_ifs at next <;> cases next
      all_goals constructor <;> simp [*]
  | load | last | maySleep | trySleep | sleep =>
      simp only [at_worker] at next
      split_ifs at next <;> cases next
      all_goals constructor <;> simp [*] <;> grind -ring -linarith [STATE_LAST_EXECUTION, STATE_DONE]
  | prepareLock =>
      simp only [at_worker] at next
      split at next
      · cases next
      · cases next
        constructor <;> simp [at_worker] <;> grind -ring -linarith
  | preparing =>
      simp only [at_worker] at next
      split at next
      · cases next
      · next held =>
        cases next
        constructor <;> simp [Loop.prepareStep, at_worker, held]
      · next held =>
        cases next
        exact .prepareStep held

end Steps

/-! ## What the other threads do to the loop -/

section Changes

attribute [local simp] Loop.clean Loop.watched Loop.marked Loop.prepared STATE_NEED_EXECUTION

variable {l : Loop}

/-- A change of members on which nothing depends. -/
theorem Inv.frame (inv : Inv l) (m_may_sleep m_done_event m_wait_lock : Bool) :
    let l' := { l with
      m_may_sleep := m_may_sleep, m_done_event := m_done_event, m_wait_lock := m_wait_lock }
    Inv l' ∧ Later l l' := by
  obtain ⟨range, due_le, returned_le, runs, need, last, lowered, asleep, current, served, noticed,
    started, owned, own, running, alive⟩ := inv
  refine ⟨⟨range, due_le, returned_le, runs, need, last, lowered, asleep, current, served, noticed,
    started, owned, own, running, alive⟩, ?_⟩
  constructor <;> simp <;> grind -ring -linarith

theorem Inv.acquire (inv : Inv l) (free : l.m_prepare_lock = none) :
    let l' := { l with m_prepare_lock := some .test }
    Inv l' ∧ Later l l' := by
  constructor
  · cases inv
    constructor <;> simp <;> grind -ring -linarith
  · constructor <;> simp <;> grind -ring -linarith

/-- `Stop` sets `m_shutdown`. -/
theorem Inv.shutdown (inv : Inv l) :
    let l' := { l with m_shutdown := true, stops := l.stops + 1 }
    Inv l' ∧ Later l l' := by
  constructor
  · cases inv
    constructor <;> simp <;> grind -ring -linarith
  · constructor <;> simp <;> grind -ring -linarith

/-- A `Wakeup` makes the state `STATE_NEED_EXECUTION`. -/
theorem Inv.mark (inv : Inv l) : Inv l.mark ∧ Later l l.mark := by
  have due_le := inv.due_le
  constructor
  · obtain ⟨range, -, returned_le, runs, need, last, lowered, asleep, current, served, noticed,
      started, owned, own, running, alive⟩ := inv
    constructor <;> simp [Loop.mark] <;> grind -ring -linarith
  · constructor <;> simp [Loop.mark] <;> grind -ring -linarith

/-- A `Wakeup` returns that has left a trace. -/
theorem Inv.returns (inv : Inv l) (trace : l.due = l.starts + 1 ∨ l.m_new_work_event = true) :
    Inv l.wakeupReturns ∧ Later l l.wakeupReturns := by
  constructor
  · cases inv
    constructor <;> simp [Loop.wakeupReturns] <;> grind -ring -linarith
  · constructor <;> simp [Loop.wakeupReturns] <;> grind -ring -linarith

theorem Inv.newWork (inv : Inv l) :
    let l' := { l with m_new_work_event := true }
    Inv l' ∧ Later l l' := by
  constructor
  · cases inv
    constructor <;> simp <;> grind -ring -linarith
  · constructor <;> simp <;> grind -ring -linarith

/-- A `Wakeup` finds the state `STATE_NEED_EXECUTION`: it might as well have made it. -/
theorem mark_of_need (inv : Inv l) (high : STATE_NEED_EXECUTION ≤ l.m_running_state) :
    { l with due := l.starts + 1 } = l.mark := by
  have same : l.m_running_state = STATE_NEED_EXECUTION := Int.le_antisymm inv.range.2 high
  rw [Loop.mark, ← same]

end Changes

theorem Later.refl (l : Loop) : Later l l := by
  constructor <;> simp <;> grind -ring -linarith

theorem Later.trans {l l' l'' : Loop} (first : Later l l') (second : Later l' l'') :
    Later l l'' := by
  obtain ⟨due, completed, stops, live, exits, stopped, left, watched, marked, prepared⟩ := first
  obtain ⟨due', completed', stops', live', exits', stopped', left', watched', marked', prepared'⟩ :=
    second
  constructor <;> grind -ring -linarith

/-! ## The other threads -/

/-- A `Wait` that began with this goal may return. -/
def Served (l : Loop) (goal : Nat) (live : Bool) : Prop :=
  l.stops = 0 → live = true → goal ≤ l.completed

/-- The worker has set `m_stopped` since the `Stop` began, or is about to. -/
def Left (l : Loop) (stop : StopRecord) : Prop :=
  stop.exits ≤ l.exits ∧
    (stop.clean = true → stop.exits < l.exits ∨ l.worker = .exitStopped)

/-- `Stop` has set `m_shutdown`. -/
def Watched (l : Loop) (stop : StopRecord) : Prop :=
  stop.exits ≤ l.exits ∧ (l.m_stopped = true → stop.exits < l.exits) ∧
    (stop.clean = true → stop.exits < l.exits ∨ l.watched)

/-- `Wakeup` of `Stop` has made the state `STATE_NEED_EXECUTION`. -/
def Marked (l : Loop) (stop : StopRecord) : Prop :=
  stop.exits ≤ l.exits ∧ (l.m_stopped = true → stop.exits < l.exits) ∧
    (stop.clean = true → stop.exits < l.exits ∨ l.worker = .exitStopped ∨ l.marked)

/-- `IsDone` has been true. -/
def WaitPlace.done : WaitPlace → Bool
  | .maySleep | .unlock => true
  | _ => false

/-- What holds for a thread in a `Wait`. -/
structure Waiting (l : Loop) (place : WaitPlace) (goal : Nat) (live : Bool)
    (stop : Option StopRecord) : Prop where
  goal_le : goal ≤ l.due
  running : l.stops = 0 → live = true → l.m_stopped = false
  served : place.done = true → Served l goal live
  marked : ∀ r, stop = some r → Marked l r
  left : ∀ r, stop = some r → place.done = true → Left l r

/-- What holds for a thread wherever it is. -/
def ThreadInv (l : Loop) : Thread → Prop
  | .wakeup .set (some r) => Marked l r
  | .wakeup _ (some r) => Watched l r
  | .wait place goal live stop => Waiting l place goal live stop
  | .stopSet exits => exits ≤ l.exits ∧ (l.m_stopped = true → exits < l.exits)
  | .waited goal live => Served l goal live
  | .stopped r => Left l r
  | _ => True

section Lasting

variable {l l' : Loop} (later : Later l l')
include later

theorem Served.mono {goal : Nat} {live : Bool} (served : Served l goal live) :
    Served l' goal live := fun issued is_live =>
  Nat.le_trans (served (Nat.le_zero.mp (issued ▸ later.stops)) is_live) later.completed

theorem Left.mono {r : StopRecord} (left : Left l r) : Left l' r := by
  have exits := later.exits
  refine ⟨Nat.le_trans left.1 exits, fun clean => ?_⟩
  rcases left.2 clean with before | leaving
  · exact .inl (Nat.lt_of_lt_of_le before exits)
  · rcases later.left leaving with same | more
    · exact .inr same
    · exact .inl (Nat.lt_of_le_of_lt left.1 more)

theorem Watched.mono {r : StopRecord} (watched : Watched l r) : Watched l' r := by
  obtain ⟨le, stopped, clean⟩ := watched
  have exits := later.exits
  have stopped' := later.stopped
  have watched' := later.watched
  refine ⟨by omega, fun set => ?_, fun is_clean => ?_⟩
  · rcases stopped' set with old | more
    · have := stopped old
      omega
    · omega
  · rcases clean is_clean with before | old
    · exact .inl (by omega)
    · rcases watched' old with new | more
      · exact .inr new
      · exact .inl (by omega)

theorem Marked.mono {r : StopRecord} (marked : Marked l r) : Marked l' r := by
  obtain ⟨le, stopped, clean⟩ := marked
  have exits := later.exits
  have stopped' := later.stopped
  refine ⟨by omega, fun set => ?_, fun is_clean => ?_⟩
  · rcases stopped' set with old | more
    · have := stopped old
      omega
    · omega
  · rcases clean is_clean with before | leaving | old
    · exact .inl (by omega)
    · rcases later.left leaving with same | more
      · exact .inr (.inl same)
      · exact .inl (by omega)
    · rcases later.marked old with new | same | more
      · exact .inr (.inr new)
      · exact .inr (.inl same)
      · exact .inl (by omega)

/-- What holds for a thread lasts while others take their steps. -/
theorem ThreadInv.mono {t : Thread} (holds : ThreadInv l t) : ThreadInv l' t := by
  cases t with
  | wakeup place stop =>
      cases stop with
      | none => cases place <;> trivial
      | some r =>
          cases place with
          | load => exact Watched.mono later holds
          | exchange => exact Watched.mono later holds
          | set => exact Marked.mono later holds
  | wait place goal live stop =>
      obtain ⟨goal_le, is_live, served, marked, left⟩ := holds
      exact ⟨Nat.le_trans goal_le later.due,
        fun issued live => later.live issued (is_live (Nat.le_zero.mp (issued ▸ later.stops)) live),
        fun done => (served done).mono later, fun r same => (marked r same).mono later,
        fun r same done => (left r same done).mono later⟩
  | stopSet exits =>
      obtain ⟨le, stopped⟩ := holds
      refine ⟨Nat.le_trans le later.exits, fun set => ?_⟩
      rcases later.stopped set with old | more
      · exact Nat.lt_of_lt_of_le (stopped old) later.exits
      · exact Nat.lt_of_le_of_lt le more
  | waited goal live => exact Served.mono later holds
  | stopped r => exact Left.mono later holds
  | idle => trivial
  | allowSleep => trivial
  | prepareLock => trivial
  | preparing => trivial
  | stopTest => trivial

end Lasting

/-! ## One step -/

/-- What a step of a thread does to the loop and leaves of itself. -/
structure Stepped (l : Loop) (t t' : Thread) (l' : Loop) : Prop where
  inv : Inv l'
  later : Later l l'
  thread : ThreadInv l' t'
  /-- The worker stays where it is. -/
  worker : l'.worker = l.worker
  /-- The event is not cleared. -/
  new_work : l.m_new_work_event = true → l'.m_new_work_event = true
  /-- A `Wakeup` that finds the worker asleep has yet to set the event. -/
  wakes : l'.m_running_state = 3 → l.m_running_state = 3 ∨ l.m_running_state ≠ 0 ∨
    ∃ stop, t' = .wakeup .set stop
  sets : ∀ stop, t = .wakeup .set stop → l'.m_new_work_event = true

theorem Watched.toMarked {l : Loop} {r : StopRecord} (watched : Watched l r)
    (need : l.m_running_state = 3) : Marked l r := by
  obtain ⟨le, stopped, clean⟩ := watched
  refine ⟨le, stopped, fun is_clean => ?_⟩
  rcases clean is_clean with before | watched
  · exact .inl before
  · exact .inr (.inr ⟨watched, .inl need⟩)

/-- A `Wait` that finds `m_stopped` set may return. -/
theorem Marked.left_of_stopped {l : Loop} {r : StopRecord} (marked : Marked l r)
    (stopped : l.m_stopped = true) : Left l r :=
  ⟨marked.1, fun _ => .inl (marked.2.1 stopped)⟩

/-- So may one that finds the state low: the worker did not lower it in its loop. -/
theorem Marked.left_of_done {l : Loop} {r : StopRecord} (marked : Marked l r)
    (done : l.m_running_state ≤ STATE_DONE) : Left l r := by
  refine ⟨marked.1, fun is_clean => ?_⟩
  rcases marked.2.2 is_clean with before | leaving | ⟨-, high | ⟨high, -⟩⟩
  · exact .inl before
  · exact .inr leaving
  · rw [high] at done
    cases done
  · rw [high] at done
    cases done

theorem beginWait_inv {l : Loop} {stop : Option StopRecord}
    (marked : ∀ r, stop = some r → Marked l r) : ThreadInv l (beginWait l stop) := by
  refine ⟨Nat.le_refl _, fun _ live => ?_, fun done => ?_, marked, fun _ _ done => ?_⟩
  · simpa using live
  · cases done
  · cases done

section Threads

variable {l l' : Loop} {t' : Thread}

/-- A `Wakeup` that returns behind the mark. -/
theorem Stepped.wakeupReturns {place : WakeupPlace} {stop : Option StopRecord} (inv : Inv l)
    (holds : ∀ r, stop = some r → Watched l r) (not_set : place ≠ .set)
    (awake : l.m_running_state ≠ 0) (step : wakeupStep l place = (none, l.mark.wakeupReturns))
    (next : threadStep l (.wakeup place stop) = some (t', l')) :
    Stepped l (.wakeup place stop) t' l' := by
  obtain ⟨marked_inv, marks⟩ := inv.mark
  obtain ⟨inv', returns⟩ := marked_inv.returns (.inl rfl)
  have sets : ∀ stop', Thread.wakeup place stop = .wakeup .set stop' →
      l.mark.wakeupReturns.m_new_work_event = true := fun _ same =>
    absurd (Thread.wakeup.inj same).1 not_set
  rw [threadStep, step] at next
  cases stop with
  | none =>
      cases next
      exact ⟨inv', marks.trans returns, trivial, rfl, id, fun _ => .inr (.inl awake), sets⟩
  | some r =>
      cases next
      have marked : Marked l.mark r := ((holds r rfl).mono marks).toMarked rfl
      refine ⟨inv', marks.trans returns, beginWait_inv fun r' same => ?_, rfl, id,
        fun _ => .inr (.inl awake), sets⟩
      cases same
      exact marked.mono returns

theorem Stepped.load {stop : Option StopRecord} (inv : Inv l)
    (holds : ∀ r, stop = some r → Watched l r)
    (next : threadStep l (.wakeup .load stop) = some (t', l')) :
    Stepped l (.wakeup .load stop) t' l' := by
  by_cases high : STATE_NEED_EXECUTION ≤ l.m_running_state
  · have awake : l.m_running_state ≠ 0 := fun zero => by
      rw [zero] at high
      cases high
    refine .wakeupReturns inv holds (by simp) awake ?_ next
    rw [wakeupStep, if_pos high, mark_of_need inv high]
  · have step : wakeupStep l .load = (some .exchange, l) := by rw [wakeupStep, if_neg high]
    rw [threadStep, step] at next
    cases next
    refine ⟨inv, .refl l, ?_, rfl, id, .inl, fun _ same => by cases same⟩
    cases stop with
    | none => trivial
    | some r => exact holds r rfl

theorem Stepped.exchange {stop : Option StopRecord} (inv : Inv l)
    (holds : ∀ r, stop = some r → Watched l r)
    (next : threadStep l (.wakeup .exchange stop) = some (t', l')) :
    Stepped l (.wakeup .exchange stop) t' l' := by
  by_cases awake : l.m_running_state ≠ STATE_SLEEPING
  · refine .wakeupReturns inv holds (by simp) awake ?_ next
    rw [wakeupStep, if_pos awake]
  · have step : wakeupStep l .exchange = (some .set, l.mark) := by rw [wakeupStep, if_neg awake]
    obtain ⟨inv', marks⟩ := inv.mark
    rw [threadStep, step] at next
    cases next
    refine ⟨inv', marks, ?_, rfl, id, fun _ => .inr (.inr ⟨stop, rfl⟩), fun _ same => by cases same⟩
    cases stop with
    | none => trivial
    | some r => exact ((holds r rfl).mono marks).toMarked rfl

theorem Stepped.set {stop : Option StopRecord} (inv : Inv l)
    (holds : ∀ r, stop = some r → Marked l r)
    (next : threadStep l (.wakeup .set stop) = some (t', l')) :
    Stepped l (.wakeup .set stop) t' l' := by
  obtain ⟨set_inv, sets⟩ := inv.newWork
  obtain ⟨inv', returns⟩ := set_inv.returns (.inr rfl)
  cases stop with
  | none =>
      cases next
      exact ⟨inv', sets.trans returns, trivial, rfl, fun _ => rfl, .inl, fun _ _ => rfl⟩
  | some r =>
      cases next
      refine ⟨inv', sets.trans returns, beginWait_inv fun r' same => ?_, rfl, fun _ => rfl, .inl,
        fun _ _ => rfl⟩
      cases same
      exact ((holds r rfl).mono sets).mono returns

/-- A step of `Wait` changes nothing on which the others depend. -/
theorem waitStep_frame {place : WaitPlace} {next : Option WaitPlace}
    (step : waitStep l place = some (next, l')) :
    ∃ m_may_sleep m_done_event m_wait_lock, l' = { l with
      m_may_sleep := m_may_sleep, m_done_event := m_done_event, m_wait_lock := m_wait_lock } := by
  cases place with
  | stopped | state | loopStopped | loopState =>
      simp only [waitStep] at step
      split at step <;> cases step <;> exact ⟨_, _, _, rfl⟩
  | lock | event =>
      simp only [waitStep] at step
      split at step <;> cases step
      exact ⟨_, _, _, rfl⟩
  | maySleep | unlock =>
      cases step
      exact ⟨_, _, _, rfl⟩

/-- `Wait` goes on to its end, or returns, only when it may. -/
theorem waitStep_done {place : WaitPlace} {next : Option WaitPlace}
    (step : waitStep l place = some (next, l'))
    (done : ∀ place', next = some place' → place'.done = true) :
    place.done = true ∨ l.m_stopped = true ∨ l.m_running_state ≤ STATE_DONE := by
  cases place with
  | stopped | loopStopped =>
      simp only [waitStep] at step
      split at step
      · next stopped => exact .inr (.inl stopped)
      · cases step
        cases done _ rfl
  | state | loopState =>
      simp only [waitStep] at step
      split at step
      · next low => exact .inr (.inr low)
      · cases step
        cases done _ rfl
  | lock | event =>
      simp only [waitStep] at step
      split at step <;> cases step
      cases done _ rfl
  | maySleep | unlock => exact .inl rfl

/-- What has been reached when `Wait` may return. -/
theorem Waiting.finish {place : WaitPlace} {goal : Nat} {live : Bool} {stop : Option StopRecord}
    (inv : Inv l) (waiting : Waiting l place goal live stop)
    (done : place.done = true ∨ l.m_stopped = true ∨ l.m_running_state ≤ STATE_DONE) :
    Served l goal live ∧ ∀ r, stop = some r → Left l r := by
  obtain ⟨goal_le, running, served, marked, left⟩ := waiting
  rcases done with done | stopped | low
  · exact ⟨served done, fun r same => left r same done⟩
  · refine ⟨fun issued is_live => ?_, fun r same => (marked r same).left_of_stopped stopped⟩
    rw [running issued is_live] at stopped
    cases stopped
  · refine ⟨fun issued _ => ?_, fun r same => (marked r same).left_of_done low⟩
    exact Nat.le_trans goal_le (inv.served (.inl issued) low)

theorem Stepped.wait {place : WaitPlace} {goal : Nat} {live : Bool} {stop : Option StopRecord}
    (inv : Inv l) (waiting : Waiting l place goal live stop)
    (next : threadStep l (.wait place goal live stop) = some (t', l')) :
    Stepped l (.wait place goal live stop) t' l' := by
  obtain ⟨⟨place', l₁⟩, step, taken⟩ := Option.map_eq_some_iff.mp next
  obtain ⟨may_sleep, done_event, wait_lock, rfl⟩ := waitStep_frame step
  obtain ⟨inv', later⟩ := inv.frame may_sleep done_event wait_lock
  have finish := fun done => waiting.finish inv (waitStep_done step done)
  have waiting' : Waiting _ place goal live stop := ThreadInv.mono later
    (t := .wait place goal live stop) waiting
  have sets : ∀ (b : Bool) stop', Thread.wait place goal live stop = .wakeup .set stop' →
    b = true := fun _ _ same => by cases same
  cases place' with
  | some place' =>
      cases taken
      refine ⟨inv', later, ?_, rfl, id, .inl, sets _⟩
      refine ⟨waiting'.goal_le, waiting'.running, fun done => ?_, waiting'.marked,
        fun r same done => ?_⟩
      · have served := (finish fun _ same => Option.some.inj same ▸ done).1
        exact served.mono later
      · have left := (finish fun _ same' => Option.some.inj same' ▸ done).2 r same
        exact left.mono later
  | none =>
      obtain ⟨served, left⟩ := finish fun _ same => by cases same
      cases stop with
      | none =>
          cases taken
          exact ⟨inv', later, Served.mono later served, rfl, id, .inl, sets _⟩
      | some r =>
          cases taken
          exact ⟨inv', later, (left r rfl).mono later, rfl, id, .inl, sets _⟩

theorem Stepped.preparing (inv : Inv l) (next : threadStep l .preparing = some (t', l')) :
    Stepped l .preparing t' l' := by
  rw [threadStep] at next
  have prepared : ∀ preparation, l.m_prepare_lock = some preparation →
      ThreadInv (l.prepareStep preparation) t' →
      Stepped l .preparing t' (l.prepareStep preparation) := by
    intro preparation held thread
    refine ⟨inv.prepareStep held, .prepareStep held, thread, ?_, ?_, ?_, ?_⟩
    · cases preparation <;> simp [Loop.prepareStep, apply_ite]
    · cases preparation <;> simp [Loop.prepareStep, apply_ite]
    · cases preparation <;>
        simp [Loop.prepareStep, apply_ite, STATE_LAST_EXECUTION] <;> omega
    · intro stop same
      cases same
  split at next
  · cases next
  · next held =>
    cases next
    exact prepared _ held trivial
  · next held =>
    cases next
    exact prepared _ held trivial

/-- Each step of a thread in a call. -/
theorem Stepped.threadStep {t : Thread} (inv : Inv l) (holds : ThreadInv l t)
    (next : threadStep l t = some (t', l')) : Stepped l t t' l' := by
  cases t with
  | idle => cases next
  | waited goal live => cases next
  | stopped r => cases next
  | wakeup place stop =>
      cases place with
      | load =>
          refine .load inv (fun r same => ?_) next
          subst same
          exact holds
      | exchange =>
          refine .exchange inv (fun r same => ?_) next
          subst same
          exact holds
      | set =>
          refine .set inv (fun r same => ?_) next
          subst same
          exact holds
  | wait place goal live stop => exact .wait inv holds next
  | allowSleep =>
      cases next
      obtain ⟨inv', later⟩ := inv.frame true l.m_done_event l.m_wait_lock
      exact ⟨inv', later, trivial, rfl, id, .inl, fun _ same => by cases same⟩
  | prepareLock =>
      rw [BlockingLoop.threadStep] at next
      split at next
      · cases next
      · next free =>
        cases next
        obtain ⟨inv', later⟩ := inv.acquire free
        exact ⟨inv', later, trivial, rfl, id, .inl, fun _ same => by cases same⟩
  | preparing => exact .preparing inv next
  | stopTest =>
      rw [BlockingLoop.threadStep] at next
      split at next
      · cases next
        exact ⟨inv, .refl l, trivial, rfl, id, .inl, fun _ same => by cases same⟩
      · next live =>
        cases next
        exact ⟨inv, .refl l, ⟨Nat.le_refl _, fun stopped => absurd stopped live⟩, rfl, id, .inl,
          fun _ same => by cases same⟩
  | stopSet exits =>
      cases next
      obtain ⟨inv', later⟩ := inv.shutdown
      obtain ⟨le, stopped⟩ := holds
      refine ⟨inv', later, ⟨le, stopped, fun is_clean => ?_⟩, rfl, id, .inl,
        fun _ same => by cases same⟩
      cases live : l.m_stopped with
      | true => exact .inl (stopped live)
      | false => exact .inr ⟨rfl, is_clean, rfl⟩

end Threads

end Phocoena.BlockingLoop
