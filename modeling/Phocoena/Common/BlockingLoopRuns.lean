import Phocoena.Common.BlockingLoopInvariant
import Phocoena.Lib.Runs

/-! # The runs of the blocking loop -/

namespace Phocoena.BlockingLoop

variable {ι : Type}

/-- A worker that sleeps in the state `STATE_NEED_EXECUTION` is being woken up. -/
def System.Awakens (s : System ι) : Prop :=
  s.loop.worker = .sleep → s.loop.m_running_state = 3 →
    s.loop.m_new_work_event = true ∨ ∃ i stop, s.threads i = .wakeup .set stop

/-- What holds of the system at any time. -/
structure System.Inv (s : System ι) : Prop where
  loop : BlockingLoop.Inv s.loop
  awakens : s.Awakens
  thread : ∀ i, ThreadInv s.loop (s.threads i)

theorem System.Inv.initial : System.Inv (ι := ι) System.initial where
  loop := BlockingLoop.Inv.initial
  awakens asleep := by cases asleep
  thread _ := trivial

/-- The worker goes to sleep in no other state. -/
theorem workerStep_sleeps {l l' : Loop} (next : workerStep l = some l')
    (asleep : l'.worker = .sleep) : l'.m_running_state = STATE_SLEEPING := by
  rw [workerStep.eq_def] at next
  cases at_worker : l.worker with
  | load =>
      simp only [at_worker] at next
      split_ifs at next with need last done sleeping
      all_goals cases next
      all_goals first | exact sleeping | cases asleep
  | trySleep =>
      simp only [at_worker] at next
      split_ifs at next with touched
      · cases next
        cases asleep
      · cases next
        rw [not_not.mp touched]
        rfl
  | preparing =>
      simp only [at_worker] at next
      split at next
      · cases next
      · cases next
        cases asleep
      · next preparation _ _ =>
        cases next
        cases preparation <;> simp [Loop.prepareStep, apply_ite, at_worker] at asleep
  | prepareLock =>
      simp only [at_worker] at next
      split at next <;> cases next
      cases asleep
  | check | last | maySleep | sleep =>
      simp only [at_worker] at next
      split_ifs at next
      all_goals cases next
      all_goals cases asleep
  | outside | payload | need | setDone | exitStore | exitStopped | exitDone =>
      simp only [at_worker, Option.some.injEq] at next
      subst next
      cases asleep

theorem System.Inv.worker {s : System ι} {l : Loop} (inv : s.Inv)
    (next : workerStep s.loop = some l) : System.Inv { s with loop := l } where
  loop := inv.loop.workerStep next
  awakens asleep need := by
    rw [workerStep_sleeps next asleep] at need
    cases need
  thread i := (inv.thread i).mono (.workerStep inv.loop next)

/-- A worker that sleeps though a run is due is being woken up. -/
theorem System.Inv.awakened {s : System ι} (inv : s.Inv) (asleep : s.loop.worker = .sleep)
    (unset : s.loop.m_new_work_event = false)
    (asked : s.loop.due = s.loop.starts + 1 ∨ s.loop.returned = s.loop.starts + 1) :
    ∃ i stop, s.threads i = .wakeup .set stop := by
  have due : s.loop.due = s.loop.starts + 1 := by
    rcases asked with due | returned
    · exact due
    · have iterating : s.loop.worker.iterating = true := by rw [asleep, Worker.iterating]
      rcases inv.loop.noticed iterating returned with due | set
      · exact due
      · rw [unset] at set
        cases set
  have need : s.loop.m_running_state = 3 := by
    rcases inv.loop.asleep asleep with low | need
    · have in_loop : s.loop.worker.inLoop = true := by rw [asleep]; rfl
      have served := inv.loop.served (.inr in_loop) (by omega)
      have runs := inv.loop.runs
      omega
    · exact need
  rcases inv.awakens asleep need with set | waking
  · rw [unset] at set
    cases set
  · exact waking

variable [DecidableEq ι]

theorem System.Inv.call {s : System ι} {i : ι} {c : Call} (inv : s.Inv)
    (resting : (s.threads i).resting = true) :
    System.Inv { s with threads := Function.update s.threads i (beginCall s.loop c) } where
  loop := inv.loop
  awakens asleep need := by
    rcases inv.awakens asleep need with set | ⟨j, stop, waking⟩
    · exact .inl set
    · refine .inr ⟨j, stop, ?_⟩
      have other : j ≠ i := fun same => by
        rw [← same, waking] at resting
        cases resting
      simpa only [Function.update_of_ne other] using waking
  thread j := by
    by_cases same : j = i
    · subst same
      simp only [Function.update_self]
      cases c with
      | Wait => exact beginWait_inv fun _ none => by cases none
      | Wakeup => trivial
      | AllowSleep => trivial
      | Prepare => trivial
      | Stop => trivial
    · simpa only [Function.update_of_ne same] using inv.thread j

theorem System.Inv.threadStep {s : System ι} {i : ι} {t : Thread} {l : Loop} (inv : s.Inv)
    (next : threadStep s.loop (s.threads i) = some (t, l)) :
    System.Inv ⟨l, Function.update s.threads i t⟩ := by
  obtain ⟨inv', later, thread, worker, new_work, wakes, sets⟩ :=
    Stepped.threadStep inv.loop (inv.thread i) next
  refine ⟨inv', fun asleep need => ?_, fun j => ?_⟩
  · have asleep' : s.loop.worker = .sleep := worker.symm.trans asleep
    have reason : s.loop.m_running_state = 3 ∨ ∃ stop, t = .wakeup .set stop := by
      rcases wakes need with before | awake | waking
      · exact .inl before
      · exact .inl ((inv.loop.asleep asleep').resolve_left awake)
      · exact .inr waking
    rcases reason with before | ⟨stop, waking⟩
    · rcases inv.awakens asleep' before with set | ⟨j, stop, waking⟩
      · exact .inl (new_work set)
      · by_cases same : j = i
        · subst same
          exact .inl (sets stop waking)
        · refine .inr ⟨j, stop, ?_⟩
          simpa only [Function.update_of_ne same] using waking
    · refine .inr ⟨i, stop, ?_⟩
      simpa only [Function.update_self] using waking
  · by_cases same : j = i
    · subst same
      simpa only [Function.update_self] using thread
    · simpa only [Function.update_of_ne same] using (inv.thread j).mono later

theorem System.Inv.step {s s' : System ι} {a : Action ι} (inv : s.Inv)
    (next : step a s = some s') : s'.Inv := by
  cases a with
  | worker =>
      obtain ⟨l, moved, rfl⟩ := Option.map_eq_some_iff.mp next
      exact inv.worker moved
  | call i c =>
      rw [BlockingLoop.step] at next
      split at next
      · next resting =>
        cases next
        exact inv.call resting
      · cases next
  | thread i =>
      obtain ⟨⟨t, l⟩, moved, rfl⟩ := Option.map_eq_some_iff.mp next
      exact inv.threadStep moved

/-- A step of the system keeps what the threads rely on. -/
theorem Later.step {s s' : System ι} {a : Action ι} (inv : s.Inv)
    (next : step a s = some s') : Later s.loop s'.loop := by
  cases a with
  | worker =>
      obtain ⟨l, moved, rfl⟩ := Option.map_eq_some_iff.mp next
      exact .workerStep inv.loop moved
  | call i c =>
      rw [BlockingLoop.step] at next
      split at next <;> cases next
      exact .refl _
  | thread i =>
      obtain ⟨⟨t, l⟩, moved, rfl⟩ := Option.map_eq_some_iff.mp next
      exact (Stepped.threadStep inv.loop (inv.thread i) moved).later

/-- The states that the system can reach. -/
def System.Reachable (s : System ι) : Prop :=
  Reaches step (fun _ _ => True) System.initial s

theorem System.Reachable.inv {s : System ι} (reachable : s.Reachable) : s.Inv :=
  Reaches.invariant reachable System.Inv.initial fun _ _ _ inv _ next => inv.step next

/-- What the threads rely on lasts through a run. -/
theorem Later.run {s s' : System ι} (inv : s.Inv)
    (run : Reaches BlockingLoop.step (fun _ _ => True) s s') : Later s.loop s'.loop := by
  have lasts : s'.Inv ∧ Later s.loop s'.loop :=
    run.invariant (I := fun s' => s'.Inv ∧ Later s.loop s'.loop) ⟨inv, .refl _⟩
      fun _ _ _ holds _ next => ⟨holds.1.step next, holds.2.trans (.step holds.1 next)⟩
  exact lasts.2

theorem Inv.outside_of_stopped {l : Loop} (inv : Inv l) (stopped : l.m_stopped = true) :
    l.worker.inLoop = false ∧ l.worker.leaving = false := by
  have running := inv.running
  rw [stopped] at running
  constructor
  · cases in_loop : l.worker.inLoop with
    | false => rfl
    | true => cases running (.inl in_loop)
  · cases leaving : l.worker.leaving with
    | false => rfl
    | true => cases running (.inr leaving)

/-- Every `Wakeup` is noticed, and `Stop` and `Prepare` take effect. -/
theorem wakeups_kept {s : System ι} (reachable : s.Reachable) :
    (STATE_SLEEPING ≤ s.loop.m_running_state ∧ s.loop.m_running_state ≤ STATE_NEED_EXECUTION) ∧
      (s.loop.worker = .sleep → s.loop.m_new_work_event = false →
        s.loop.due = s.loop.starts + 1 ∨ s.loop.returned = s.loop.starts + 1 →
        ∃ i stop, s.threads i = .wakeup .set stop) ∧
      (∀ i goal, s.threads i = .waited goal true → s.loop.stops = 0 → goal ≤ s.loop.completed) ∧
      (s.loop.m_stopped = true → s.loop.worker.inLoop = false ∧ s.loop.worker.leaving = false) ∧
      (∀ i r, s.threads i = .stopped r → r.clean = true →
        r.exits < s.loop.exits ∨ s.loop.worker = .exitStopped) ∧
      ∀ s' : System ι, s.loop.m_prepare_lock = some .store →
        Reaches step (fun _ _ => True) s s' → s'.loop.stops = s.loop.stops →
        s'.loop.m_stopped = false := by
  have inv := reachable.inv
  refine ⟨inv.loop.range, inv.awakened, fun i goal waited issued => ?_,
    inv.loop.outside_of_stopped, fun i r stopped clean => ?_, fun s' held run same => ?_⟩
  · have served := inv.thread i
    rw [waited] at served
    exact served issued rfl
  · have left := inv.thread i
    rw [stopped] at left
    exact left.2 clean
  · have prepared : s.loop.prepared := by
      obtain ⟨live, -, leaving⟩ := inv.loop.owned (.inl held)
      exact ⟨live, leaving, .inl held⟩
    exact ((Later.run inv run).prepared same prepared).1

/-! ## Runs that do not keep more -/

/-- The state at the end of a run that is given by its actions. -/
theorem reachable_of_run {β : Type} (actions : List (Action Bool)) {f : System Bool → β} {b : β}
    (run : (runActions step actions System.initial).map f = some b) :
    ∃ s : System Bool, s.Reachable ∧ f s = b := by
  obtain ⟨s, reached, value⟩ := Option.map_eq_some_iff.mp run
  exact ⟨s, .of_runActions reached, value⟩

/-- The worker calls `Run` and gets to the `while` loop. -/
def entering : List (Action Bool) := List.replicate 7 .worker

/-- From there it goes to sleep. -/
def fallingAsleep : List (Action Bool) := List.replicate 7 .worker

/-- One `Wakeup` has yet to set the event when the next one returns. -/
theorem sleeps_after_wakeup : ∃ s : System Bool, s.Reachable ∧
    (s.loop.worker, s.loop.m_new_work_event, s.loop.starts, s.loop.returned) =
      (.sleep, false, 1, 2) := by
  refine reachable_of_run (entering ++ fallingAsleep ++
    [Action.call false .Wakeup, .thread false, .thread false, .call true .Wakeup,
      .thread true]) ?_
  decide

/-- Before `Prepare`, `Wait` does not wait. -/
theorem waits_not_before_prepare : ∃ s : System Bool, s.Reachable ∧
    (s.threads false, s.loop.stops, s.loop.returned, s.loop.completed) =
      (.waited 1 false, 0, 1, 0) := by
  refine reachable_of_run ([Action.call false .Wakeup, .thread false, .thread false,
    .thread false, .call false .Wait, .thread false]) ?_
  decide

/-- A `Wakeup` that sets the event late returns when the run for it has begun. -/
theorem waits_for_mark : ∃ s : System Bool, s.Reachable ∧
    (s.threads true, s.loop.stops, s.loop.returned, s.loop.completed) =
      (.waited 2 true, 0, 4, 3) := by
  refine reachable_of_run ([Action.call false .Wakeup, .thread false, .thread false] ++
    entering ++ fallingAsleep ++
    [Action.call true .Wakeup, .thread true, .thread true, .thread false] ++
    List.replicate 6 Action.worker ++ [Action.thread true, .call true .Wait] ++
    List.replicate 3 Action.worker ++ [Action.thread true, .thread true]) ?_
  decide

/-- `Prepare` of `Run` clears `m_shutdown` again. -/
theorem stops_not_in_prepare : ∃ s : System Bool, s.Reachable ∧
    (s.threads false, s.loop.worker, s.loop.exits, s.loop.m_shutdown) =
      (.stopped ⟨0, false⟩, .setDone, 0, false) := by
  refine reachable_of_run (List.replicate 3 Action.worker ++
    [Action.call false .Stop, .thread false, .thread false, .thread false, .thread false] ++
    List.replicate 8 Action.worker ++ [Action.thread false, .thread false, .thread false]) ?_
  decide

/-- `Stop` returns before the worker has set `m_stopped`, and `Prepare` does not find it set. -/
theorem prepares_not_behind_stop : ∃ s : System Bool, s.Reachable ∧
    (s.threads false, (runActions step ([Action.call false .Prepare] ++
      List.replicate 3 (Action.thread false) ++ [Action.worker]) s).map fun s' =>
        (s'.threads false, s'.loop.m_stopped, s'.loop.stops)) =
      (.stopped ⟨0, true⟩, some (.idle, true, 1)) := by
  refine reachable_of_run (entering ++ [Action.call false .Stop] ++
    List.replicate 4 (Action.thread false) ++
    [Action.worker, .worker, .thread false, .thread false]) ?_
  decide

/-- Such states, and the start of a `Prepare`, are states that `wakeups_kept` speaks of. -/
theorem wakeups_kept_somewhere :
    (∃ s : System Bool, s.loop.worker = .sleep ∧ s.loop.m_new_work_event = false ∧
      s.loop.returned = s.loop.starts + 1 ∧ ∃ i stop, s.threads i = .wakeup .set stop) ∧
    (∃ s : System Bool, s.threads true = .waited 2 true ∧ s.loop.stops = 0 ∧
      2 ≤ s.loop.completed) ∧
    ∃ s : System Bool, s.threads false = .stopped ⟨0, true⟩ ∧
      (0 < s.loop.exits ∨ s.loop.worker = .exitStopped) := by
  refine ⟨?_, ?_, ?_⟩
  · obtain ⟨s, reachable, value⟩ := sleeps_after_wakeup
    simp only [Prod.mk.injEq] at value
    obtain ⟨asleep, unset, starts, returned⟩ := value
    have asked : s.loop.returned = s.loop.starts + 1 := by rw [starts, returned]
    exact ⟨s, asleep, unset, asked, (wakeups_kept reachable).2.1 asleep unset (.inr asked)⟩
  · obtain ⟨s, reachable, value⟩ := waits_for_mark
    simp only [Prod.mk.injEq] at value
    obtain ⟨waited, stops, -⟩ := value
    exact ⟨s, waited, stops, (wakeups_kept reachable).2.2.1 _ _ waited stops⟩
  · obtain ⟨s, reachable, value⟩ := prepares_not_behind_stop
    have stopped := (Prod.mk.inj value).1
    exact ⟨s, stopped, (wakeups_kept reachable).2.2.2.2.1 _ _ stopped rfl⟩

/-- The worker may sleep when a `Wakeup` has returned, `Wait` may return before the run, and `Stop`
and `Prepare` may have no effect. -/
theorem wakeups_not_all_kept :
    (∃ s : System Bool, s.Reachable ∧ (s.loop.worker, s.loop.m_new_work_event, s.loop.starts,
      s.loop.returned) = (.sleep, false, 1, 2)) ∧
    (∃ s : System Bool, s.Reachable ∧ (s.threads false, s.loop.stops, s.loop.returned,
      s.loop.completed) = (.waited 1 false, 0, 1, 0)) ∧
    (∃ s : System Bool, s.Reachable ∧ (s.threads true, s.loop.stops, s.loop.returned,
      s.loop.completed) = (.waited 2 true, 0, 4, 3)) ∧
    (∃ s : System Bool, s.Reachable ∧ (s.threads false, s.loop.worker, s.loop.exits,
      s.loop.m_shutdown) = (.stopped ⟨0, false⟩, .setDone, 0, false)) ∧
    ∃ s : System Bool, s.Reachable ∧ (s.threads false, (runActions step ([.call false .Prepare] ++
      List.replicate 3 (.thread false) ++ [.worker]) s).map fun s' =>
        (s'.threads false, s'.loop.m_stopped, s'.loop.stops)) =
      (.stopped ⟨0, true⟩, some (.idle, true, 1)) :=
  ⟨sleeps_after_wakeup, waits_not_before_prepare, waits_for_mark, stops_not_in_prepare,
    prepares_not_behind_stop⟩

end Phocoena.BlockingLoop
