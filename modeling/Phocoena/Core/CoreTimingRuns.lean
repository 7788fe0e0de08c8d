import Phocoena.Core.CoreTiming

/-! # Events are called when they are due

The queue is a heap as long as no change of the clock gives a parent and its child, which was
later and of a smaller `fifo_order`, the same time: the times are rescaled in place, and rounded.
-/

namespace Phocoena.CoreTiming

section
variable {EventType : Type}

/-! ## The clock -/

theorem rescale_mono {ticks time time' : Int} {new_ppc_clock old_ppc_clock : Nat}
    (old_pos : 0 < old_ppc_clock) (le : time ≤ time') :
    rescale ticks new_ppc_clock old_ppc_clock time ≤
      rescale ticks new_ppc_clock old_ppc_clock time' := by
  have scaled : (time - ticks) * new_ppc_clock ≤ (time' - ticks) * new_ppc_clock :=
    Int.mul_le_mul_of_nonneg_right (by omega) (by omega)
  have rounded := Int.tdiv_le_tdiv (show (0 : Int) < old_ppc_clock by omega) scaled
  unfold rescale
  omega

/-- The parents that the change of the clock puts behind their child: it was later and was added
before, and is now at the same time. -/
def KeepsOrder (new_ppc_clock old_ppc_clock : Nat) (s : State EventType) : Prop :=
  EachParent (fun parent child => parent.time < child.time →
    rescale s.global_timer new_ppc_clock old_ppc_clock parent.time =
      rescale s.global_timer new_ppc_clock old_ppc_clock child.time →
    parent.fifo_order ≤ child.fifo_order) s.m_event_queue

instance (new_ppc_clock old_ppc_clock : Nat) (s : State EventType) :
    Decidable (KeepsOrder new_ppc_clock old_ppc_clock s) :=
  inferInstanceAs (Decidable (EachParent _ _))

theorem key_le_iff {ev ev' : Event EventType} :
    ev.key ≤ ev'.key ↔
      ev.time < ev'.time ∨ ev.time = ev'.time ∧ ev.fifo_order ≤ ev'.fifo_order :=
  Prod.Lex.toLex_le_toLex

/-- The change of the clock leaves a heap exactly when it keeps the order of parents and
children. -/
theorem adjust_isHeap_iff {new_ppc_clock old_ppc_clock : Nat} {s : State EventType}
    (old_pos : 0 < old_ppc_clock) (heap : IsHeap Event.key s.m_event_queue) :
    IsHeap Event.key (adjustEventQueueTimes new_ppc_clock old_ppc_clock s).m_event_queue ↔
      KeepsOrder new_ppc_clock old_ppc_clock s := by
  simp only [IsHeap, adjustEventQueueTimes, EachParent.map_iff, KeepsOrder, key_le_iff]
  constructor
  · intro adjusted
    refine adjusted.imp fun parent _ child _ ordered later same => ?_
    obtain lt | ⟨_, le⟩ := ordered
    · exact absurd lt (by rw [same]; exact lt_irrefl _)
    · exact le
  · intro keeps i bound parent parentAt child childAt
    have kept := keeps i bound parent parentAt child childAt
    obtain lt | ⟨same, le⟩ := key_le_iff.mp (heap i bound parent parentAt child childAt)
    · have le' : rescale s.global_timer new_ppc_clock old_ppc_clock parent.time ≤
          rescale s.global_timer new_ppc_clock old_ppc_clock child.time :=
        rescale_mono old_pos lt.le
      obtain lt' | same' := le'.lt_or_eq
      · exact .inl lt'
      · exact .inr ⟨same', kept lt same'⟩
    · exact .inr ⟨by rw [same], le⟩

theorem s64_eq {x : Int} (fits : -2 ^ 63 ≤ x ∧ x < 2 ^ 63) : s64 x = x := by
  apply Int.bmod_eq_of_le_mul_two
  · omega
  · omega

@[simp] theorem getTicks_forceExceptionCheck (cycles : Int) (s : State EventType) :
    getTicks (forceExceptionCheck cycles s) = getTicks s := by
  unfold forceExceptionCheck
  split
  · simp only [getTicks]
    split
    · rfl
    · omega
  · rfl

/-! ## The queue -/

/-- The calls of `ScheduleEvent` that the events of a state are from. -/
def ids (s : State EventType) : List Nat :=
  (s.m_event_queue ++ s.m_ts_queue ++ s.calls.map Call.event ++ s.removed).map Event.id

/-- The event was due, and first in its queue. -/
def Call.OnTime (call : Call EventType) : Prop :=
  call.event.due ≤ call.global_timer ∧ ∀ ev ∈ call.m_event_queue, call.event.key ≤ ev.key

structure QueueInv (s : State EventType) : Prop where
  heap : IsHeap Event.key s.m_event_queue
  once : (ids s).Perm (List.range s.scheduled)
  exact : ∀ ev ∈ s.m_event_queue, ev.time = ev.due
  exact_ts : ∀ ev ∈ s.m_ts_queue, ev.time = ev.due
  onTime : ∀ call ∈ s.calls, call.OnTime

theorem QueueInv.init : QueueInv (init : State EventType) where
  heap := .nil
  once := .refl _
  exact := nofun
  exact_ts := nofun
  onTime := nofun

/-- The queue is not read or written elsewhere. -/
theorem QueueInv.forceExceptionCheck {s : State EventType} (inv : QueueInv s) (cycles : Int) :
    QueueInv (forceExceptionCheck cycles s) := by
  unfold CoreTiming.forceExceptionCheck
  split
  · exact ⟨inv.heap, inv.once, inv.exact, inv.exact_ts, inv.onTime⟩
  · exact inv

theorem QueueInv.adjust {s : State EventType} (inv : QueueInv s) {new_ppc_clock old_ppc_clock : Nat}
    (old_pos : 0 < old_ppc_clock) (keeps : KeepsOrder new_ppc_clock old_ppc_clock s) :
    QueueInv (adjustEventQueueTimes new_ppc_clock old_ppc_clock s) where
  heap := (adjust_isHeap_iff old_pos inv.heap).mpr keeps
  once := by
    have same : ids (adjustEventQueueTimes new_ppc_clock old_ppc_clock s) = ids s := by
      simp only [ids, adjustEventQueueTimes, List.map_append, List.map_map, Function.comp_def]
    rw [same]
    exact inv.once
  exact := by
    intro ev member
    obtain ⟨before, queued, rfl⟩ := List.mem_map.mp member
    dsimp only
    rw [inv.exact before queued]
  exact_ts := inv.exact_ts
  onTime := inv.onTime

/-- A new event is in the queue of the other threads. -/
theorem QueueInv.issue {s : State EventType} (inv : QueueInv s) (ev : Event EventType)
    (id : ev.id = s.scheduled) (exact : ev.time = ev.due) {m_ts_queue : List (Event EventType)}
    (perm : m_ts_queue.Perm (ev :: s.m_ts_queue)) :
    QueueInv { s with m_ts_queue := m_ts_queue, scheduled := s.scheduled + 1 } where
  heap := inv.heap
  once := by
    have added : (ids { s with m_ts_queue := m_ts_queue, scheduled := s.scheduled + 1 }).Perm
        (ids s ++ [s.scheduled]) := by
      apply List.perm_iff_count.mpr
      intro i
      have queued := (perm.map Event.id).count_eq i
      simp only [ids, id, List.map_append, List.map_cons, List.count_append, List.count_cons,
        List.count_nil] at queued ⊢
      omega
    rw [List.range_succ]
    exact added.trans (inv.once.append_right _)
  exact := inv.exact
  exact_ts := by
    intro ev' member
    obtain rfl | before := List.mem_cons.mp (perm.mem_iff.mp member)
    · exact exact
    · exact inv.exact_ts ev' before
  onTime := inv.onTime

variable {heaps : HeapAlgorithms (@Event.key EventType)}

/-- An event moves into the queue from the head of the other one. -/
theorem QueueInv.push {s : State EventType} {ev : Event EventType}
    {m_ts_queue : List (Event EventType)} {id : Nat} {time due : Int}
    (inv : QueueInv { s with m_ts_queue := ev :: m_ts_queue }) (same_id : id = ev.id)
    (exact : time = due) (userdata fifo_order : Nat) (type : EventType) :
    QueueInv { pushEvent heaps { time, fifo_order, userdata, type, id, due } s with
      m_ts_queue := m_ts_queue } := by
  have perm := heaps.push_heap_perm (x := ⟨time, s.m_event_fifo_id, userdata, type, id, due⟩)
    inv.heap
  refine ⟨heaps.push_heap_isHeap inv.heap, ?_, ?_, ?_, inv.onTime⟩
  · refine .trans ?_ inv.once
    apply List.perm_iff_count.mpr
    intro i
    have queued := (perm.map Event.id).count_eq i
    simp only [ids, pushEvent, List.map_append, List.map_cons, List.map_nil, List.count_append,
      List.count_cons, List.count_nil, same_id] at queued ⊢
    omega
  · intro ev' member
    obtain before | rfl := List.mem_append.mp (perm.mem_iff.mp member) |>.imp_right
      List.mem_singleton.mp
    · exact inv.exact ev' before
    · exact exact
  · intro ev' member
    exact inv.exact_ts ev' (List.mem_cons_of_mem _ member)

theorem QueueInv.foldl_moveEvent {evs : List (Event EventType)} {s : State EventType}
    (inv : QueueInv { s with m_ts_queue := evs }) :
    QueueInv { evs.foldl (moveEvent heaps) s with m_ts_queue := [] } := by
  induction evs generalizing s with
  | nil => exact inv
  | cons ev evs ih =>
      have same : ev.time + s.global_timer = ev.due + s.global_timer := by
        rw [inv.exact_ts ev List.mem_cons_self]
      exact ih (inv.push rfl same _ _ _)

theorem QueueInv.moveEvents {s : State EventType} (inv : QueueInv s) :
    QueueInv (moveEvents heaps s) :=
  inv.foldl_moveEvent

theorem QueueInv.scheduleEvent {s : State EventType} (inv : QueueInv s) {cycles_into_future : Int}
    (fits : -2 ^ 63 ≤ getTicks s + cycles_into_future ∧ getTicks s + cycles_into_future < 2 ^ 63)
    (type : EventType) (userdata : Nat) :
    QueueInv (scheduleEvent heaps cycles_into_future type userdata s) := by
  let ev : Event EventType :=
    ⟨s64 (getTicks s + cycles_into_future), 0, userdata, type, s.scheduled,
      getTicks s + cycles_into_future⟩
  unfold CoreTiming.scheduleEvent
  split
  · have issued := inv.issue ev rfl (s64_eq fits) (.refl _)
    exact QueueInv.push (s := { s with scheduled := s.scheduled + 1 }) issued rfl (s64_eq fits)
      _ _ _
  · have forced := inv.forceExceptionCheck cycles_into_future
    have same : (CoreTiming.forceExceptionCheck cycles_into_future s).scheduled = s.scheduled := by
      unfold CoreTiming.forceExceptionCheck
      split
      · rfl
      · rfl
    have issued := forced.issue ev same.symm (s64_eq fits) (.refl _)
    rw [same] at issued
    exact QueueInv.push (s := { CoreTiming.forceExceptionCheck cycles_into_future s with
      scheduled := s.scheduled + 1 }) issued rfl (s64_eq fits) _ _ _

theorem QueueInv.callBack {s s' : State EventType} (inv : QueueInv s)
    (next : callBack heaps s = some s') : QueueInv s' := by
  unfold CoreTiming.callBack at next
  split at next
  · cases next
  · rename_i evt rest queue
    split at next
    · rename_i due
      cases next
      have heap : IsHeap Event.key (evt :: rest) := queue ▸ inv.heap
      obtain ⟨left, popped, perm, left_isHeap⟩ := heaps.pop_heap_eq heap
      have exact := inv.exact evt (queue ▸ List.mem_cons_self)
      rw [queue, popped, List.dropLast_concat]
      refine ⟨left_isHeap, ?_, ?_, inv.exact_ts, ?_⟩
      · refine .trans ?_ inv.once
        apply List.perm_iff_count.mpr
        intro i
        have left_count := (perm.map Event.id).count_eq i
        simp only [ids, queue, List.map_append, List.map_cons, List.map_nil, List.count_append,
          List.count_cons, List.count_nil] at left_count ⊢
        omega
      · intro ev member
        exact inv.exact ev (queue ▸ List.mem_cons_of_mem _ (perm.mem_iff.mp member))
      · intro call member
        obtain before | rfl := List.mem_append.mp member |>.imp_right List.mem_singleton.mp
        · exact inv.onTime call before
        · exact ⟨by dsimp only; omega, fun ev => heap.front_le⟩
    · cases next

theorem QueueInv.endAdvance {s s' : State EventType} (inv : QueueInv s)
    (next : endAdvance s = some s') :
    QueueInv s' ∧ ∀ ev ∈ s'.m_event_queue, s'.global_timer < ev.due := by
  unfold CoreTiming.endAdvance at next
  split at next
  · rename_i queue
    cases next
    refine ⟨⟨inv.heap, inv.once, inv.exact, inv.exact_ts, inv.onTime⟩, ?_⟩
    simp only [queue, List.not_mem_nil, false_implies, implies_true]
  · rename_i evt rest queue
    split at next
    · cases next
    · rename_i late
      cases next
      refine ⟨⟨inv.heap, inv.once, inv.exact, inv.exact_ts, inv.onTime⟩, ?_⟩
      intro ev member
      have first : evt.key ≤ ev.key := (queue ▸ inv.heap : IsHeap Event.key (evt :: rest)).front_le
        (queue ▸ member)
      have exact := inv.exact ev member
      dsimp only
      obtain lt | ⟨same, _⟩ := key_le_iff.mp first
      · omega
      · omega

theorem QueueInv.removeEvent [DecidableEq EventType] {s : State EventType} (inv : QueueInv s)
    (type : EventType) : QueueInv (removeEvent heaps type s) := by
  have parts := List.filter_append_perm (fun e : Event EventType => decide (e.type = type))
    s.m_event_queue
  have kept_perm : (CoreTiming.removeEvent heaps type s).m_event_queue.Perm
      (s.m_event_queue.filter fun e => e.type ≠ type) := by
    unfold CoreTiming.removeEvent
    dsimp only
    split
    · exact heaps.make_heap_perm _
    · exact .refl _
  refine ⟨?_, ?_, ?_, inv.exact_ts, inv.onTime⟩
  · unfold CoreTiming.removeEvent
    dsimp only
    split
    · exact heaps.make_heap_isHeap _
    · rename_i none_erased
      -- nothing is erased: the queue is as it was
      have all : s.m_event_queue.filter (fun e => e.type ≠ type) = s.m_event_queue := by
        apply List.filter_eq_self.mpr
        intro e member
        by_contra removed
        exact none_erased (List.length_pos_of_mem
          (List.mem_filter.mpr ⟨member, by simpa using removed⟩)).ne'
      rw [all]
      exact inv.heap
  · refine .trans ?_ inv.once
    apply List.perm_iff_count.mpr
    intro i
    have kept_count := (kept_perm.map Event.id).count_eq i
    have parts_count := (parts.map Event.id).count_eq i
    simp only [ids, CoreTiming.removeEvent, List.map_append, List.count_append, ne_eq,
      decide_not] at kept_count parts_count ⊢
    omega
  · intro ev member
    exact inv.exact ev (List.mem_of_mem_filter (kept_perm.mem_iff.mp member))

/-! ## Steps -/

/-- What the callers of an operation owe it: a time that a `s64` holds, a clock whose change keeps
the order of the queue, and cycles that are left when the CPU idles. -/
def Meets (action : Action EventType) (s : State EventType) : Prop :=
  match action with
  | .scheduleEvent cycles_into_future _ _ =>
      -2 ^ 63 ≤ getTicks s + cycles_into_future ∧ getTicks s + cycles_into_future < 2 ^ 63
  | .adjustEventQueueTimes new_ppc_clock old_ppc_clock => KeepsOrder new_ppc_clock old_ppc_clock s
  | .idle => 0 ≤ s.downcount
  | _ => True

instance (action : Action EventType) (s : State EventType) : Decidable (Meets action s) :=
  match action with
  | .scheduleEvent _ _ _ => inferInstanceAs (Decidable (_ ∧ _))
  | .adjustEventQueueTimes _ _ => inferInstanceAs (Decidable (KeepsOrder _ _ s))
  | .idle => inferInstanceAs (Decidable (0 ≤ s.downcount))
  | .scheduleEventNonCPU .. | .removeEvent _ | .removeAllEvents _ | .forceExceptionCheck _
  | .execute _ | .advance | .callBack | .callbackReturns | .endAdvance =>
      inferInstanceAs (Decidable True)

variable (heaps) in
theorem foldl_moveEvent_eq (evs : List (Event EventType)) (s : State EventType) :
    ∃ m_event_queue m_event_fifo_id, evs.foldl (moveEvent heaps) s = { s with
      m_event_queue := m_event_queue, m_event_fifo_id := m_event_fifo_id } := by
  induction evs generalizing s with
  | nil => exact ⟨_, _, rfl⟩
  | cons ev evs ih =>
      obtain ⟨m_event_queue, m_event_fifo_id, eq⟩ := ih (moveEvent heaps s ev)
      exact ⟨m_event_queue, m_event_fifo_id, eq⟩

variable (heaps) in
theorem moveEvents_eq (s : State EventType) :
    ∃ m_event_queue m_event_fifo_id, moveEvents heaps s = { s with
      m_event_queue := m_event_queue, m_event_fifo_id := m_event_fifo_id, m_ts_queue := [] } := by
  obtain ⟨m_event_queue, m_event_fifo_id, eq⟩ := foldl_moveEvent_eq heaps s.m_ts_queue s
  exact ⟨m_event_queue, m_event_fifo_id, by rw [moveEvents, eq]⟩

/-- The counters of the time base between the operations. -/
structure ClockInv (s : State EventType) : Prop where
  sane_iff : s.m_is_global_timer_sane = true ↔ s.phase ≠ .running
  fresh : s.phase = .starting → s.slice_length = s.downcount

theorem ClockInv.init : ClockInv (init : State EventType) where
  sane_iff := by simp [CoreTiming.init]
  fresh _ := rfl

theorem ClockInv.forceExceptionCheck {s : State EventType} (inv : ClockInv s) (cycles : Int) :
    ClockInv (forceExceptionCheck cycles s) := by
  unfold CoreTiming.forceExceptionCheck
  split
  · exact ⟨inv.sane_iff, fun starting => by
      have := inv.fresh starting
      dsimp only
      omega⟩
  · exact inv

/-- For an operation that leaves the counters alone. -/
theorem ClockInv.of_eq {clock s' : State EventType} (inv : ClockInv clock)
    (sane : s'.m_is_global_timer_sane = clock.m_is_global_timer_sane)
    (phase : s'.phase = clock.phase) (slice_length : s'.slice_length = clock.slice_length)
    (downcount : s'.downcount = clock.downcount) : ClockInv s' where
  sane_iff := by
    rw [sane, phase]
    exact inv.sane_iff
  fresh starting := by
    rw [slice_length, downcount]
    exact inv.fresh (phase ▸ starting)

variable [DecidableEq EventType] {action : Action EventType} {s s' : State EventType}

theorem QueueInv.step (inv : QueueInv s) (meets : Meets action s)
    (next : step heaps action s = some s') : QueueInv s' := by
  cases action <;> simp only [CoreTiming.step, Option.ite_none_left_eq_some,
    Option.ite_none_right_eq_some, Option.some.injEq] at next
  case scheduleEvent =>
    obtain ⟨_, rfl⟩ := next
    exact inv.scheduleEvent meets _ _
  case scheduleEventNonCPU =>
    subst next
    exact inv.issue _ rfl rfl (List.perm_append_singleton _ _)
  case removeEvent =>
    obtain ⟨_, rfl⟩ := next
    exact inv.removeEvent _
  case removeAllEvents =>
    obtain ⟨_, rfl⟩ := next
    exact inv.moveEvents.removeEvent _
  case forceExceptionCheck =>
    obtain ⟨_, rfl⟩ := next
    exact inv.forceExceptionCheck _
  case adjustEventQueueTimes =>
    obtain ⟨possible, rfl⟩ := next
    exact inv.adjust (by omega) meets
  case advance =>
    obtain ⟨_, rfl⟩ := next
    have moved : QueueInv (CoreTiming.moveEvents heaps s) := inv.moveEvents
    exact ⟨moved.heap, moved.once, moved.exact, moved.exact_ts, moved.onTime⟩
  case callBack => exact inv.callBack next.2
  case endAdvance => exact (inv.endAdvance next.2).1
  all_goals
    obtain ⟨_, rfl⟩ := next
    exact ⟨inv.heap, inv.once, inv.exact, inv.exact_ts, inv.onTime⟩

/-- A step keeps the invariant of the counters, and only emulated cycles change `GetTicks`. -/
theorem ClockInv.step (inv : ClockInv s) (meets : Meets action s)
    (next : step heaps action s = some s') :
    ClockInv s' ∧ getTicks s ≤ getTicks s' ∧ (¬ action.TakesTime → getTicks s' = getTicks s) := by
  have still {t : State EventType} (same : getTicks t = getTicks s) :
      getTicks s ≤ getTicks t ∧ (¬ action.TakesTime → getTicks t = getTicks s) :=
    ⟨same.ge, fun _ => same⟩
  cases action <;> simp only [CoreTiming.step, Option.ite_none_left_eq_some,
    Option.ite_none_right_eq_some, Option.some.injEq] at next
  case scheduleEvent cycles_into_future type userdata =>
    obtain ⟨_, rfl⟩ := next
    unfold scheduleEvent
    split
    · exact ⟨inv.of_eq rfl rfl rfl rfl, still rfl⟩
    · exact ⟨(inv.forceExceptionCheck cycles_into_future).of_eq rfl rfl rfl rfl,
        still (getTicks_forceExceptionCheck cycles_into_future s)⟩
  case forceExceptionCheck cycles =>
    obtain ⟨_, rfl⟩ := next
    exact ⟨inv.forceExceptionCheck cycles, still (getTicks_forceExceptionCheck cycles s)⟩
  case removeAllEvents =>
    obtain ⟨_, rfl⟩ := next
    obtain ⟨_, _, moved⟩ := moveEvents_eq heaps s
    rw [removeAllEvents, moved]
    exact ⟨inv.of_eq rfl rfl rfl rfl, still rfl⟩
  case idle =>
    obtain ⟨running, rfl⟩ := next
    have insane : s.m_is_global_timer_sane = false := by
      simpa [running] using inv.sane_iff
    have left : 0 ≤ s.downcount := meets
    refine ⟨⟨inv.sane_iff, fun starting => ?_⟩, ?_, fun still => absurd trivial still⟩
    · exact absurd (running.symm.trans starting) nofun
    · simp only [getTicks, idle, insane, Bool.false_eq_true, if_false]
      omega
  case execute cycles =>
    obtain ⟨running, rfl⟩ := next
    refine ⟨⟨inv.sane_iff, fun starting => ?_⟩, ?_, fun still => absurd trivial still⟩
    · exact absurd (running.symm.trans starting) nofun
    · simp only [getTicks]
      split
      · exact le_refl _
      · omega
  case advance =>
    obtain ⟨outside, rfl⟩ := next
    obtain ⟨_, _, moved⟩ := moveEvents_eq heaps s
    rw [advance, moved]
    refine ⟨⟨by simp, nofun⟩, still ?_⟩
    simp only [getTicks, if_true]
    obtain starting | running := outside
    · have fresh := inv.fresh starting
      rw [if_pos (inv.sane_iff.mpr (by simp [starting]))]
      omega
    · rw [if_neg (by simp [inv.sane_iff, running])]
  case callBack =>
    obtain ⟨advancing, called⟩ := next
    unfold callBack at called
    split at called
    · cases called
    · split at called
      · cases called
        exact ⟨⟨by simp [inv.sane_iff, advancing], nofun⟩, still rfl⟩
      · cases called
  case callbackReturns =>
    obtain ⟨returns, rfl⟩ := next
    exact ⟨⟨by simp [inv.sane_iff, returns], nofun⟩, still rfl⟩
  case endAdvance =>
    obtain ⟨advancing, ended⟩ := next
    have sane : s.m_is_global_timer_sane = true := inv.sane_iff.mpr (by simp [advancing])
    unfold endAdvance at ended
    split at ended
    · cases ended
      exact ⟨⟨by simp, nofun⟩, still (by simp [getTicks, sane])⟩
    · split at ended
      · cases ended
      · cases ended
        exact ⟨⟨by simp, nofun⟩, still (by simp [getTicks, sane])⟩
  case scheduleEventNonCPU =>
    subst next
    exact ⟨inv.of_eq rfl rfl rfl rfl, still rfl⟩
  all_goals
    obtain ⟨_, rfl⟩ := next
    exact ⟨inv.of_eq rfl rfl rfl rfl, still rfl⟩

/-! ## Runs -/

end

end Phocoena.CoreTiming
