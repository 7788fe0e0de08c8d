import Phocoena.Vulkan.CommandBufferManager
import Mathlib.Data.List.Basic
import Mathlib.Data.List.Perm.Basic
import Mathlib.Tactic.SplitIfs

/-! # The ring is safe

The command buffer of fence counter `c` has the place `slot c`. The worker has let go of the
first `p` command buffers and submitted `h`, of which the GPU finished `f`; the caller has handed
over `L`, and records the one of counter `C`.
-/

namespace Phocoena.Vulkan

theorem flatMap_update_perm {α : Type} {l : List Nat} (nodup : l.Nodup) {index : Nat}
    (mem : index ∈ l) (f : Nat → List α) :
    ∃ rest, (l.flatMap f).Perm (f index ++ rest) ∧
      ∀ xs, (l.flatMap (Function.update f index xs)).Perm (xs ++ rest) := by
  refine ⟨(l.erase index).flatMap f, ?_, fun xs => ?_⟩
  · exact (List.perm_cons_erase mem).flatMap_right f
  · have split := (List.perm_cons_erase mem).flatMap_right (Function.update f index xs)
    rw [List.flatMap_cons, Function.update_self] at split
    have same : (l.erase index).flatMap (Function.update f index xs) =
        (l.erase index).flatMap f :=
      List.flatMap_congr fun i inside =>
        Function.update_of_ne (nodup.mem_erase_iff.mp inside).1 _ _
    rwa [same] at split

def slot (counter : Nat) : Nat := (counter + 7) % NUM_COMMAND_BUFFERS

theorem slot_lt (c : Nat) : slot c < 8 := Nat.mod_lt _ (by decide)

theorem slot_ne {c d : Nat} (lt : c < d) (near : d < c + 8) : slot c ≠ slot d := by
  simp only [slot, NUM_COMMAND_BUFFERS]
  omega

theorem slot_add_eight (c : Nat) : slot (c + 8) = slot c := by
  simp only [slot, NUM_COMMAND_BUFFERS]
  omega

theorem slot_succ (c : Nat) : (slot c + 1) % NUM_COMMAND_BUFFERS = slot (c + 1) := by
  simp only [slot, NUM_COMMAND_BUFFERS]
  omega

/-- A place of the ring belongs to one of the last eight counters or was not used yet. -/
theorem slot_cases (C : Nat) {i : Nat} (lt : i < 8) :
    (∃ c, 1 ≤ c ∧ c ≤ C ∧ C < c + 8 ∧ i = slot c) ∨ C ≤ i := by
  by_cases used : i < C
  · refine .inl ⟨C - (C + 7 - i) % 8, ?_⟩
    simp only [slot, NUM_COMMAND_BUFFERS]
    omega
  · exact .inr (Nat.le_of_not_lt used)

/-- What an event must say: nothing is waited for or reset that is not submitted, counters complete
in order and after the GPU has finished, objects are destroyed after that, and the assertions
hold. -/
def Event.Fine : Event → Prop
  | wait _ waiting_for_submit submitted => waiting_for_submit = false ∧ submitted = true
  | reset _ waiting_for_submit => waiting_for_submit = false
  | completed before after finished => before ≤ after ∧ finished = true
  | destroy _ finished => finished = true
  | resetPools asserted => asserted = true
  | covered asserted => asserted = true

namespace Manager

/-- What the caller sees of the ring did not change, but for the objects to destroy. -/
structure Kept (s s' : Manager) : Prop where
  next : s'.m_next_fence_counter = s.m_next_fence_counter
  current : s'.m_current_cmd_buffer = s.m_current_cmd_buffer
  frame : s'.m_current_frame = s.m_current_frame
  frames_in_flight : s'.m_frames_in_flight = s.m_frames_in_flight
  last : s'.last_fence_counter = s.last_fence_counter
  counter : ∀ i, (s'.m_command_buffers i).fence_counter = (s.m_command_buffers i).fence_counter
  frame_index : ∀ i, (s'.m_command_buffers i).frame_index = (s.m_command_buffers i).frame_index

theorem Kept.refl (s : Manager) : Kept s s :=
  ⟨rfl, rfl, rfl, rfl, rfl, fun _ => rfl, fun _ => rfl⟩

theorem Kept.trans {s s' s'' : Manager} (first : Kept s s') (second : Kept s' s'') :
    Kept s s'' where
  next := second.next.trans first.next
  current := second.current.trans first.current
  frame := second.frame.trans first.frame
  frames_in_flight := second.frames_in_flight.trans first.frames_in_flight
  last := second.last.trans first.last
  counter i := (second.counter i).trans (first.counter i)
  frame_index i := (second.frame_index i).trans (first.frame_index i)

theorem Kept.complete {s s' : Manager} (kept : Kept s s') (c : Nat) :
    Kept s { s' with m_completed_fence_counter := c } :=
  ⟨kept.next, kept.current, kept.frame, kept.frames_in_flight, kept.last, kept.counter,
    kept.frame_index⟩

/-- The worker and the GPU went on. -/
def Onward (s s' : Manager) : Prop :=
  ∃ (queue : List Nat) (handedOver : Bool) (gpu finished : List Nat) (looks : Nat)
    (flags : Nat → Bool), s' = { s with
    queue, handedOver, gpu, finished, looks
    m_command_buffers := fun i =>
      { s.m_command_buffers i with waiting_for_submit := flags i } }

theorem Onward.refl (s : Manager) : Onward s s :=
  ⟨s.queue, s.handedOver, s.gpu, s.finished, s.looks,
    fun i => (s.m_command_buffers i).waiting_for_submit, rfl⟩

theorem Onward.trans {s s' s'' : Manager} (first : Onward s s') (second : Onward s' s'') :
    Onward s s'' := by
  obtain ⟨_, _, _, _, _, _, rfl⟩ := first
  obtain ⟨queue, handedOver, gpu, finished, looks, flags, rfl⟩ := second
  exact ⟨queue, handedOver, gpu, finished, looks, flags, rfl⟩

theorem Onward.kept {s s' : Manager} (onward : Onward s s') : Kept s s' := by
  obtain ⟨_, _, _, _, _, _, rfl⟩ := onward
  exact ⟨rfl, rfl, rfl, rfl, rfl, fun _ => rfl, fun _ => rfl⟩

theorem Onward.log {s s' : Manager} (onward : Onward s s') : s'.log = s.log := by
  obtain ⟨_, _, _, _, _, _, rfl⟩ := onward
  rfl

theorem Onward.completed {s s' : Manager} (onward : Onward s s') :
    s'.m_completed_fence_counter = s.m_completed_fence_counter := by
  obtain ⟨_, _, _, _, _, _, rfl⟩ := onward
  rfl

theorem onward_gpuStep (s : Manager) : Onward s s.gpuStep := by
  unfold gpuStep
  split
  · exact .refl s
  · exact ⟨s.queue, s.handedOver, _, _, s.looks,
      fun i => (s.m_command_buffers i).waiting_for_submit, rfl⟩

theorem onward_workerStep (s : Manager) : Onward s s.workerStep := by
  unfold workerStep
  split
  · exact .refl s
  · rename_i index rest _
    split
    · refine ⟨rest, false, s.gpu, s.finished, s.looks,
        Function.update (fun i => (s.m_command_buffers i).waiting_for_submit) index false, ?_⟩
      simp only [setBuffer]
      congr 1
      funext i
      by_cases same : i = index
      · subst same
        simp
      · simp [Function.update_of_ne same]
    · exact ⟨s.queue, true, _, s.finished, s.looks,
        fun i => (s.m_command_buffers i).waiting_for_submit, rfl⟩

/-- The objects destroyed. -/
def destroyed (s : Manager) : List Nat :=
  s.log.filterMap fun
    | .destroy object _ => some object.id
    | _ => none

/-- The objects that wait to be destroyed. -/
def pending (s : Manager) : List Nat :=
  (List.range NUM_COMMAND_BUFFERS).flatMap fun i =>
    (s.m_command_buffers i).cleanup_resources.map (·.id)

/-- Every object waits with its command buffer or a later one in that place, or was destroyed
once. -/
structure Objects (s : Manager) : Prop where
  attached : ∀ i, ∀ object ∈ (s.m_command_buffers i).cleanup_resources,
    1 ≤ object.attached ∧ object.attached ≤ (s.m_command_buffers i).fence_counter
  once : (s.destroyed ++ s.pending).Perm (List.range s.deferred)

/-- The worker and the GPU. -/
structure Device (C L f h p : Nat) (s : Manager) : Prop where
  finished_le : f ≤ h
  submitted_le : h ≤ L
  handedOver : h = p + s.handedOver.toNat
  idle : s.m_use_threaded_submission = false → p = L
  queue : s.queue = (List.range' (p + 1) (L - p)).map slot
  gpu : s.gpu = List.range' (f + 1) (h - f)
  finished : ∀ c, c ∈ s.finished ↔ 1 ≤ c ∧ c ≤ f
  flags : ∀ c, 1 ≤ c → c ≤ C → C < c + 8 →
    ((s.m_command_buffers (slot c)).waiting_for_submit = true ↔ p < c ∧ c ≤ L)
  unused : ∀ i, C ≤ i → i < 8 → (s.m_command_buffers i).waiting_for_submit = false
  fits : C ≤ p + 8

/-- The counters of the ring, and the frames. -/
structure Ring (C L : Nat) (s : Manager) : Prop where
  next : s.m_next_fence_counter = C + 1
  current : s.m_current_cmd_buffer = slot C
  le : L ≤ C
  counter : ∀ c, 1 ≤ c → c ≤ C → C < c + 8 →
    (s.m_command_buffers (slot c)).fence_counter = c
  unused : ∀ i, C ≤ i → i < 8 → (s.m_command_buffers i).fence_counter = 0
  frames : 2 ≤ s.m_frames_in_flight
  frame : s.m_current_frame < s.m_frames_in_flight

section
variable {C L f h p : Nat} {s s' : Manager}

theorem Ring.kept (ring : Ring C L s) (kept : Kept s s') : Ring C L s' where
  next := kept.next.trans ring.next
  current := kept.current.trans ring.current
  le := ring.le
  counter c pos le near := (kept.counter _).trans (ring.counter c pos le near)
  unused i free lt := (kept.counter i).trans (ring.unused i free lt)
  frames := kept.frames_in_flight ▸ ring.frames
  frame := by rw [kept.frame, kept.frames_in_flight]; exact ring.frame

theorem Device.let_go_le (d : Device C L f h p s) : p ≤ h := by
  have := d.handedOver
  omega

/-! ## What the worker and the GPU do -/

theorem Device.gpuStep (d : Device C L f h p s) (busy : f < h) :
    Device C L (f + 1) h p s.gpuStep := by
  obtain ⟨n, rest⟩ : ∃ n, h - f = n + 1 := ⟨h - f - 1, by omega⟩
  have gpu := d.gpu
  rw [rest, List.range'_succ] at gpu
  unfold Manager.gpuStep
  rw [gpu]
  refine ⟨busy, d.submitted_le, d.handedOver, d.idle, d.queue, ?_, fun c => ?_, d.flags, d.unused,
    d.fits⟩
  · rw [show h - (f + 1) = n by omega]
  · rw [List.mem_cons, d.finished]
    omega

theorem Device.gpuStep_idle (d : Device C L f h p s) (idle : f = h) : s.gpuStep = s := by
  have gpu := d.gpu
  rw [idle, Nat.sub_self] at gpu
  unfold Manager.gpuStep
  rw [gpu]
  rfl

theorem Device.workerStep_idle (d : Device C L f h p s) (idle : p = L) : s.workerStep = s := by
  have queue := d.queue
  rw [idle, Nat.sub_self] at queue
  unfold Manager.workerStep
  rw [queue]
  rfl

/-- The worker submits its first command buffer, or lets go of it. -/
theorem Device.workerStep (d : Device C L f h p s) (ring : Ring C L s) (busy : p < L) :
    ∃ h' p', h ≤ h' ∧ p ≤ p' ∧ p' + h' = p + h + 1 ∧ Device C L f h' p' s.workerStep := by
  obtain ⟨n, rest⟩ : ∃ n, L - p = n + 1 := ⟨L - p - 1, by omega⟩
  have queue := d.queue
  have le := ring.le
  have fits := d.fits
  have handedOver := d.handedOver
  rw [rest, List.range'_succ, List.map_cons] at queue
  unfold Manager.workerStep
  rw [queue]
  cases over_handed : s.handedOver with
  | true =>
      rw [over_handed] at handedOver
      refine ⟨h, p + 1, Nat.le_refl h, Nat.le_succ p, by omega, d.finished_le, d.submitted_le,
        handedOver, fun off => ?_, ?_, d.gpu, d.finished, fun c pos inside near => ?_,
        fun i free lt => ?_, by omega⟩
      · have := d.idle off
        omega
      · rw [show L - (p + 1) = n by omega]
        rfl
      · by_cases same : c = p + 1
        · subst same
          simp [setBuffer]
        · have apart : slot c ≠ slot (p + 1) := by
            rcases Nat.lt_or_gt_of_ne same with lt | gt
            · exact slot_ne lt (by omega)
            · exact (slot_ne gt (by omega)).symm
          simp only [setBuffer, ↓reduceIte, Function.update_of_ne apart,
            d.flags c pos inside near]
          omega
      · have apart : i ≠ slot (p + 1) := by
          simp only [slot, NUM_COMMAND_BUFFERS]
          omega
        simpa only [setBuffer, ↓reduceIte, Function.update_of_ne apart] using d.unused i free lt
  | false =>
      rw [over_handed] at handedOver
      have same : h = p := handedOver
      subst same
      refine ⟨h + 1, h, Nat.le_succ h, Nat.le_refl h, by omega, ?_, by omega, rfl, d.idle,
        d.queue, ?_, d.finished, d.flags, d.unused, d.fits⟩
      · exact Nat.le_succ_of_le d.finished_le
      · have counter := ring.counter (h + 1) (by omega) (by omega) (by omega)
        have finished := d.finished_le
        simp only [Bool.false_eq_true, ↓reduceIte, submitToQueue, counter, d.gpu]
        rw [show h + 1 - f = (h - f) + 1 by omega, List.range'_concat]
        congr 2
        omega

/-- The worker and the GPU went on from one state of the device to another. -/
def Went (C L f h p : Nat) (s s' : Manager) : Prop :=
  Onward s s' ∧ ∃ f' h' p', f ≤ f' ∧ h ≤ h' ∧ p ≤ p' ∧ Device C L f' h' p' s'

theorem Went.refl (d : Device C L f h p s) : Went C L f h p s s :=
  ⟨.refl s, f, h, p, Nat.le_refl f, Nat.le_refl h, Nat.le_refl p, d⟩

theorem went_proceed (d : Device C L f h p s) (ring : Ring C L s) (progress : List Progress) :
    Went C L f h p s (proceed progress s) := by
  induction progress generalizing s f h p with
  | nil => exact .refl d
  | cons turn rest ih =>
      cases turn with
      | worker =>
          rcases Nat.eq_or_lt_of_le (Nat.le_trans d.let_go_le d.submitted_le) with idle | busy
          · rw [proceed, d.workerStep_idle idle]
            exact ih d ring
          · obtain ⟨h₁, p₁, h_le, p_le, -, d₁⟩ := d.workerStep ring busy
            obtain ⟨onward, f₂, h₂, p₂, f_le', h_le', p_le', d₂⟩ :=
              ih d₁ (ring.kept (onward_workerStep s).kept)
            exact ⟨(onward_workerStep s).trans onward, f₂, h₂, p₂, f_le', by omega, by omega, d₂⟩
      | gpu =>
          rcases Nat.eq_or_lt_of_le d.finished_le with idle | busy
          · rw [proceed, d.gpuStep_idle idle]
            exact ih d ring
          · obtain ⟨onward, f₂, h₂, p₂, f_le', h_le', p_le', d₂⟩ :=
              ih (d.gpuStep busy) (ring.kept (onward_gpuStep s).kept)
            exact ⟨(onward_gpuStep s).trans onward, f₂, h₂, p₂, by omega, h_le', p_le', d₂⟩

theorem went_look (d : Device C L f h p s) (ring : Ring C L s) : Went C L f h p s s.look := by
  obtain ⟨onward, f', h', p', f_le, h_le, p_le, d'⟩ := went_proceed d ring (s.progress s.looks)
  obtain ⟨queue, handedOver, gpu, finished, looks, flags, eq⟩ := onward
  refine ⟨⟨queue, handedOver, gpu, finished, s.looks + 1, flags, ?_⟩, f', h', p', f_le, h_le, p_le,
    ⟨d'.finished_le, d'.submitted_le, d'.handedOver, d'.idle, d'.queue, d'.gpu, d'.finished,
      d'.flags, d'.unused, d'.fits⟩⟩
  rw [look, eq]

/-- Twice as many steps as there are command buffers empty the queue. -/
theorem went_workerSteps (n : Nat) (d : Device C L f h p s) (ring : Ring C L s)
    (enough : 2 * L ≤ p + h + n) :
    Onward s (Manager.workerStep^[n] s) ∧ Device C L f L L (Manager.workerStep^[n] s) := by
  have let_go := d.let_go_le
  have submitted := d.submitted_le
  induction n generalizing s h p with
  | zero =>
      obtain rfl : h = L := by omega
      obtain rfl : p = h := by omega
      exact ⟨.refl s, d⟩
  | succ n ih =>
      rw [Function.iterate_succ_apply]
      rcases Nat.eq_or_lt_of_le (Nat.le_trans let_go submitted) with idle | busy
      · rw [d.workerStep_idle idle]
        exact ih d ring (by omega) let_go submitted
      · obtain ⟨h₁, p₁, h_le, p_le, step, d₁⟩ := d.workerStep ring busy
        obtain ⟨onward, d₂⟩ := ih d₁ (ring.kept (onward_workerStep s).kept) (by omega)
          d₁.let_go_le d₁.submitted_le
        exact ⟨(onward_workerStep s).trans onward, d₂⟩

theorem waitForWorkerThreadIdle_spec (d : Device C L f h p s) (ring : Ring C L s) :
    Onward s s.waitForWorkerThreadIdle ∧
      ∃ f', f ≤ f' ∧ Device C L f' L L s.waitForWorkerThreadIdle := by
  unfold waitForWorkerThreadIdle
  split
  · rename_i off
    have idle := d.idle off
    have let_go := d.let_go_le
    have submitted := d.submitted_le
    obtain rfl : h = L := by omega
    obtain rfl : p = h := by omega
    exact ⟨.refl s, f, Nat.le_refl f, d⟩
  · obtain ⟨onward, f', h', p', f_le, h_le, p_le, d'⟩ := went_look d ring
    have enough : 2 * L ≤ p' + h' + 2 * s.look.queue.length := by
      have let_go := d'.let_go_le
      rw [d'.queue, List.length_map, List.length_range']
      omega
    obtain ⟨steps, done⟩ := went_workerSteps _ d' (ring.kept onward.kept) enough
    exact ⟨onward.trans steps, f', f_le, done⟩

theorem went_gpuSteps (n : Nat) (d : Device C L f h p s) (enough : f + n ≤ h) :
    Onward s (Manager.gpuStep^[n] s) ∧ Device C L (f + n) h p (Manager.gpuStep^[n] s) := by
  induction n generalizing s f with
  | zero => exact ⟨.refl s, d⟩
  | succ n ih =>
      rw [Function.iterate_succ_apply]
      obtain ⟨onward, d'⟩ := ih (d.gpuStep (by omega)) (by omega)
      rw [show f + 1 + n = f + (n + 1) by omega] at d'
      exact ⟨(onward_gpuStep s).trans onward, d'⟩

/-- Objects of finished command buffers were destroyed, and what concerns them was recorded. -/
def Cleaned (s s' : Manager) : Prop :=
  ∃ (lists : Nat → List Deferred) (log : List Event), s' = { s with
    log
    m_command_buffers := fun i => { s.m_command_buffers i with cleanup_resources := lists i } }

theorem Cleaned.refl (s : Manager) : Cleaned s s :=
  ⟨fun i => (s.m_command_buffers i).cleanup_resources, s.log, rfl⟩

theorem Cleaned.trans {s'' : Manager} (first : Cleaned s s') (second : Cleaned s' s'') :
    Cleaned s s'' := by
  obtain ⟨_, _, rfl⟩ := first
  obtain ⟨lists, log, rfl⟩ := second
  exact ⟨lists, log, rfl⟩

theorem Cleaned.kept (cleaned : Cleaned s s') : Kept s s' := by
  obtain ⟨_, _, rfl⟩ := cleaned
  exact ⟨rfl, rfl, rfl, rfl, rfl, fun _ => rfl, fun _ => rfl⟩

theorem Cleaned.completed (cleaned : Cleaned s s') :
    s'.m_completed_fence_counter = s.m_completed_fence_counter := by
  obtain ⟨_, _, rfl⟩ := cleaned
  rfl

theorem cleaned_record (s : Manager) (event : Event) : Cleaned s (s.record event) :=
  ⟨fun i => (s.m_command_buffers i).cleanup_resources, s.log ++ [event], rfl⟩

theorem Device.cleaned (d : Device C L f h p s) (cleaned : Cleaned s s') :
    Device C L f h p s' := by
  obtain ⟨_, _, rfl⟩ := cleaned
  exact ⟨d.finished_le, d.submitted_le, d.handedOver, d.idle, d.queue, d.gpu, d.finished, d.flags,
    d.unused, d.fits⟩

theorem Device.complete (d : Device C L f h p s) (c : Nat) :
    Device C L f h p { s with m_completed_fence_counter := c } :=
  ⟨d.finished_le, d.submitted_le, d.handedOver, d.idle, d.queue, d.gpu, d.finished, d.flags,
    d.unused, d.fits⟩

/-! ## Objects and events -/

theorem pending_split (s : Manager) {index : Nat} (lt : index < 8) :
    ∃ rest, s.pending.Perm ((s.m_command_buffers index).cleanup_resources.map (·.id) ++ rest) ∧
      ∀ resources, (s.setBuffer index resources).pending.Perm
        (resources.cleanup_resources.map (·.id) ++ rest) := by
  obtain ⟨rest, before, after⟩ := flatMap_update_perm List.nodup_range (List.mem_range.mpr lt)
    fun i => (s.m_command_buffers i).cleanup_resources.map (·.id)
  refine ⟨rest, before, fun resources => ?_⟩
  have now := after (resources.cleanup_resources.map (·.id))
  have same : (fun i => ((s.setBuffer index resources).m_command_buffers i).cleanup_resources.map
      (·.id)) = Function.update
        (fun i => (s.m_command_buffers i).cleanup_resources.map (·.id)) index
        (resources.cleanup_resources.map (·.id)) := by
    funext i
    by_cases here : i = index
    · subst here
      simp [setBuffer]
    · simp [setBuffer, Function.update_of_ne here]
  rw [← same] at now
  exact now

theorem Objects.onward (objects : Objects s) (onward : Onward s s') : Objects s' := by
  obtain ⟨_, _, _, _, _, _, rfl⟩ := onward
  exact ⟨objects.attached, objects.once⟩

theorem Objects.record {event : Event} (objects : Objects s)
    (other : ∀ object finished, event ≠ .destroy object finished) : Objects (s.record event) where
  attached := objects.attached
  once := by
    have none : (s.record event).destroyed = s.destroyed := by
      cases event with
      | destroy object finished => exact absurd rfl (other object finished)
      | _ => simp [destroyed, Manager.record]
    rw [none]
    exact objects.once

theorem Objects.complete (objects : Objects s) (c : Nat) :
    Objects { s with m_completed_fence_counter := c } := ⟨objects.attached, objects.once⟩

/-- Objects are destroyed when their command buffer has finished. -/
theorem Objects.destroyAll {index : Nat} (lt : index < 8) (objects : Objects s)
    (fine : ∀ event ∈ s.log, event.Fine)
    (finished : ∀ c, 1 ≤ c → c ≤ (s.m_command_buffers index).fence_counter → c ∈ s.finished) :
    Cleaned s (s.destroyAll index) ∧ Objects (s.destroyAll index) ∧
      ∀ event ∈ (s.destroyAll index).log, event.Fine := by
  obtain ⟨rest, before, after⟩ := pending_split s lt
  refine ⟨⟨Function.update (fun i => (s.m_command_buffers i).cleanup_resources) index [],
    (s.destroyAll index).log, ?_⟩, ⟨fun i object mem => ?_, ?_⟩, fun event mem => ?_⟩
  · unfold Manager.destroyAll
    simp only [setBuffer]
    congr 1
    funext i
    by_cases same : i = index
    · subst same
      simp
    · simp [Function.update_of_ne same]
  · by_cases same : i = index
    · subst same
      simp [Manager.destroyAll, setBuffer] at mem
    · simp only [Manager.destroyAll, setBuffer, Function.update_of_ne same] at mem ⊢
      exact objects.attached i object mem
  · have gone : (s.destroyAll index).destroyed =
        s.destroyed ++ (s.m_command_buffers index).cleanup_resources.map (·.id) := by
      simp [destroyed, Manager.destroyAll, List.filterMap_map]
    have kept : (s.destroyAll index).pending.Perm rest :=
      after { s.m_command_buffers index with cleanup_resources := [] }
    rw [gone, List.append_assoc]
    calc s.destroyed ++ ((s.m_command_buffers index).cleanup_resources.map (·.id) ++
          (s.destroyAll index).pending)
      List.Perm _ (s.destroyed ++ ((s.m_command_buffers index).cleanup_resources.map (·.id) ++
          rest)) := .append_left _ (.append_left _ kept)
      List.Perm _ (s.destroyed ++ s.pending) := .append_left _ before.symm
      List.Perm _ (List.range s.deferred) := objects.once
  · rcases List.mem_append.mp mem with old | new
    · exact fine event old
    · obtain ⟨object, inside, rfl⟩ := List.mem_map.mp new
      have attached := objects.attached index object inside
      exact decide_eq_true (finished _ attached.1 attached.2)

/-! ## Waiting for a command buffer -/

theorem Onward.record (onward : Onward s s') (event : Event) :
    Onward (s.record event) (s'.record event) := by
  obtain ⟨queue, handedOver, gpu, finished, looks, flags, rfl⟩ := onward
  exact ⟨queue, handedOver, gpu, finished, looks, flags, rfl⟩

theorem fine_record {new : Event} (fine : ∀ event ∈ s.log, event.Fine) (fits : new.Fine) :
    ∀ event ∈ (s.record new).log, event.Fine := by
  intro event mem
  rcases List.mem_append.mp mem with old | same
  · exact fine event old
  · cases List.mem_singleton.mp same
    exact fits

theorem idxOf_range' {a c n : Nat} (le : a ≤ c) (lt : c < a + n) :
    (List.range' a n).idxOf c = c - a := by
  have inside : c - a < (List.range' a n).length := by
    rw [List.length_range']
    omega
  have here := List.nodup_range' (s := a) (n := n) |>.idxOf_getElem (c - a) inside
  rwa [List.getElem_range', Nat.one_mul, Nat.add_sub_cancel' le] at here

/-- The fence of a submitted command buffer is waited for. -/
theorem waitForFence_spec {c : Nat} (d : Device C L f h p s) (ring : Ring C L s) (pos : 1 ≤ c)
    (le : c ≤ L) (near : C < c + 8) (let_go : c ≤ p) :
    ∃ waiting_for_submit submitted,
      (Event.wait (slot c) waiting_for_submit submitted).Fine ∧
      Onward (s.record (.wait (slot c) waiting_for_submit submitted)) (s.waitForFence (slot c)) ∧
      ∃ f' h' p', f ≤ f' ∧ c ≤ f' ∧ p ≤ p' ∧ Device C L f' h' p' (s.waitForFence (slot c)) := by
  obtain ⟨onward, f', h', p', f_le, h_le, p_le, d'⟩ := went_look d ring
  have counter := (ring.kept onward.kept).counter c pos (Nat.le_trans le ring.le) near
  have flag : (s.look.m_command_buffers (slot c)).waiting_for_submit = false := by
    rw [Bool.eq_false_iff, ne_eq, d'.flags c pos (Nat.le_trans le ring.le) near]
    omega
  have submitted := d'.let_go_le
  have known : c ∈ s.look.gpu ∨ c ∈ s.look.finished := by
    rw [d'.gpu, d'.finished, List.mem_range'_1]
    omega
  unfold waitForFence
  dsimp only
  rw [counter, flag]
  refine ⟨false, _, ⟨rfl, decide_eq_true known⟩, ?_⟩
  have d'' := d'.cleaned (cleaned_record s.look
    (.wait (slot c) false (decide (c ∈ s.look.gpu ∨ c ∈ s.look.finished))))
  split
  · rename_i running
    have running' : c ∈ List.range' (f' + 1) (h' - f') := d'.gpu ▸ running
    have before : f' + 1 ≤ c := (List.mem_range'_1.mp running').1
    have inside := (List.mem_range'_1.mp running').2
    have index : s.look.gpu.idxOf c + 1 = c - f' := by
      rw [d'.gpu, idxOf_range' before inside]
      omega
    obtain ⟨steps, done⟩ := went_gpuSteps (c - f') d'' (by omega)
    rw [show (s.look.record _).gpu = s.look.gpu from rfl, index]
    exact ⟨(onward.record _).trans steps, f' + (c - f'), h', p', by omega, by omega, p_le, done⟩
  · rename_i waits
    have done := (d'.finished c).mp (known.resolve_left waits)
    exact ⟨onward.record _, f', h', p', f_le, done.2, p_le, d''⟩

theorem cleanup_spec {now : Nat} (l : List Nat) (inside : ∀ i ∈ l, i < 8) (objects : Objects s)
    (fine : ∀ event ∈ s.log, event.Fine) (finished : ∀ c, 1 ≤ c → c ≤ now → c ∈ s.finished) :
    Cleaned s (s.cleanup now l) ∧ Objects (s.cleanup now l) ∧
      ∀ event ∈ (s.cleanup now l).log, event.Fine := by
  induction l generalizing s with
  | nil => exact ⟨.refl s, objects, fine⟩
  | cons index rest ih =>
      rw [cleanup]
      split_ifs with later completed
      · exact ⟨.refl s, objects, fine⟩
      · obtain ⟨cleaned, objects', fine'⟩ := objects.destroyAll (inside index List.mem_cons_self)
          fine fun c pos le => finished c pos (Nat.le_trans le (Nat.le_of_not_lt later))
        have finished' : ∀ c, 1 ≤ c → c ≤ now → c ∈ (s.destroyAll index).finished := finished
        obtain ⟨cleaned', rest⟩ :=
          ih (fun i mem => inside i (List.mem_cons_of_mem _ mem)) objects' fine' finished'
        exact ⟨cleaned.trans cleaned', rest⟩
      · exact ih (fun i mem => inside i (List.mem_cons_of_mem _ mem)) objects fine finished

theorem others_eq (ring : Ring C L s) :
    s.others = (List.range 7).map fun i => slot (C + 1 + i) := by
  simp only [others, ring.current, slot, NUM_COMMAND_BUFFERS]
  refine List.map_congr_left fun i mem => ?_
  have := List.mem_range.mp mem
  omega

theorem others_lt (ring : Ring C L s) : ∀ i ∈ s.others, i < 8 := by
  intro i mem
  rw [others_eq ring] at mem
  obtain ⟨j, -, rfl⟩ := List.mem_map.mp mem
  exact slot_lt _

/-- The command buffers before the current one are among the others. -/
theorem mem_others (ring : Ring C L s) {c : Nat} (lt : c < C) (near : C < c + 8) :
    slot c ∈ s.others := by
  rw [others_eq ring]
  refine List.mem_map.mpr ⟨c + 7 - C, List.mem_range.mpr (by omega), ?_⟩
  simp only [slot, NUM_COMMAND_BUFFERS]
  omega

/-- The other places belong to the last seven counters or were not used yet. -/
theorem others_cases (ring : Ring C L s) {i : Nat} (mem : i ∈ s.others) :
    (∃ c, 1 ≤ c ∧ c < C ∧ C < c + 8 ∧ i = slot c) ∨ C ≤ i ∧ i < 8 := by
  rw [others_eq ring] at mem
  obtain ⟨j, inside, rfl⟩ := List.mem_map.mp mem
  have lt := List.mem_range.mp inside
  rcases slot_cases C (slot_lt (C + 1 + j)) with ⟨c, pos, le, near, eq⟩ | free
  · refine .inl ⟨c, pos, ?_, near, eq⟩
    rcases Nat.eq_or_lt_of_le le with rfl | lt
    · exact absurd eq.symm (slot_ne (by omega) (by omega))
    · exact lt
  · exact .inr ⟨free, slot_lt _⟩

/-- The state between the steps of the caller, who has handed over the command buffers up to
`L`. -/
structure At (C L : Nat) (s : Manager) : Prop where
  ring : Ring C L s
  device : ∃ f h p, Device C L f h p s ∧ s.m_completed_fence_counter ≤ f ∧
    s.m_completed_fence_counter ≤ p
  last : ∀ frame, s.last_fence_counter frame = 0 ∨ s.last_fence_counter frame ≤ L ∧
    (s.last_fence_counter frame ≤ s.m_completed_fence_counter ∨
      C < s.last_fence_counter frame + 8 ∧
        (s.m_command_buffers (slot (s.last_fence_counter frame))).frame_index = frame)
  objects : Objects s
  fine : ∀ event ∈ s.log, event.Fine

/-- The caller learns that the command buffer of `c` has finished. -/
theorem At.wait {c : Nat} (now : At C L s) (pos : 1 ≤ c) (le : c ≤ L) (near : C < c + 8)
    (later : s.m_completed_fence_counter ≤ c) :
    At C L (s.waitForCommandBufferCompletion (slot c)) ∧
      (s.waitForCommandBufferCompletion (slot c)).m_completed_fence_counter = c ∧
      Kept s (s.waitForCommandBufferCompletion (slot c)) := by
  obtain ⟨f, h, p, d, f_done, p_done⟩ := now.device
  have ring := now.ring
  have le_C := Nat.le_trans le ring.le
  obtain ⟨looked, f₁, h₁, p₁, f_le₁, -, p_le₁, d₁⟩ := went_look d ring
  have submitted : ∃ s₂, s₂ = (if (s.look.m_command_buffers (slot c)).waiting_for_submit then
      s.look.waitForWorkerThreadIdle else s.look) ∧ Onward s s₂ ∧
      ∃ f₂ h₂ p₂, f ≤ f₂ ∧ p ≤ p₂ ∧ c ≤ p₂ ∧ Device C L f₂ h₂ p₂ s₂ := by
    refine ⟨_, rfl, ?_⟩
    split
    · obtain ⟨idle, f₂, f_le₂, d₂⟩ := waitForWorkerThreadIdle_spec d₁ (ring.kept looked.kept)
      exact ⟨looked.trans idle, f₂, L, L, by omega,
        Nat.le_trans d.let_go_le d.submitted_le, le, d₂⟩
    · rename_i flag
      rw [d₁.flags c pos le_C near] at flag
      exact ⟨looked, f₁, h₁, p₁, f_le₁, p_le₁, by omega, d₁⟩
  obtain ⟨s₂, eq₂, onward₂, f₂, h₂, p₂, f_le₂, p_le₂, let_go, d₂⟩ := submitted
  obtain ⟨_, _, fine₃, onward₃, f₃, h₃, p₃, f_le₃, c_le₃, p_le₃, d₃⟩ :=
    waitForFence_spec d₂ (ring.kept onward₂.kept) pos le near let_go
  have onward := (onward₂.record _).trans onward₃
  have kept := (cleaned_record s _).kept.trans onward.kept
  have ring₃ := ring.kept kept
  have counter := ring₃.counter c pos le_C near
  have completed₃ : (s₂.waitForFence (slot c)).m_completed_fence_counter =
    s.m_completed_fence_counter := onward.completed
  have objects₃ := (now.objects.record (fun _ _ eq => by cases eq)).onward onward
  have log₃ : ∀ event ∈ (s₂.waitForFence (slot c)).log, event.Fine := by
    rw [onward.log]
    exact fine_record now.fine fine₃
  obtain ⟨cleaned, objects₄, log₄⟩ := cleanup_spec _ (others_lt ring₃) objects₃ log₃
    (fun c' pos' le' => (d₃.finished c').mpr ⟨pos', Nat.le_trans le' c_le₃⟩)
  have d₄ := d₃.cleaned cleaned
  have kept₄ := kept.trans cleaned.kept
  unfold waitForCommandBufferCompletion
  dsimp only
  rw [← eq₂, counter]
  have all : (List.range' 1 c).all (· ∈ ((s₂.waitForFence (slot c)).cleanup c
      (s₂.waitForFence (slot c)).others).finished) = true := by
    refine List.all_eq_true.mpr fun c' mem => decide_eq_true ((d₄.finished c').mpr ?_)
    have := List.mem_range'_1.mp mem
    omega
  have kept₅ := fun event => (kept₄.trans (cleaned_record _ event).kept).complete c
  refine ⟨⟨ring.kept (kept₅ _),
    ⟨f₃, h₃, p₃, (d₄.cleaned (cleaned_record _ _)).complete c, c_le₃, Nat.le_trans let_go p_le₃⟩,
    fun frame => ?_, ?_, ?_⟩, rfl, kept₅ _⟩
  · rw [(kept₅ _).last, (kept₅ _).frame_index]
    rcases now.last frame with zero | ⟨le_L, done | recent⟩
    · exact .inl zero
    · exact .inr ⟨le_L, .inl (Nat.le_trans done later)⟩
    · exact .inr ⟨le_L, .inr recent⟩
  · have recorded := fun before finished => (objects₄.record fun _ _
      (eq : Event.completed before c finished = _) => by cases eq).complete c
    exact recorded _ _
  · exact fine_record log₄ ⟨by rwa [cleaned.completed, completed₃], all⟩

/-! ## The steps of the caller -/

/-- The same state, as far as the ring is concerned, after something was recorded. -/
theorem At.record {event : Event} (now : At C L s) (fits : event.Fine)
    (other : ∀ object finished, event ≠ .destroy object finished) : At C L (s.record event) where
  ring := now.ring.kept (cleaned_record s event).kept
  device := by
    obtain ⟨f, h, p, d, done⟩ := now.device
    exact ⟨f, h, p, d.cleaned (cleaned_record s event), done⟩
  last := now.last
  objects := now.objects.record other
  fine := fine_record now.fine fits

theorem At.completed_le (now : At C L s) : s.m_completed_fence_counter ≤ L := by
  obtain ⟨f, h, p, d, done, -⟩ := now.device
  exact Nat.le_trans done (Nat.le_trans d.finished_le d.submitted_le)

/-- Whoever waits for one of the others when it has not completed. -/
theorem At.wait_of_others {i : Nat} (now : At C L s) (all : C ≤ L + 1) (mem : i ∈ s.others)
    (later : s.m_completed_fence_counter < (s.m_command_buffers i).fence_counter) :
    At C L (s.waitForCommandBufferCompletion i) ∧
      (s.waitForCommandBufferCompletion i).m_completed_fence_counter =
        (s.m_command_buffers i).fence_counter ∧
      Kept s (s.waitForCommandBufferCompletion i) := by
  rcases others_cases now.ring mem with ⟨c, pos, lt, near, rfl⟩ | ⟨free, lt⟩
  · rw [now.ring.counter c pos (Nat.le_of_lt lt) near] at later ⊢
    exact now.wait pos (by omega) near (Nat.le_of_lt later)
  · rw [now.ring.unused i free lt] at later
    exact absurd later (Nat.not_lt_zero _)

theorem At.waitForFenceCounter {counter : Nat} (now : At C L s) (all : C ≤ L + 1)
    (lt : counter < C) (fits : C ≤ s.m_completed_fence_counter + 8) :
    At C L (s.waitForFenceCounter counter) ∧ Kept s (s.waitForFenceCounter counter) ∧
      s.m_completed_fence_counter ≤ (s.waitForFenceCounter counter).m_completed_fence_counter := by
  unfold Manager.waitForFenceCounter
  split
  · exact ⟨now, .refl s, Nat.le_refl _⟩
  · rename_i later
    have mem : slot counter ∈ s.others := mem_others now.ring lt (by omega)
    have covers := now.ring.counter counter (by omega) (Nat.le_of_lt lt) (by omega)
    cases found : s.others.find? fun index =>
        decide (counter ≤ (s.m_command_buffers index).fence_counter) with
    | none =>
        have := List.find?_eq_none.mp found _ mem
        simp [covers] at this
    | some index =>
        have inside := List.mem_of_find?_eq_some found
        have reaches := List.find?_some found
        have recorded := (@At.record C L s (.covered true) now) rfl (fun _ _ eq => by cases eq)
        have before : s.m_completed_fence_counter < (s.m_command_buffers index).fence_counter := by
          have := of_decide_eq_true reaches
          omega
        obtain ⟨at_end, completed, kept⟩ := recorded.wait_of_others all inside before
        exact ⟨at_end, (cleaned_record s _).kept.trans kept, completed ▸ Nat.le_of_lt before⟩

/-- After the loop every command buffer of the frame in `l` has completed. -/
theorem At.waitForFrame (l : List Nat) (now : At C L s) (all : C ≤ L + 1)
    (inside : ∀ i ∈ l, i ∈ s.others) :
    At C L (s.waitForFrame l) ∧ Kept s (s.waitForFrame l) ∧
      s.m_completed_fence_counter ≤ (s.waitForFrame l).m_completed_fence_counter ∧
      ∀ i ∈ l, (s.m_command_buffers i).frame_index = s.m_current_frame →
        (s.m_command_buffers i).fence_counter ≤
          (s.waitForFrame l).m_completed_fence_counter := by
  induction l generalizing s with
  | nil => exact ⟨now, .refl s, Nat.le_refl _, fun _ mem => absurd mem List.not_mem_nil⟩
  | cons index rest ih =>
      rw [Manager.waitForFrame]
      have step : ∃ s₁, s₁ = (if (s.m_command_buffers index).frame_index = s.m_current_frame ∧
            (s.m_command_buffers index).fence_counter ≠ 0 ∧
            s.m_completed_fence_counter < (s.m_command_buffers index).fence_counter then
          s.waitForCommandBufferCompletion index else s) ∧ At C L s₁ ∧ Kept s s₁ ∧
          s.m_completed_fence_counter ≤ s₁.m_completed_fence_counter ∧
          ((s.m_command_buffers index).frame_index = s.m_current_frame →
            (s.m_command_buffers index).fence_counter ≤ s₁.m_completed_fence_counter) := by
        refine ⟨_, rfl, ?_⟩
        split
        · rename_i due
          obtain ⟨after, completed, kept⟩ :=
            now.wait_of_others all (inside index List.mem_cons_self) due.2.2
          exact ⟨after, kept, by omega, fun _ => Nat.le_of_eq completed.symm⟩
        · exact ⟨now, .refl s, Nat.le_refl _, fun same => by omega⟩
      obtain ⟨s₁, eq, after, kept, le, reached⟩ := step
      rw [← eq]
      have others : s₁.others = s.others := by rw [Manager.others, kept.current, Manager.others]
      obtain ⟨at_end, kept', le', reached'⟩ := ih after fun i mem => by
        rw [others]
        exact inside i (List.mem_cons_of_mem _ mem)
      refine ⟨at_end, kept.trans kept', Nat.le_trans le le', fun i mem same => ?_⟩
      rcases List.mem_cons.mp mem with rfl | later
      · exact Nat.le_trans (reached same) le'
      · have := reached' i later (by rw [kept.frame_index, kept.frame]; exact same)
        rwa [kept.counter] at this

/-- The current command buffer was handed over. -/
theorem At.handOver (now : At C L s) (all : C = L + 1) (onward : Onward s s')
    (device : ∃ f h p, Device C C f h p s' ∧ s.m_completed_fence_counter ≤ f ∧
      s.m_completed_fence_counter ≤ p) : At C C s' where
  ring := { now.ring.kept onward.kept with le := Nat.le_refl C }
  device := by
    rw [onward.completed]
    exact device
  last frame := by
    rw [onward.kept.last, onward.kept.frame_index, onward.completed]
    rcases now.last frame with zero | ⟨le, done⟩
    · exact .inl zero
    · exact .inr ⟨by omega, done⟩
  objects := now.objects.onward onward
  fine := onward.log ▸ now.fine

/-- The command buffer is pushed to the worker. -/
theorem Device.push (d : Device C L f h p s) (all : C = L + 1)
    (threaded : s.m_use_threaded_submission = true) :
    Device C C f h p { s.setBuffer (slot C)
        { s.m_command_buffers (slot C) with waiting_for_submit := true } with
      queue := s.queue ++ [slot C] } := by
  have let_go := d.let_go_le
  have submitted := d.submitted_le
  refine ⟨d.finished_le, by omega, d.handedOver, fun off => ?_, ?_, d.gpu, d.finished,
    fun c pos le near => ?_, fun i free lt => ?_, d.fits⟩
  · cases threaded.symm.trans off
  · simp only [d.queue]
    rw [show C - p = (L - p) + 1 by omega, List.range'_concat, List.map_append]
    congr 3
    omega
  · by_cases same : c = C
    · subst same
      simp only [setBuffer, Function.update_self, true_iff]
      omega
    · simp only [setBuffer, Function.update_of_ne (slot_ne (Nat.lt_of_le_of_ne le same) near),
        d.flags c pos le near]
      omega
  · have apart : i ≠ slot C := by
      simp only [slot, NUM_COMMAND_BUFFERS]
      omega
    simpa only [setBuffer, Function.update_of_ne apart] using d.unused i free lt

/-- The command buffer is submitted by the caller. -/
theorem Device.submit (d : Device C L f L L s) (ring : Ring C L s) (all : C = L + 1) :
    Device C C f C C (s.submitToQueue (slot C)) := by
  have finished := d.finished_le
  have off : s.handedOver = false := by
    have := d.handedOver
    cases flag : s.handedOver with
    | false => rfl
    | true =>
        rw [flag] at this
        simp at this
  refine ⟨by omega, Nat.le_refl C, ?_, fun _ => rfl, ?_, ?_, d.finished, fun c pos le near => ?_,
    d.unused, Nat.le_add_right C 8⟩
  · rw [show (s.submitToQueue (slot C)).handedOver = false from off]
    rfl
  · rw [show (s.submitToQueue (slot C)).queue = s.queue from rfl, d.queue]
    simp
  · have counter := ring.counter C (by omega) (Nat.le_refl C) (by omega)
    simp only [submitToQueue, counter, d.gpu]
    rw [show C - f = (L - f) + 1 by omega, List.range'_concat]
    congr 2
    omega
  · rw [show ((s.submitToQueue (slot C)).m_command_buffers (slot c)) =
      s.m_command_buffers (slot c) from rfl, d.flags c pos le near]
    omega

theorem At.submitCurrent (now : At C L s) (all : C = L + 1) (worker wait : Bool) :
    At C C (s.submitCurrent worker wait) ∧ Kept s (s.submitCurrent worker wait) ∧
      s.m_completed_fence_counter ≤ (s.submitCurrent worker wait).m_completed_fence_counter := by
  obtain ⟨f, h, p, d, f_done, p_done⟩ := now.device
  have completed := now.completed_le
  unfold Manager.submitCurrent
  rw [now.ring.current]
  dsimp only
  split
  · rename_i on
    have onward : Onward s { s.setBuffer (slot C)
        { s.m_command_buffers (slot C) with waiting_for_submit := true } with
        queue := s.queue ++ [slot C] } := by
      refine ⟨s.queue ++ [slot C], s.handedOver, s.gpu, s.finished, s.looks,
        Function.update (fun i => (s.m_command_buffers i).waiting_for_submit) (slot C) true, ?_⟩
      simp only [setBuffer]
      congr 1
      funext i
      by_cases same : i = slot C
      · subst same
        simp
      · simp [Function.update_of_ne same]
    have threaded : s.m_use_threaded_submission = true := by
      simp only [Bool.and_eq_true] at on
      exact on.1.1
    exact ⟨now.handOver all onward ⟨f, h, p, d.push all threaded, f_done, p_done⟩, onward.kept,
      Nat.le_refl _⟩
  · obtain ⟨idle, f', f_le, d'⟩ := waitForWorkerThreadIdle_spec d now.ring
    have submitted : Onward s.waitForWorkerThreadIdle
        (s.waitForWorkerThreadIdle.submitToQueue (slot C)) :=
      ⟨_, _, _, _, _, fun i => (s.waitForWorkerThreadIdle.m_command_buffers i).waiting_for_submit,
        rfl⟩
    have onward := idle.trans submitted
    have after := now.handOver all onward ⟨f', C, C, d'.submit (now.ring.kept idle.kept) all,
      by omega, by omega⟩
    split
    · have later : (s.waitForWorkerThreadIdle.submitToQueue
          (slot C)).m_completed_fence_counter ≤ C := by
        rw [onward.completed]
        omega
      obtain ⟨at_end, completed', kept⟩ :=
        after.wait (by omega) (Nat.le_refl C) (by omega) later
      exact ⟨at_end, onward.kept.trans kept, by omega⟩
    · exact ⟨after, onward.kept, Nat.le_of_eq onward.completed.symm⟩

/-- What is recorded as the last counter of a frame. -/
def Last (C L : Nat) (s : Manager) (frame last : Nat) : Prop :=
  last = 0 ∨ last ≤ L ∧ (last ≤ s.m_completed_fence_counter ∨
    C < last + 8 ∧ (s.m_command_buffers (slot last)).frame_index = frame)

theorem At.setLast {frame last : Nat} (now : At C L s) (fits : Last C L s frame last) :
    At C L { s with last_fence_counter := Function.update s.last_fence_counter frame last } where
  ring := ⟨now.ring.next, now.ring.current, now.ring.le, now.ring.counter, now.ring.unused,
    now.ring.frames, now.ring.frame⟩
  device := by
    obtain ⟨f, h, p, d, done⟩ := now.device
    exact ⟨f, h, p, ⟨d.finished_le, d.submitted_le, d.handedOver, d.idle, d.queue, d.gpu,
      d.finished, d.flags, d.unused, d.fits⟩, done⟩
  last other := by
    dsimp only
    by_cases same : other = frame
    · subst same
      rw [Function.update_self]
      exact fits
    · rw [Function.update_of_ne same]
      exact now.last other
  objects := ⟨now.objects.attached, now.objects.once⟩
  fine := now.fine

/-- The latest counter of the frame is recorded. -/
theorem At.recordFrame (now : At C C s) (pos : 1 ≤ C) :
    let resources := s.m_command_buffers s.m_current_cmd_buffer
    let last := max (s.last_fence_counter resources.frame_index) resources.fence_counter
    At C C { s with
      last_fence_counter := Function.update s.last_fence_counter resources.frame_index last } := by
  intro resources last
  have counter := now.ring.counter C pos (Nat.le_refl C) (by omega)
  have latest : last = C := by
    have known := now.last resources.frame_index
    have := now.completed_le
    simp only [last, resources, now.ring.current, counter] at known ⊢
    omega
  refine now.setLast (.inr ⟨Nat.le_of_eq latest, .inr ⟨by omega, ?_⟩⟩)
  rw [latest, ← now.ring.current]

theorem At.turn (now : At C L s) :
    At C L { s with m_current_frame := (s.m_current_frame + 1) % s.m_frames_in_flight } where
  ring := ⟨now.ring.next, now.ring.current, now.ring.le, now.ring.counter,
    now.ring.unused, now.ring.frames,
    Nat.mod_lt _ (Nat.lt_of_lt_of_le (by decide) now.ring.frames)⟩
  device := by
    obtain ⟨f, h, p, d, done⟩ := now.device
    exact ⟨f, h, p, ⟨d.finished_le, d.submitted_le, d.handedOver, d.idle, d.queue, d.gpu,
      d.finished, d.flags, d.unused, d.fits⟩, done⟩
  last := now.last
  objects := ⟨now.objects.attached, now.objects.once⟩
  fine := now.fine

theorem frame_turns (ring : Ring C L s) :
    (s.m_current_frame + 1) % s.m_frames_in_flight ≠ s.m_current_frame := by
  have frames := ring.frames
  have inside := ring.frame
  rcases Nat.lt_or_ge (s.m_current_frame + 1) s.m_frames_in_flight with lt | ge
  · rw [Nat.mod_eq_of_lt lt]
    omega
  · rw [show s.m_current_frame + 1 = s.m_frames_in_flight by omega, Nat.mod_self]
    omega

/-- Before the pools of another frame than the current command buffer's are reset, the last command
buffer of that frame has completed. -/
theorem At.waitForFrame_others (now : At C C s)
    (other : (s.m_command_buffers (slot C)).frame_index ≠ s.m_current_frame) {l : List Nat}
    (all : s.others = l) :
    At C C (s.waitForFrame l) ∧
      s.m_completed_fence_counter ≤ (s.waitForFrame l).m_completed_fence_counter ∧
      ((s.waitForFrame l).last_fence_counter (s.waitForFrame l).m_current_frame = 0 ∨
        (s.waitForFrame l).last_fence_counter (s.waitForFrame l).m_current_frame ≤
          (s.waitForFrame l).m_completed_fence_counter) := by
  obtain ⟨now', kept, le, reached⟩ := now.waitForFrame l (Nat.le_succ C) fun i mem => all ▸ mem
  refine ⟨now', le, ?_⟩
  generalize s.waitForFrame l = s' at now' kept reached
  rw [kept.frame]
  rcases now'.last s.m_current_frame with zero | ⟨le_C, done | recent⟩
  · exact .inl zero
  · exact .inr done
  · rw [kept.frame_index] at recent
    by_cases zero : s'.last_fence_counter s.m_current_frame = 0
    · exact .inl zero
    · have ne : s'.last_fence_counter s.m_current_frame ≠ C := fun eq =>
        other (eq ▸ recent.2)
      have mem := mem_others now.ring (Nat.lt_of_le_of_ne le_C ne) recent.1
      have done := reached _ (all ▸ mem) recent.2
      rw [now.ring.counter _ (Nat.pos_of_ne_zero zero) le_C recent.1] at done
      exact .inr done

/-- The pools of the next frame are reset after its last command buffer has completed. -/
theorem At.advanceToNextFrame (now : At C C s)
    (frame : (s.m_command_buffers (slot C)).frame_index = s.m_current_frame) :
    At C C s.advanceToNextFrame ∧
      s.m_completed_fence_counter ≤ s.advanceToNextFrame.m_completed_fence_counter := by
  have turned := now.turn
  have other : (s.m_command_buffers (slot C)).frame_index ≠
      (s.m_current_frame + 1) % s.m_frames_in_flight :=
    fun same => frame_turns now.ring (same.symm.trans frame)
  unfold Manager.advanceToNextFrame
  dsimp only
  generalize eq : { s with
    m_current_frame := (s.m_current_frame + 1) % s.m_frames_in_flight } = s₁ at turned
  have other₁ : (s₁.m_command_buffers (slot C)).frame_index ≠ s₁.m_current_frame := by
    rw [← eq]
    exact other
  have same : s₁.m_completed_fence_counter = s.m_completed_fence_counter := by rw [← eq]
  generalize all : s₁.others = l
  obtain ⟨after, le, asserted⟩ := turned.waitForFrame_others other₁ all
  generalize s₁.waitForFrame l = s₂ at after le asserted ⊢
  have recorded := (@At.record C C s₂ (.resetPools _) after) (decide_eq_true asserted)
    (fun _ _ eq => by cases eq)
  exact ⟨recorded.setLast (.inl rfl), same ▸ le⟩

/-- The caller records the command buffer after the last it has handed over. -/
structure Recording (L : Nat) (s : Manager) : Prop where
  now : At (L + 1) L s
  frame : (s.m_command_buffers (slot (L + 1))).frame_index = s.m_current_frame
  fits : L + 1 ≤ s.m_completed_fence_counter + 8

/-- The next command buffer begins in a place whose last command buffer has completed. -/
theorem At.begin_next (now : At C C s)
    (done : (s.m_command_buffers (slot (C + 1))).fence_counter ≤ s.m_completed_fence_counter) :
    let resources := s.m_command_buffers (slot (C + 1))
    Recording C { (s.record (.reset (slot (C + 1)) resources.waiting_for_submit)).setBuffer
        (slot (C + 1)) { resources with
          fence_counter := C + 1, frame_index := s.m_current_frame } with
      m_next_fence_counter := C + 1 + 1
      m_current_cmd_buffer := slot (C + 1) } := by
  intro resources
  have fits : C + 1 ≤ s.m_completed_fence_counter + 8 := by
    by_cases wraps : 8 ≤ C
    · obtain ⟨c, rfl⟩ : ∃ c, C = c + 7 := ⟨C - 7, by omega⟩
      rw [slot_add_eight, now.ring.counter c (by omega) (by omega) (by omega)] at done
      omega
    · omega
  obtain ⟨f, h, p, d, f_done, p_done⟩ := now.device
  have flag : resources.waiting_for_submit = false := by
    by_cases wraps : 8 ≤ C
    · obtain ⟨c, rfl⟩ : ∃ c, C = c + 7 := ⟨C - 7, by omega⟩
      simp only [resources, slot_add_eight]
      rw [Bool.eq_false_iff, ne_eq, d.flags c (by omega) (by omega) (by omega)]
      omega
    · refine d.unused _ ?_ (slot_lt _)
      simp only [slot, NUM_COMMAND_BUFFERS]
      omega
  have apart : ∀ {c}, c ≤ C → C + 1 < c + 8 → slot c ≠ slot (C + 1) :=
    fun le near => slot_ne (Nat.lt_succ_of_le le) near
  have unused : ∀ {i}, C + 1 ≤ i → i < 8 → i ≠ slot (C + 1) := by
    intro i free lt
    simp only [slot, NUM_COMMAND_BUFFERS]
    omega
  refine ⟨⟨⟨rfl, rfl, Nat.le_succ C, fun c pos le near => ?_, fun i free lt => ?_, now.ring.frames,
    now.ring.frame⟩, ⟨f, h, p, ⟨d.finished_le, d.submitted_le, d.handedOver, d.idle, d.queue,
    d.gpu, d.finished, fun c pos le near => ?_, fun i free lt => ?_, by omega⟩, f_done, p_done⟩,
    fun frame => ?_, ⟨fun i object mem => ?_, ?_⟩, ?_⟩, ?_, fits⟩
  · rcases Nat.eq_or_lt_of_le le with rfl | lt
    · simp [setBuffer]
    · simpa [setBuffer, Manager.record, Function.update_of_ne (apart (Nat.le_of_lt_succ lt) near)]
        using now.ring.counter c pos (Nat.le_of_lt_succ lt) (by omega)
  · simpa [setBuffer, Manager.record, Function.update_of_ne (unused free lt)] using
      now.ring.unused i (by omega) lt
  · rcases Nat.eq_or_lt_of_le le with rfl | lt
    · simp only [setBuffer, Function.update_self, flag, Bool.false_eq_true, false_iff]
      omega
    · simpa [setBuffer, Manager.record, Function.update_of_ne (apart (Nat.le_of_lt_succ lt) near)]
        using d.flags c pos (Nat.le_of_lt_succ lt) (by omega)
  · simpa [setBuffer, Manager.record, Function.update_of_ne (unused free lt)] using
      d.unused i (by omega) lt
  · rcases now.last frame with zero | ⟨le, before | recent⟩
    · exact .inl zero
    · exact .inr ⟨le, .inl before⟩
    · refine .inr ⟨le, ?_⟩
      by_cases gone : C + 1 < s.last_fence_counter frame + 8
      · exact .inr ⟨gone, by
          simpa [setBuffer, Manager.record, Function.update_of_ne (apart le gone)] using recent.2⟩
      · exact .inl (by dsimp only [setBuffer, Manager.record]; omega)
  · by_cases same : i = slot (C + 1)
    · subst same
      simp only [setBuffer, Function.update_self] at mem ⊢
      have attached := now.objects.attached _ object mem
      have := now.completed_le
      omega
    · simp only [setBuffer, Manager.record, Function.update_of_ne same] at mem ⊢
      exact now.objects.attached i object mem
  · obtain ⟨rest, before, after⟩ := pending_split s (slot_lt (C + 1))
    have same := (after { resources with
      fence_counter := C + 1, frame_index := s.m_current_frame }).trans before.symm
    have recorded := (@Objects.record s (.reset (slot (C + 1)) resources.waiting_for_submit)
      now.objects fun _ _ eq => by cases eq).once
    exact (same.append_left _).trans recorded
  · exact fine_record now.fine flag
  · simp [setBuffer, Manager.record]

theorem At.beginCommandBuffer (now : At C C s) :
    Recording C s.beginCommandBuffer ∧
      s.m_completed_fence_counter ≤ s.beginCommandBuffer.m_completed_fence_counter := by
  have step : ∃ s₁, s₁ = (if s.m_completed_fence_counter <
        (s.m_command_buffers (slot (C + 1))).fence_counter then
      s.waitForCommandBufferCompletion (slot (C + 1)) else s) ∧ At C C s₁ ∧
      s.m_completed_fence_counter ≤ s₁.m_completed_fence_counter ∧
      (s₁.m_command_buffers (slot (C + 1))).fence_counter ≤ s₁.m_completed_fence_counter := by
    refine ⟨_, rfl, ?_⟩
    split
    · rename_i later
      have mem : slot (C + 1) ∈ s.others := by
        rw [others_eq now.ring]
        exact List.mem_map.mpr ⟨0, by decide, rfl⟩
      obtain ⟨after, completed, kept⟩ := now.wait_of_others (Nat.le_succ C) mem later
      exact ⟨after, by omega, Nat.le_of_eq ((kept.counter _).trans completed.symm)⟩
    · exact ⟨now, Nat.le_refl _, by omega⟩
  obtain ⟨s₁, eq, now₁, le, done⟩ := step
  have begun := now₁.begin_next done
  unfold Manager.beginCommandBuffer
  dsimp only
  rw [now.ring.current, slot_succ, ← eq,
    show (Manager.record _ s₁).m_next_fence_counter = C + 1 from now₁.ring.next]
  exact ⟨begun, le⟩

theorem Recording.submitCommandBuffer (recording : Recording L s) (worker wait advance : Bool) :
    Recording (L + 1) (s.submitCommandBuffer worker wait advance) ∧
      s.m_completed_fence_counter ≤
        (s.submitCommandBuffer worker wait advance).m_completed_fence_counter := by
  obtain ⟨submitted, kept, le⟩ := recording.now.submitCurrent rfl worker wait
  have frame := recording.frame
  unfold Manager.submitCommandBuffer
  dsimp only
  generalize s.submitCurrent worker wait = s₁ at submitted kept le
  rw [← kept.frame_index, ← kept.frame] at frame
  have noted := submitted.recordFrame (Nat.succ_pos L)
  dsimp only at noted
  split
  · obtain ⟨advanced, le'⟩ := noted.advanceToNextFrame frame
    obtain ⟨begun, le''⟩ := advanced.beginCommandBuffer
    exact ⟨begun, Nat.le_trans le (Nat.le_trans le' le'')⟩
  · obtain ⟨begun, le'⟩ := noted.beginCommandBuffer
    exact ⟨begun, Nat.le_trans le le'⟩

/-- A new object waits with the current command buffer. -/
theorem Recording.addObject {resources : CmdBufferResources} (recording : Recording L s)
    (counter' : resources.fence_counter = L + 1)
    (flag : resources.waiting_for_submit =
      (s.m_command_buffers (slot (L + 1))).waiting_for_submit)
    (index : resources.frame_index = (s.m_command_buffers (slot (L + 1))).frame_index)
    (objects : resources.cleanup_resources =
      (s.m_command_buffers (slot (L + 1))).cleanup_resources ++ [⟨s.deferred, L + 1⟩]) :
    Recording L { s.setBuffer (slot (L + 1)) resources with deferred := s.deferred + 1 } := by
  obtain ⟨now, frame, fits⟩ := recording
  have counter := now.ring.counter (L + 1) (Nat.succ_pos L) (Nat.le_refl _) (by omega)
  have same : ∀ i, ((s.setBuffer (slot (L + 1)) resources).m_command_buffers i).fence_counter =
        (s.m_command_buffers i).fence_counter ∧
      ((s.setBuffer (slot (L + 1)) resources).m_command_buffers i).waiting_for_submit =
        (s.m_command_buffers i).waiting_for_submit ∧
      ((s.setBuffer (slot (L + 1)) resources).m_command_buffers i).frame_index =
        (s.m_command_buffers i).frame_index := by
    intro i
    by_cases here : i = slot (L + 1)
    · subst here
      simp only [setBuffer, Function.update_self]
      exact ⟨counter'.trans counter.symm, flag, index⟩
    · simp [setBuffer, Function.update_of_ne here]
  obtain ⟨f, h, p, d, done⟩ := now.device
  refine ⟨⟨now.ring.kept ⟨rfl, rfl, rfl, rfl, rfl, fun i => (same i).1, fun i => (same i).2.2⟩,
    ⟨f, h, p, ⟨d.finished_le, d.submitted_le, d.handedOver, d.idle, d.queue, d.gpu, d.finished,
      fun c pos le near => ?_, fun i free lt => ?_, d.fits⟩, done⟩, fun frame => ?_,
    ⟨fun i object mem => ?_, ?_⟩, now.fine⟩, ?_, fits⟩
  · rw [← d.flags c pos le near]
    exact Iff.of_eq (congrArg (· = true) (same _).2.1)
  · exact (same i).2.1.trans (d.unused i free lt)
  · rcases now.last frame with zero | ⟨le, before | recent⟩
    · exact .inl zero
    · exact .inr ⟨le, .inl before⟩
    · exact .inr ⟨le, .inr ⟨recent.1, (same _).2.2.trans recent.2⟩⟩
  · rw [(same i).1]
    by_cases here : i = slot (L + 1)
    · subst here
      have mem' : object ∈ resources.cleanup_resources := by
        simpa [setBuffer] using mem
      rw [objects] at mem'
      rcases List.mem_append.mp mem' with old | added
      · exact now.objects.attached _ object old
      · cases List.mem_singleton.mp added
        exact ⟨Nat.succ_pos L, Nat.le_of_eq counter.symm⟩
    · simp only [setBuffer, Function.update_of_ne here] at mem
      exact now.objects.attached i object mem
  · obtain ⟨rest, before, after⟩ := pending_split s (slot_lt (L + 1))
    have one := now.objects.once
    have grown := after resources
    rw [objects, List.map_append, List.append_assoc] at grown
    calc s.destroyed ++ (s.setBuffer (slot (L + 1)) resources).pending
      List.Perm _ (s.destroyed ++ (s.pending ++ [s.deferred])) := by
        refine .append_left _ (grown.trans ?_)
        refine ((List.perm_append_comm).append_left _).trans ?_
        rw [← List.append_assoc]
        exact before.symm.append_right _
      List.Perm _ (List.range s.deferred ++ [s.deferred]) := by
        rw [← List.append_assoc]
        exact one.append_right _
      List.Perm _ (List.range (s.deferred + 1)) := by rw [List.range_succ]
  · exact (same _).2.2.trans frame

theorem Recording.deferDestruction (recording : Recording L s) :
    Recording L s.deferDestruction := by
  have counter := recording.now.ring.counter (L + 1) (Nat.succ_pos L) (Nat.le_refl _) (by omega)
  unfold Manager.deferDestruction
  rw [recording.now.ring.current]
  exact recording.addObject counter rfl rfl (by rw [counter])

end

/-! ## Runs -/

theorem at_start (threaded : Bool) {frames : Nat} (two : 2 ≤ frames)
    (progress : Nat → List Progress) :
    At 0 0 { m_frames_in_flight := frames
             m_use_threaded_submission := threaded
             m_current_cmd_buffer := NUM_COMMAND_BUFFERS - 1
             progress } where
  ring := ⟨rfl, rfl, Nat.le_refl 0, fun c pos le _ => by omega, fun _ _ _ => rfl, two,
    Nat.lt_of_lt_of_le Nat.zero_lt_two two⟩
  device := ⟨0, 0, 0, ⟨Nat.le_refl 0, Nat.le_refl 0, rfl, fun _ => rfl, rfl, rfl,
    fun c => by simp; omega, fun c pos le _ => by omega, fun _ _ _ => rfl, by decide⟩,
    Nat.le_refl 0, Nat.le_refl 0⟩
  last _ := .inl rfl
  objects := ⟨fun _ _ mem => absurd mem List.not_mem_nil, .nil⟩
  fine _ mem := absurd mem List.not_mem_nil

theorem recording_create (threaded : Bool) (frames : Nat) (progress : Nat → List Progress) :
    Recording 0 (create threaded frames progress) := by
  have two : 2 ≤ if frames = 3 then 3 else 2 := by
    split <;> decide
  exact (at_start threaded two progress).beginCommandBuffer.1

/-- What an operation does: the caller goes on recording, and nothing becomes incomplete. -/
theorem Recording.perform {L : Nat} {s s' : Manager} (recording : Recording L s)
    (operation : Operation) (next : operation.perform s = some s') :
    (∃ L', Recording L' s') ∧ s.m_completed_fence_counter ≤ s'.m_completed_fence_counter := by
  cases operation with
  | submit worker wait advance =>
      cases next
      obtain ⟨after, le⟩ := recording.submitCommandBuffer worker wait advance
      exact ⟨⟨L + 1, after⟩, le⟩
  | defer =>
      cases next
      exact ⟨⟨L, recording.deferDestruction⟩, Nat.le_refl _⟩
  | waitForFenceCounter counter =>
      simp only [Operation.perform] at next
      split at next
      · rename_i lt
        cases next
        have current := recording.now.ring.counter (L + 1) (Nat.succ_pos L) (Nat.le_refl _)
          (by omega)
        rw [currentFenceCounter, recording.now.ring.current, current] at lt
        obtain ⟨after, kept, le⟩ :=
          recording.now.waitForFenceCounter (Nat.le_refl _) lt recording.fits
        refine ⟨⟨L, after, ?_, Nat.le_trans recording.fits (Nat.add_le_add_right le 8)⟩, le⟩
        rw [kept.frame_index, kept.frame]
        exact recording.frame
      · cases next

theorem recording_of_reaches {L : Nat} {s s' : Manager} (recording : Recording L s)
    (run : Reaches Operation.perform (fun _ _ => True) s s') :
    (∃ L', Recording L' s') ∧ s.m_completed_fence_counter ≤ s'.m_completed_fence_counter := by
  refine run.invariant (I := fun s' => (∃ L', Recording L' s') ∧
    s.m_completed_fence_counter ≤ s'.m_completed_fence_counter) ⟨⟨L, recording⟩, Nat.le_refl _⟩ ?_
  rintro operation before after ⟨⟨L', recording'⟩, le⟩ - next
  obtain ⟨still, le'⟩ := recording'.perform operation next
  exact ⟨still, Nat.le_trans le le'⟩

/-- The counter of the `k`-th command buffer after the current one. -/
def counterAround (s : Manager) (k : Nat) : Nat :=
  (s.m_command_buffers ((s.m_current_cmd_buffer + 1 + k) % NUM_COMMAND_BUFFERS)).fence_counter

theorem counterAround_eq {C L k : Nat} {s : Manager} (ring : Ring C L s) (lt : k < 8) :
    s.counterAround k = C + k - 7 := by
  by_cases used : 8 ≤ C + k
  · have place : (s.m_current_cmd_buffer + 1 + k) % NUM_COMMAND_BUFFERS = slot (C + k - 7) := by
      simp only [ring.current, slot, NUM_COMMAND_BUFFERS]
      omega
    rw [counterAround, place]
    exact ring.counter _ (by omega) (by omega) (by omega)
  · have place : (s.m_current_cmd_buffer + 1 + k) % NUM_COMMAND_BUFFERS = C + k := by
      simp only [ring.current, slot, NUM_COMMAND_BUFFERS]
      omega
    rw [counterAround, place, ring.unused _ (by omega) (by omega)]
    omega

/-- In every run, whatever the worker and the GPU have done: fence counters increase around the ring,
but for the places that were not used yet; the completed counter never decreases and is below that
of every command buffer that has not finished; every event is as it must be; and every object
deferred waits or was destroyed once. -/
theorem command_buffers_safe (threaded : Bool) (frames_in_flight : Nat)
    (progress : Nat → List Progress) {s : Manager}
    (run : Reaches Operation.perform (fun _ _ => True)
      (create threaded frames_in_flight progress) s) :
    (∀ i j, i < j → j < NUM_COMMAND_BUFFERS → s.counterAround i < s.counterAround j ∨
      s.m_next_fence_counter ≤ NUM_COMMAND_BUFFERS ∧ s.counterAround i = 0 ∧
        s.counterAround j = 0) ∧
    (∀ s', Reaches Operation.perform (fun _ _ => True) s s' →
      s.m_completed_fence_counter ≤ s'.m_completed_fence_counter) ∧
    (∀ c, 1 ≤ c → c < s.m_next_fence_counter → c ∉ s.finished →
      s.m_completed_fence_counter < c) ∧
    (∀ event ∈ s.log, event.Fine) ∧
    (s.destroyed ++ s.pending).Perm (List.range s.deferred) := by
  obtain ⟨⟨L, recording⟩, -⟩ :=
    recording_of_reaches (recording_create threaded frames_in_flight progress) run
  have ring := recording.now.ring
  refine ⟨fun i j lt inside => ?_, fun s' further => ?_, fun c pos _ unfinished => ?_,
    recording.now.fine, recording.now.objects.once⟩
  · simp only [NUM_COMMAND_BUFFERS] at inside ⊢
    rw [counterAround_eq ring (Nat.lt_trans lt inside), counterAround_eq ring inside, ring.next]
    omega
  · exact (recording_of_reaches recording further).2
  · obtain ⟨f, h, p, d, done, -⟩ := recording.now.device
    rw [d.finished] at unfinished
    omega

/-- Two objects are deferred, and waited for with a counter and with the frame. -/
theorem command_buffers_safe_twoObjects :
    ∃ s, Reaches Operation.perform (fun _ _ => True) (create true 2 fun _ => [.worker, .gpu]) s ∧
      s.destroyed = [0, 1] ∧ s.m_completed_fence_counter = 3 ∧ s.counterAround 6 = 4 ∧
      (∀ event ∈ s.log, event.Fine) ∧ (s.destroyed ++ s.pending).Perm (List.range s.deferred) := by
  have ends : (runActions Operation.perform
      [.defer, .submit true false true, .defer, .submit true false false, .waitForFenceCounter 1,
        .submit false true true, .submit true false true]
      (create true 2 fun _ => [.worker, .gpu])).any fun s =>
        s.destroyed = [0, 1] ∧ s.m_completed_fence_counter = 3 ∧ s.counterAround 6 = 4 := by
    decide +kernel
  obtain ⟨s, run, seen⟩ := (Option.any_eq_true ..).mp ends
  obtain ⟨destroyed, completed, counter⟩ := of_decide_eq_true seen
  have safe := command_buffers_safe true 2 (fun _ => [.worker, .gpu]) (.of_runActions run)
  exact ⟨s, .of_runActions run, destroyed, completed, counter, safe.2.2.2⟩

/-- Before the ring is full, places that were not used yet have the same counter. -/
theorem counters_not_always_increase :
    ¬ ∀ (threaded : Bool) (frames_in_flight : Nat) (progress : Nat → List Progress) (s : Manager),
      Reaches Operation.perform (fun _ _ => True) (create threaded frames_in_flight progress) s →
      ∀ i j, i < j → j < NUM_COMMAND_BUFFERS → s.counterAround i < s.counterAround j := by
  intro increase
  exact absurd (increase false 2 (fun _ => []) _ .refl 0 1 (by decide) (by decide))
    (by decide +kernel)

end Manager

end Phocoena.Vulkan
