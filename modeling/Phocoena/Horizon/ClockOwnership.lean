import Phocoena.Horizon.ClockPolicy
import Mathlib.Data.List.Induction

/-! # Clock ownership

What a session leaves in the override words. The words of a session's requests are followed from
`Initialize` through the requests and the read at the start of `Release` to the restoring
writes, whatever fails and whatever others write between the calls.
-/

namespace Phocoena.Horizon.PhocoenaClock

open SysClkBackend

/-! ## Calls -/

/-- The worlds differ by what others wrote. -/
structure Others (w w' : World) : Prop where
  log : w'.log = w.log
  contextRead : w'.contextRead = w.contextRead
  backends : w'.backends = w.backends
  word : ∀ module, w'.word module = w.word module ∨
    ∃ hz, w'.word module = { w.word module with hz, holder := .other w.contextRead }

theorem Others.refl (w : World) : Others w w := ⟨rfl, rfl, rfl, fun _ => .inl rfl⟩

theorem Others.trans {w₁ w₂ w₃ : World} (first : Others w₁ w₂) (second : Others w₂ w₃) :
    Others w₁ w₃ where
  log := second.log.trans first.log
  contextRead := second.contextRead.trans first.contextRead
  backends := second.backends.trans first.backends
  word module := by
    rcases second.word module with same | ⟨hz, changed⟩
    · rw [same]
      exact first.word module
    · rw [first.contextRead] at changed
      rcases first.word module with same | ⟨hz', before⟩
      · exact .inr ⟨hz, by rw [changed, same]⟩
      · exact .inr ⟨hz, by rw [changed, before]⟩

theorem others_change (w : World) (write : Nat × Nat) : Others w (w.change write) := by
  refine ⟨rfl, rfl, rfl, fun module => ?_⟩
  by_cases eq : module = write.1
  · subst eq
    exact .inr ⟨write.2, Function.update_self ..⟩
  · exact .inl (Function.update_of_ne eq _ _)

theorem others_dispatch (w : World) : Others w w.dispatch.2 := by
  suffices ∀ writes : List (Nat × Nat), ∀ w, Others w (writes.foldl World.change w) by
    have changes := this (w.outcomes w.calls).others w
    exact ⟨changes.log, changes.contextRead, changes.backends, changes.word⟩
  intro writes
  induction writes with
  | nil => exact Others.refl
  | cons write writes ih =>
      intro w
      exact (others_change w write).trans (ih _)

theorem others_readContext (flavor : SysClkFlavor) (w : World) :
    Others w (readContext flavor w).2 := by
  have others := others_dispatch w
  unfold readContext
  dsimp only
  split <;> exact others

/-- When the context can be read, its overrides are what the words hold. -/
theorem readContext_eq {flavor : SysClkFlavor} {w w' : World} {overrides : Domain → Nat}
    (read : readContext flavor w = (.ok overrides, w')) (domain : Domain) :
    overrides domain = (w'.word (index domain)).hz := by
  unfold readContext at read
  dsimp only at read
  split at read
  · cases read
  · cases read
    rfl

theorem others_getAvailableRates (b : SysClkBackend) (w : World) :
    Others w (b.getAvailableRates w).2 := by
  have others := others_dispatch w
  unfold getAvailableRates
  dsimp only
  split <;> split_ifs <;> exact others

/-! ## The log -/

/-- `setOverride` never names the memory module, requests stay at or below the targets, and only
a domain that was requested is restored. -/
structure Recorded (log : List Event) : Prop where
  no_memory : ∀ id module hz, Event.setOverride id module hz ∈ log → module ≠ MEMORY_INDEX
  below : ∀ id profile domain hz, Event.request id profile domain hz ∈ log →
    hz ≤ (targetsForProfile profile).of domain
  attempted : ∀ before after id domain, log = before ++ Event.restore id domain :: after →
    ∃ profile hz, Event.request id profile domain hz ∈ before

theorem index_ne_memory (domain : Domain) : index domain ≠ MEMORY_INDEX := by
  cases domain <;> decide

theorem Recorded.snoc {log : List Event} {event : Event} (recorded : Recorded log)
    (no_memory : ∀ id module hz, event = .setOverride id module hz → module ≠ MEMORY_INDEX)
    (below : ∀ id profile domain hz, event = .request id profile domain hz →
      hz ≤ (targetsForProfile profile).of domain)
    (attempted : ∀ id domain, event = .restore id domain →
      ∃ profile hz, Event.request id profile domain hz ∈ log) : Recorded (log ++ [event]) where
  no_memory id module hz mem := by
    rcases List.mem_append.mp mem with old | new
    · exact recorded.no_memory id module hz old
    · exact no_memory id module hz (List.mem_singleton.mp new).symm
  below id profile domain hz mem := by
    rcases List.mem_append.mp mem with old | new
    · exact recorded.below id profile domain hz old
    · exact below id profile domain hz (List.mem_singleton.mp new).symm
  attempted before after id domain eq := by
    rcases List.eq_nil_or_concat after with rfl | ⟨after, last, rfl⟩
    · obtain ⟨rfl, same⟩ := List.append_inj' eq rfl
      exact attempted id domain (List.singleton_inj.mp same)
    · rw [List.concat_eq_append, ← List.cons_append, ← List.append_assoc] at eq
      exact recorded.attempted before after id domain (List.append_inj' eq rfl).1

theorem Recorded.setOverride {log : List Event} (recorded : Recorded log) (id : Nat)
    (domain : Domain) (hz : Nat) : Recorded (log ++ [Event.setOverride id (index domain) hz]) :=
  recorded.snoc (fun _ _ _ eq => by cases eq; exact index_ne_memory domain)
    (fun _ _ _ _ eq => by cases eq) (fun _ _ eq => by cases eq)

theorem Recorded.release {log : List Event} (recorded : Recorded log) (id : Nat) :
    Recorded (log ++ [Event.release id]) :=
  recorded.snoc (fun _ _ _ eq => by cases eq) (fun _ _ _ _ eq => by cases eq)
    (fun _ _ eq => by cases eq)

/-- Every backend that requested a rate was released, up to the one still in use. -/
def ReleasedBut (current : Option Nat) (log : List Event) : Prop :=
  ∀ id profile domain hz, Event.request id profile domain hz ∈ log →
    Event.release id ∈ log ∨ current = some id

/-! ## The words -/

/-- What is left in a word: it was never written, it was restored, its restoring write failed, or
another party's value is in it, which was found at the release or came later. -/
def Settled (word : Word) : Prop :=
  word.written = false ∨ word.hz = word.previous ∨ word.restoreFailed = true ∨
    ∃ late, word.holder = .other late ∧ (word.hz ≠ word.requested ∨ late = true)

/-- A word whose domain is not in use, at a time when `read` says whether the context has been
read for the release. -/
def Left (read : Bool) (word : Word) : Prop :=
  word.written = false ∨ read = true ∧ Settled word

/-- A word in use. -/
def Held (previous requested : Nat) (attempted : Bool) (word : Word) : Prop :=
  word.previous = previous ∧ (attempted = true → word.requested = requested) ∧
    (word.written = false ∨ attempted = true ∧ (word.hz = requested ∨ word.holder = .other false))

/-- A word in use after the context was read as `current`. -/
def Seen (current : Option Nat) (previous requested : Nat) (attempted : Bool) (word : Word) :
    Prop :=
  word.previous = previous ∧ (word.written = false ∨ attempted = true ∧
    word.requested = requested ∧ (word.holder = .other true ∨
      (∀ hz ∈ current, word.hz = hz) ∧ (word.hz = requested ∨ word.holder = .other false)))

section
variable {w w' : World} {previous requested : Nat} {attempted : Bool} {current : Option Nat}
variable {module : Nat}

theorem Others.left (others : Others w w') (left : Left w.contextRead (w.word module)) :
    Left w'.contextRead (w'.word module) := by
  rw [others.contextRead]
  rcases others.word module with same | ⟨hz, changed⟩
  · rwa [same]
  · rw [changed]
    rcases left with never | ⟨read, -⟩
    · exact .inl never
    · exact .inr ⟨read, .inr (.inr (.inr ⟨w.contextRead, rfl, .inr read⟩))⟩

theorem Others.held (others : Others w w') (unread : w.contextRead = false)
    (held : Held previous requested attempted (w.word module)) :
    Held previous requested attempted (w'.word module) := by
  rcases others.word module with same | ⟨hz, changed⟩
  · rwa [same]
  · rw [changed, unread]
    refine ⟨held.1, held.2.1, ?_⟩
    rcases held.2.2 with never | ⟨tried, -⟩
    · exact .inl never
    · exact .inr ⟨tried, .inr rfl⟩

theorem Others.seen (others : Others w w') (read : w.contextRead = true)
    (seen : Seen current previous requested attempted (w.word module)) :
    Seen current previous requested attempted (w'.word module) := by
  rcases others.word module with same | ⟨hz, changed⟩
  · rwa [same]
  · rw [changed, read]
    refine ⟨seen.1, ?_⟩
    rcases seen.2 with never | ⟨tried, eq, -⟩
    · exact .inl never
    · exact .inr ⟨tried, eq, .inl rfl⟩

theorem Held.seen {word : Word} (held : Held previous requested attempted word)
    (now : ∀ hz ∈ current, word.hz = hz) : Seen current previous requested attempted word := by
  refine ⟨held.1, ?_⟩
  rcases held.2.2 with never | ⟨tried, holds⟩
  · exact .inl never
  · exact .inr ⟨tried, held.2.1 tried, .inr ⟨now, holds⟩⟩

/-- A value that was not the requested one when the context was read is another party's. -/
theorem Seen.settled_of_changed {word : Word} {hz : Nat}
    (seen : Seen (some hz) previous requested attempted word) (changed : hz ≠ requested) :
    Settled word := by
  rcases seen.2 with never | ⟨-, eq, late | ⟨now, mine | early⟩⟩
  · exact .inl never
  · exact .inr (.inr (.inr ⟨true, late, .inr rfl⟩))
  · exact absurd ((now hz rfl).symm.trans mine) changed
  · exact .inr (.inr (.inr ⟨false, early, .inl (by rw [now hz rfl, eq]; exact changed)⟩))

end

theorem index_injective {d d' : Domain} (eq : index d = index d') : d = d' := by
  cases d <;> cases d' <;> first | rfl | cases eq

namespace World

@[simp] theorem word_setWord (w : World) (domain : Domain) (word : Word) :
    (w.setWord domain word).word (index domain) = word := Function.update_self ..

@[simp] theorem word_setWord_of_ne (w : World) {domain other : Domain} (word : Word)
    (ne : other ≠ domain) : (w.setWord domain word).word (index other) = w.word (index other) :=
  Function.update_of_ne (fun eq => ne (index_injective eq)) _ _

end World

/-- A write either takes effect after what others wrote before it, or fails without effect. -/
theorem setOverride_cases {id hz result : Nat} {domain : Domain} {w w' : World}
    (call : setOverride id domain hz w = (result, w')) :
    ∃ w₁, Others (w.record (.setOverride id (index domain) hz)) w₁ ∧
      (w' = w₁.setWord domain
        { w₁.word (index domain) with hz, holder := .session, written := true } ∨
      w' = w₁ ∧ result ≠ 0) := by
  have others := others_dispatch (w.record (.setOverride id (index domain) hz))
  unfold setOverride at call
  dsimp only at call
  split at call
  · cases call
    exact ⟨_, others, .inl rfl⟩
  · rename_i fails
    cases call
    exact ⟨_, others, .inr ⟨rfl, fun zero => fails (.inl zero)⟩⟩

/-! ## What each function does -/

/-- The session has no backend in use. -/
structure Idle (w : World) : Prop where
  recorded : Recorded w.log
  released : ReleasedBut none w.log
  left : ∀ domain, Left w.contextRead (w.word (index domain))

/-- A backend in use, which was initialized or whose initialization failed. -/
structure InUse (b : SysClkBackend) (w : World) : Prop where
  recorded : Recorded w.log
  released : ReleasedBut (some b.id) w.log
  requested : ∀ domain, b.m_attempted domain = true →
    ∃ profile hz, .request b.id profile domain hz ∈ w.log
  words : (b.m_initialized = true ∧ w.contextRead = false ∧ ∀ domain,
      Held (b.m_previous_overrides domain) (b.m_requested domain) (b.m_attempted domain)
        (w.word (index domain))) ∨
    b.m_initialized = false ∧ (∀ domain, b.m_attempted domain = false) ∧
      ∀ domain, Left w.contextRead (w.word (index domain))

theorem Idle.others {w w' : World} (idle : Idle w) (others : Others w w') : Idle w' where
  recorded := others.log ▸ idle.recorded
  released := others.log ▸ idle.released
  left domain := others.left (idle.left domain)

theorem InUse.others {b : SysClkBackend} {w w' : World} (inUse : InUse b w)
    (others : Others w w') : InUse b w' where
  recorded := others.log ▸ inUse.recorded
  released := others.log ▸ inUse.released
  requested := others.log ▸ inUse.requested
  words := by
    rcases inUse.words with ⟨on, unread, held⟩ | ⟨off, none, left⟩
    · exact .inl ⟨on, others.contextRead.trans unread, fun d => others.held unread (held d)⟩
    · exact .inr ⟨off, none, fun d => others.left (left d)⟩

theorem ReleasedBut.snoc {current : Option Nat} {log : List Event} (event : Event)
    (released : ReleasedBut current log)
    (mine : ∀ id profile domain hz, event = .request id profile domain hz → current = some id) :
    ReleasedBut current (log ++ [event]) := by
  intro id profile domain hz mem
  rcases List.mem_append.mp mem with old | new
  · rcases released id profile domain hz old with done | same
    · exact .inl (List.mem_append_left _ done)
    · exact .inr same
  · exact .inr (mine id profile domain hz (List.mem_singleton.mp new).symm)

theorem ReleasedBut.release {id : Nat} {log : List Event} (released : ReleasedBut (some id) log) :
    ReleasedBut none (log ++ [Event.release id]) := by
  intro id' profile domain hz mem
  rcases List.mem_append.mp mem with old | new
  · rcases released id' profile domain hz old with done | same
    · exact .inl (List.mem_append_left _ done)
    · cases same
      exact .inl (List.mem_append_right _ List.mem_cons_self)
  · cases List.mem_singleton.mp new

/-- The state between the read of the context in `Release` and its end: domains are settled as
their turn comes. -/
structure Releasing (b : SysClkBackend) (current : Option (Domain → Nat)) (w : World) : Prop where
  recorded : Recorded w.log
  released : ReleasedBut none w.log
  requested : ∀ domain, b.m_attempted domain = true →
    ∃ profile hz, .request b.id profile domain hz ∈ w.log
  read : w.contextRead = true
  settled : ∀ domain, b.m_attempted domain = false → Settled (w.word (index domain))
  seen : ∀ domain, b.m_attempted domain = true →
    Seen (current.map (· domain)) (b.m_previous_overrides domain) (b.m_requested domain) true
      (w.word (index domain))

theorem settled_others {w w' : World} (others : Others w w') (read : w.contextRead = true)
    {module : Nat} (settled : Settled (w.word module)) : Settled (w'.word module) := by
  rcases others.left (.inr ⟨read, settled⟩) with never | ⟨-, settled⟩
  · exact .inl never
  · exact settled

theorem Releasing.others {b : SysClkBackend} {current : Option (Domain → Nat)} {w w' : World}
    (releasing : Releasing b current w) (others : Others w w') : Releasing b current w' where
  recorded := others.log ▸ releasing.recorded
  released := others.log ▸ releasing.released
  requested := others.log ▸ releasing.requested
  read := others.contextRead.trans releasing.read
  settled domain off := settled_others others releasing.read (releasing.settled domain off)
  seen domain on := others.seen releasing.read (releasing.seen domain on)

/-- The record of a restoring write. -/
theorem Releasing.record {b : SysClkBackend} {current : Option (Domain → Nat)} {w : World}
    (releasing : Releasing b current w) {domain : Domain} (on : b.m_attempted domain = true)
    (hz : Nat) :
    Releasing b current
      ((w.record (.restore b.id domain)).record (.setOverride b.id (index domain) hz)) where
  recorded := by
    refine Recorded.setOverride ?_ b.id domain hz
    refine releasing.recorded.snoc (fun _ _ _ eq => by cases eq) (fun _ _ _ _ eq => by cases eq) ?_
    intro id domain eq
    cases eq
    exact releasing.requested domain on
  released := (releasing.released.snoc _ fun _ _ _ _ eq => by cases eq).snoc _
    fun _ _ _ _ eq => by cases eq
  requested other tried := by
    obtain ⟨profile, hz, mem⟩ := releasing.requested other tried
    exact ⟨profile, hz, List.mem_append_left _ (List.mem_append_left _ mem)⟩
  read := releasing.read
  settled := releasing.settled
  seen := releasing.seen

/-- The domain whose turn it was is settled, and the other one is as it was. -/
theorem Releasing.turn {b : SysClkBackend} {current : Option (Domain → Nat)} {w w' : World}
    (releasing : Releasing b current w) (domain : Domain) (log : w'.log = w.log)
    (read : w'.contextRead = w.contextRead) (settled : Settled (w'.word (index domain)))
    (rest : ∀ other, other ≠ domain → w'.word (index other) = w.word (index other)) :
    Releasing { b with m_attempted := Function.update b.m_attempted domain false } current w' where
  recorded := log ▸ releasing.recorded
  released := log ▸ releasing.released
  requested other on := by
    by_cases eq : other = domain
    · subst eq
      simp at on
    · dsimp only at on
      rw [Function.update_of_ne eq] at on
      exact log ▸ releasing.requested other on
  read := read.trans releasing.read
  settled other off := by
    by_cases eq : other = domain
    · exact eq ▸ settled
    · dsimp only at off
      rw [Function.update_of_ne eq] at off
      rw [rest other eq]
      exact releasing.settled other off
  seen other on := by
    by_cases eq : other = domain
    · subst eq
      simp at on
    · dsimp only at on
      rw [Function.update_of_ne eq] at on
      rw [rest other eq]
      exact releasing.seen other on

theorem Releasing.domain {b : SysClkBackend} {current : Option (Domain → Nat)} {w : World}
    (releasing : Releasing b current w) (domain : Domain) :
    let result := releaseDomain b current domain w
    Releasing result.2.2.1 current result.2.2.2 ∧ result.2.2.1 =
      { b with m_attempted := Function.update b.m_attempted domain false } := by
  dsimp only
  unfold releaseDomain
  split
  · rename_i off
    refine ⟨releasing, ?_⟩
    rw [← off, Function.update_eq_self]
  · rename_i tried
    have on : b.m_attempted domain = true := by simpa using tried
    have seen := releasing.seen domain on
    dsimp only
    split
    · rename_i changed
      obtain ⟨overrides, found, differs⟩ := changed
      rw [Option.mem_def] at found
      rw [found] at seen
      refine ⟨releasing.turn domain rfl rfl ?_ (fun _ _ => rfl), rfl⟩
      exact seen.settled_of_changed (by simpa [controlStillOwned] using differs)
    · rcases call : setOverride b.id domain (b.m_previous_overrides domain)
        (w.record (.restore b.id domain)) with ⟨result, w'⟩
      obtain ⟨w₁, others, effect⟩ := setOverride_cases call
      have before := (releasing.record on (b.m_previous_overrides domain)).others others
      have previous := (before.seen domain on).1
      dsimp only
      rcases effect with rfl | ⟨rfl, fails⟩
      · split
        · refine ⟨before.turn domain rfl rfl ?_ fun other ne => by simp [ne], rfl⟩
          exact .inr (.inr (.inl (by simp)))
        · refine ⟨before.turn domain rfl rfl ?_ fun other ne => by simp [ne], rfl⟩
          exact .inr (.inl (by simpa using previous.symm))
      · rw [if_pos fails]
        refine ⟨before.turn domain rfl rfl ?_ fun other ne => by simp [ne], rfl⟩
        exact .inr (.inr (.inl (by simp)))

theorem InUse.releasing {b : SysClkBackend} {w w' : World} (inUse : InUse b w)
    (used : ¬ (b.m_initialized = false ∧ b.m_attempted .CPU = false ∧ b.m_attempted .GPU = false))
    {current : Except String (Domain → Nat)}
    (context : readContext b.m_flavor (w.record (.release b.id)) = (current, w')) :
    Releasing b current.toOption { w' with contextRead := true } := by
  have others := others_readContext b.m_flavor (w.record (.release b.id))
  rw [context] at others
  have held : w.contextRead = false ∧ ∀ domain,
      Held (b.m_previous_overrides domain) (b.m_requested domain) (b.m_attempted domain)
        (w.word (index domain)) := by
    rcases inUse.words with ⟨-, unread, held⟩ | ⟨off, none, -⟩
    · exact ⟨unread, held⟩
    · exact absurd ⟨off, none .CPU, none .GPU⟩ used
  have kept (domain : Domain) := others.held held.1 (held.2 domain)
  refine ⟨?_, ?_, fun domain on => ?_, rfl, fun domain off => ?_, fun domain on => ?_⟩
  · exact others.log ▸ inUse.recorded.release b.id
  · exact others.log ▸ inUse.released.release
  · obtain ⟨profile, hz, mem⟩ := inUse.requested domain on
    exact ⟨profile, hz, others.log ▸ List.mem_append_left _ mem⟩
  · rcases (kept domain).2.2 with never | ⟨on, -⟩
    · exact .inl never
    · rw [off] at on
      cases on
  · have now := kept domain
    rw [on] at now
    refine now.seen fun hz mem => ?_
    cases current with
    | error error => simp [Except.toOption] at mem
    | ok overrides =>
        obtain rfl : overrides domain = hz := by simpa [Except.toOption] using mem
        exact (readContext_eq context domain).symm

/-- After `Release` nothing is in use, and the backend has nothing more to give back. -/
theorem release_spec {b : SysClkBackend} {w : World} (inUse : InUse b w) :
    let result := release b w
    Idle result.2.2.2 ∧ result.2.2.1.m_initialized = false ∧
      ∀ domain, result.2.2.1.m_attempted domain = false := by
  dsimp only
  unfold release
  dsimp only
  split
  · rename_i unused
    obtain ⟨off, cpu, gpu⟩ := unused
    refine ⟨⟨inUse.recorded.release b.id, inUse.released.release, fun domain => ?_⟩, off,
      fun domain => ?_⟩
    · rcases inUse.words with ⟨on, -⟩ | ⟨-, -, left⟩
      · rw [off] at on
        cases on
      · exact left domain
    · cases domain with
      | CPU => exact cpu
      | GPU => exact gpu
  · rename_i used
    rcases context : readContext b.m_flavor (w.record (.release b.id)) with ⟨current, w₁⟩
    obtain ⟨after_cpu, cpu⟩ := (inUse.releasing used context).domain .CPU
    obtain ⟨after_gpu, gpu⟩ := after_cpu.domain .GPU
    dsimp only
    have done (domain : Domain) : (releaseDomain (releaseDomain b current.toOption .CPU
        { w₁ with contextRead := true }).2.2.1 current.toOption .GPU (releaseDomain b
          current.toOption .CPU { w₁ with contextRead := true }).2.2.2).2.2.1.m_attempted domain =
        false := by
      rw [gpu, cpu]
      cases domain <;> simp
    refine ⟨⟨after_gpu.recorded, after_gpu.released, fun domain => ?_⟩, rfl, done⟩
    exact .inr ⟨after_gpu.read, after_gpu.settled domain (done domain)⟩

/-- The destructor releases a second time, without another write. -/
theorem Idle.destroy {b : SysClkBackend} {w : World} (idle : Idle w)
    (off : b.m_initialized = false) (none : ∀ domain, b.m_attempted domain = false) :
    Idle (b.destroy w) := by
  unfold SysClkBackend.destroy release
  dsimp only
  rw [if_pos ⟨off, none .CPU, none .GPU⟩]
  refine Idle.others ?_ (others_dispatch _)
  exact ⟨idle.recorded.release b.id, idle.released.snoc _ (fun _ _ _ _ eq => by cases eq), idle.left⟩

theorem InUse.finish {b : SysClkBackend} {w : World} (inUse : InUse b w) :
    Idle ((release b w).2.2.1.destroy (release b w).2.2.2) := by
  obtain ⟨idle, off, none⟩ := release_spec inUse
  exact idle.destroy off none

/-- `Initialize` reads the overrides that are to be restored, before anything is written. -/
theorem initializeContext_spec {b b' : SysClkBackend} {w w' : World} (idle : Idle w)
    (call : b.initializeContext w = (.ok b', w')) (fresh : ∀ domain, b.m_attempted domain = false) :
    InUse b' w' ∧ b'.m_initialized = true ∧ ∀ domain, b'.m_attempted domain = false := by
  have others := others_readContext b.m_flavor w
  unfold initializeContext at call
  split at call
  · cases call
  · rename_i overrides w₁ context
    cases call
    rw [context] at others
    refine ⟨⟨others.log ▸ idle.recorded, fun id profile domain hz mem => ?_, fun domain on => ?_,
      .inl ⟨rfl, rfl, fun domain => ?_⟩⟩, rfl, fresh⟩
    · rcases idle.released id profile domain hz (others.log ▸ mem) with done | same
      · exact .inl (others.log ▸ done)
      · cases same
    · rw [fresh domain] at on
      cases on
    · refine ⟨(readContext_eq context domain).symm, fun on => ?_, .inl rfl⟩
      rw [fresh domain] at on
      cases on

theorem Idle.inUse {b : SysClkBackend} {w : World} (idle : Idle w)
    (off : b.m_initialized = false) (fresh : ∀ domain, b.m_attempted domain = false) :
    InUse b w where
  recorded := idle.recorded
  released id profile domain hz mem := by
    rcases idle.released id profile domain hz mem with done | same
    · exact .inl done
    · cases same
  requested domain on := by
    rw [fresh domain] at on
    cases on
  words := .inr ⟨off, fresh, idle.left⟩

theorem InUse.record {b : SysClkBackend} {w : World} (inUse : InUse b w) (domain : Domain)
    (hz : Nat) : InUse b (w.record (.setOverride b.id (index domain) hz)) where
  recorded := inUse.recorded.setOverride b.id domain hz
  released := inUse.released.snoc _ fun _ _ _ _ eq => by cases eq
  requested other on := by
    obtain ⟨profile, hz, mem⟩ := inUse.requested other on
    exact ⟨profile, hz, List.mem_append_left _ mem⟩
  words := inUse.words

/-- The words of a backend that was initialized stay in use when one of them is written. -/
theorem InUse.setWord {b : SysClkBackend} {w : World} (inUse : InUse b w)
    (on : b.m_initialized = true) (domain : Domain) (word : Word)
    (held : Held (b.m_previous_overrides domain) (b.m_requested domain) (b.m_attempted domain)
      word) : InUse b (w.setWord domain word) where
  recorded := inUse.recorded
  released := inUse.released
  requested := inUse.requested
  words := by
    obtain ⟨-, unread, all⟩ | ⟨off, -⟩ := inUse.words
    · refine .inl ⟨on, unread, fun other => ?_⟩
      by_cases eq : other = domain
      · subst eq
        rwa [World.word_setWord]
      · rw [World.word_setWord_of_ne _ _ eq]
        exact all other
    · rw [on] at off
      cases off

theorem InUse.held {b : SysClkBackend} {w : World} (inUse : InUse b w)
    (on : b.m_initialized = true) (domain : Domain) : Held (b.m_previous_overrides domain)
      (b.m_requested domain) (b.m_attempted domain) (w.word (index domain)) := by
  obtain ⟨-, -, all⟩ | ⟨off, -⟩ := inUse.words
  · exact all domain
  · rw [on] at off
    cases off

/-- A request that is recorded and not made yet. -/
theorem InUse.request {b : SysClkBackend} {w : World} {profile : Profile} {domain : Domain}
    {hz : Nat} (inUse : InUse b w) (on : b.m_initialized = true)
    (fresh : b.m_attempted domain = false)
    (below : hz ≤ (targetsForProfile profile).of domain) :
    InUse { b with
        m_attempted := Function.update b.m_attempted domain true
        m_requested := Function.update b.m_requested domain hz }
      ((w.record (.request b.id profile domain hz)).setWord domain
        { w.word (index domain) with requested := hz }) where
  recorded := inUse.recorded.snoc (fun _ _ _ eq => by cases eq)
    (fun _ _ _ _ eq => by cases eq; exact below) (fun _ _ eq => by cases eq)
  released := inUse.released.snoc _ fun _ _ _ _ eq => by cases eq; rfl
  requested other tried := by
    by_cases eq : other = domain
    · subst eq
      exact ⟨profile, hz, List.mem_append_right _ List.mem_cons_self⟩
    · dsimp only at tried
      rw [Function.update_of_ne eq] at tried
      obtain ⟨profile, hz, mem⟩ := inUse.requested other tried
      exact ⟨profile, hz, List.mem_append_left _ mem⟩
  words := by
    obtain ⟨-, unread, all⟩ | ⟨off, -⟩ := inUse.words
    · refine .inl ⟨on, unread, fun other => ?_⟩
      by_cases eq : other = domain
      · subst eq
        obtain ⟨previous, -, never | ⟨tried, -⟩⟩ := all other
        · rw [World.word_setWord]
          exact ⟨previous, fun _ => by simp, .inl never⟩
        · rw [fresh] at tried
          cases tried
      · rw [World.word_setWord_of_ne _ _ eq]
        dsimp only
        rw [Function.update_of_ne eq, Function.update_of_ne eq]
        exact all other
    · rw [on] at off
      cases off

theorem requestRate_spec {b : SysClkBackend} {w : World} {profile : Profile} {domain : Domain}
    {hz : Nat} (inUse : InUse b w) (on : b.m_initialized = true)
    (fresh : b.m_attempted domain = false)
    (below : hz ≤ (targetsForProfile profile).of domain) :
    let result := b.requestRate profile domain hz w
    InUse result.2.1 result.2.2 ∧ result.2.1 = { b with
      m_attempted := Function.update b.m_attempted domain true
      m_requested := Function.update b.m_requested domain hz } := by
  have asked := inUse.request on fresh below
  dsimp only
  unfold requestRate
  dsimp only
  rcases call : setOverride b.id domain hz
    ((w.record (.request b.id profile domain hz)).setWord domain
      { w.word (index domain) with requested := hz }) with ⟨result, w'⟩
  obtain ⟨w₁, others, effect⟩ := setOverride_cases call
  have before := (asked.record domain hz).others others
  refine ⟨?_, rfl⟩
  dsimp only
  rcases effect with rfl | ⟨rfl, -⟩
  · have held := before.held on domain
    refine before.setWord on domain _ ⟨held.1, held.2.1, .inr ⟨?_, .inl ?_⟩⟩
    · simp
    · simp
  · exact before

/-! ## Sessions -/

/-- A session that is not active has no backend. -/
def SessionInv (state : Session × World) : Prop :=
  match state.1.m_backend with
  | none => Idle state.2
  | some b => state.1.m_report.status = .Active ∧ InUse b state.2

theorem failAndRelease_spec {s : Session} {b : SysClkBackend} {w : World} (detail : String)
    (mine : s.m_backend = some b) (inUse : InUse b w) :
    SessionInv (s.failAndRelease detail w) ∧ (s.failAndRelease detail w).1.m_backend = none := by
  unfold Session.failAndRelease SessionInv
  rw [mine]
  exact ⟨inUse.finish, rfl⟩

theorem stop_spec {s : Session} {w : World} (inv : SessionInv (s, w)) :
    SessionInv (s.stop w).2 ∧ (s.stop w).2.1.m_backend = none := by
  unfold Session.stop
  cases mine : s.m_backend with
  | none =>
      refine ⟨?_, mine⟩
      exact inv
  | some b =>
      unfold SessionInv at inv
      rw [mine] at inv
      exact ⟨inv.2.finish, rfl⟩

/-- What `Start` leaves: an active session, or one that has failed and has nothing in use. -/
def Started (state : Session × World) : Prop :=
  SessionInv state ∧ (state.1.m_report.status = .Failed → state.1.m_backend = none)

theorem started_failAndRelease {s : Session} {b : SysClkBackend} {w : World} (detail : String)
    (mine : s.m_backend = some b) (inUse : InUse b w) : Started (s.failAndRelease detail w) := by
  obtain ⟨inv, none⟩ := failAndRelease_spec detail mine inUse
  exact ⟨inv, fun _ => none⟩

theorem requestRates_spec {b : SysClkBackend} {report : StartReport} {w : World}
    (inUse : InUse b w) (on : b.m_initialized = true)
    (fresh : ∀ domain, b.m_attempted domain = false)
    (cpu_below : report.selected_cpu_hz ≤ (targetsForProfile report.profile).cpu_hz)
    (gpu_below : report.selected_gpu_hz ≤ (targetsForProfile report.profile).gpu_hz) :
    Started (Session.requestRates b report w) := by
  obtain ⟨after_cpu, cpu⟩ := requestRate_spec inUse on (fresh .CPU) cpu_below
  unfold Session.requestRates
  dsimp only
  split
  · rename_i error b₁ w₁ call
    rw [call] at after_cpu
    exact started_failAndRelease _ rfl after_cpu
  · rename_i b₁ w₁ call
    rw [call] at after_cpu cpu
    dsimp only at after_cpu cpu
    have on₁ : b₁.m_initialized = true := by rw [cpu]; exact on
    have fresh₁ : b₁.m_attempted .GPU = false := by rw [cpu]; simp [fresh]
    obtain ⟨after_gpu, -⟩ := requestRate_spec after_cpu on₁ fresh₁ gpu_below
    split
    · rename_i error b₂ w₂ call
      rw [call] at after_gpu
      exact started_failAndRelease _ rfl after_gpu
    · rename_i b₂ w₂ call
      rw [call] at after_gpu
      refine ⟨⟨rfl, after_gpu.others (others_readContext _ _)⟩, fun failed => ?_⟩
      cases failed

theorem start_spec {s : Session} {w : World} (enabled : Bool) (factory : BackendSelection)
    (profile : Profile) (inv : SessionInv (s, w)) :
    Started (s.start enabled factory profile w) := by
  unfold Session.start
  split
  · rename_i active
    have status : s.m_report.status = .Active := by
      simpa using (Bool.and_eq_true_iff.mp active).1
    refine ⟨?_, fun failed => ?_⟩
    · exact inv
    · dsimp only at failed
      rw [status] at failed
      cases failed
  · rename_i inactive
    have none : s.m_backend = none := by
      cases mine : s.m_backend with
      | none => rfl
      | some b =>
          unfold SessionInv at inv
          rw [mine] at inv
          have status : s.m_report.status = .Active := inv.1
          exact absurd (by simp [Session.isActive, status, mine]) inactive
    have idle : Idle w := by
      unfold SessionInv at inv
      rwa [none] at inv
    dsimp only
    split
    · refine ⟨?_, fun _ => none⟩
      unfold SessionInv
      rwa [none]
    · split
      · refine ⟨?_, fun _ => none⟩
        unfold SessionInv
        rwa [none]
      · rename_i flavor found
        generalize opened : ({ id := w.backends, m_flavor := flavor } : SysClkBackend) = b
        have fresh : ∀ domain, b.m_attempted domain = false := by subst opened; exact fun _ => rfl
        have off : b.m_initialized = false := by subst opened; rfl
        have made : Idle { w with backends := w.backends + 1 } :=
          ⟨idle.recorded, idle.released, idle.left⟩
        split
        · rename_i error w₁ call
          have others := others_readContext b.m_flavor { w with backends := w.backends + 1 }
          have same : w₁ = (readContext b.m_flavor { w with backends := w.backends + 1 }).2 := by
            unfold initializeContext at call
            split at call
            · rename_i read
              cases call
              rw [read]
            · cases call
          exact started_failAndRelease _ rfl ((made.others (same ▸ others)).inUse off fresh)
        · rename_i b₁ w₁ call
          obtain ⟨inUse, on, fresh₁⟩ := initializeContext_spec made call fresh
          have after_cpu := inUse.others (others_getAvailableRates b₁ w₁)
          split
          · rename_i error w₂ call
            rw [call] at after_cpu
            exact started_failAndRelease _ rfl after_cpu
          · rename_i cpu_rates w₂ call
            rw [call] at after_cpu
            have after_gpu := after_cpu.others (others_getAvailableRates b₁ w₂)
            split
            · rename_i error w₃ call
              rw [call] at after_gpu
              exact started_failAndRelease _ rfl after_gpu
            · rename_i gpu_rates w₃ call
              rw [call] at after_gpu
              split
              · exact started_failAndRelease _ rfl after_gpu
              · refine requestRates_spec after_gpu on fresh₁ ?_ ?_
                · cases flavor <;> exact selectNearestAtOrBelow_le _ _
                · cases flavor <;> exact selectNearestAtOrBelow_le _ _

/-! ## Runs -/

theorem SessionInv.others {s : Session} {w w' : World} (inv : SessionInv (s, w))
    (others : Others w w') : SessionInv (s, w') := by
  unfold SessionInv at inv ⊢
  cases mine : s.m_backend with
  | none =>
      rw [mine] at inv
      exact inv.others others
  | some b =>
      rw [mine] at inv
      exact ⟨inv.1, inv.2.others others⟩

/-- Every operation keeps the invariant; one that stops the session or fails to start it leaves
no backend. -/
theorem perform_spec (operation : Operation) {state : Session × World} (inv : SessionInv state) :
    SessionInv (operation.perform state) ∧
      (operation = .stop ∨ (operation.perform state).1.m_report.status = .Failed →
        (operation.perform state).1.m_backend = none) := by
  obtain ⟨s, w⟩ := state
  cases operation with
  | start enabled factory profile =>
      obtain ⟨after, failed⟩ := start_spec enabled factory profile inv
      refine ⟨after.others (others_dispatch _), ?_⟩
      rintro (eq | status)
      · cases eq
      · exact failed status
  | stop =>
      obtain ⟨after, none⟩ := stop_spec inv
      exact ⟨after.others (others_dispatch _), fun _ => none⟩

theorem run_concat (operations : List Operation) (operation : Operation) (w : World) :
    run (operations ++ [operation]) w = operation.perform (run operations w) := by
  simp [run]

theorem idle_initial (overrides : Nat → Nat) (outcomes : Nat → Outcome) :
    Idle (World.initial overrides outcomes) where
  recorded :=
    { no_memory := fun _ _ _ mem => absurd mem List.not_mem_nil
      below := fun _ _ _ _ mem => absurd mem List.not_mem_nil
      attempted := fun before after _ _ eq => by simp [World.initial] at eq }
  released _ _ _ _ mem := absurd mem List.not_mem_nil
  left _ := .inl rfl

theorem inv_run (operations : List Operation) (overrides : Nat → Nat) (outcomes : Nat → Outcome) :
    SessionInv (run operations (World.initial overrides outcomes)) := by
  induction operations using List.reverseRecOn with
  | nil => exact idle_initial overrides outcomes
  | append_singleton operations operation ih =>
      rw [run_concat]
      exact (perform_spec operation ih).1

theorem SessionInv.idle {state : Session × World} (inv : SessionInv state)
    (none : state.1.m_backend = none) : Idle state.2 := by
  unfold SessionInv at inv
  rwa [none] at inv

theorem Idle.settled {w : World} (idle : Idle w) (domain : Domain) :
    Settled (w.word (index domain)) := by
  rcases idle.left domain with never | ⟨-, settled⟩
  · exact .inl never
  · exact settled

/-- Whatever fails and whatever others write, in every run of a session: the memory module is
never written; no request is above the profile's target; after an operation that stops the
session or fails to start it, and when the session is destroyed, the words are settled; every
backend that requested a rate is released, and restores only what it requested. -/
theorem clock_ownership (overrides : Nat → Nat) (outcomes : Nat → Outcome)
    (operations : List Operation) :
    let ended := destroyed (run operations (World.initial overrides outcomes))
    (∀ id module hz, .setOverride id module hz ∈ ended.log → module ≠ MEMORY_INDEX) ∧
    (∀ id profile domain hz, .request id profile domain hz ∈ ended.log →
      hz ≤ (targetsForProfile profile).of domain) ∧
    (∀ before operation, operations = before ++ [operation] →
      let after := run operations (World.initial overrides outcomes)
      operation = .stop ∨ after.1.m_report.status = .Failed →
        ∀ domain, Settled (after.2.word (index domain))) ∧
    (∀ domain, Settled (ended.word (index domain))) ∧
    (∀ id profile domain hz, .request id profile domain hz ∈ ended.log →
      .release id ∈ ended.log) ∧
    ∀ before after id domain, ended.log = before ++ .restore id domain :: after →
      ∃ profile hz, .request id profile domain hz ∈ before := by
  have inv := inv_run operations overrides outcomes
  obtain ⟨after_stop, none⟩ := stop_spec inv
  have idle : Idle (destroyed (run operations (World.initial overrides outcomes))) :=
    (after_stop.idle none).others (others_dispatch _)
  refine ⟨idle.recorded.no_memory, idle.recorded.below, ?_, idle.settled, ?_,
    idle.recorded.attempted⟩
  · rintro before operation rfl
    dsimp only
    rw [run_concat]
    intro settles domain
    have kept := perform_spec operation (inv_run before overrides outcomes)
    exact (kept.1.idle (kept.2 settles)).settled domain
  · intro id profile domain hz mem
    rcases idle.released id profile domain hz mem with done | same
    · exact done
    · cases same

/-! ## A value that comes after the read -/

/-- The words are settled by what the session could see: another party's value is not the
requested one. -/
def SettledAsRead (word : Word) : Prop :=
  word.written = false ∨ word.hz = word.previous ∨ word.restoreFailed = true ∨
    ∃ late, word.holder = .other late ∧ word.hz ≠ word.requested

/-- The manager offers one rate for each domain, and another party asks for the same processor
rate as the session between the two restoring writes. -/
def lateWrite : Nat → Outcome
  | 1 => { rates := [1020000000], count := 1 }
  | 2 => { rates := [460800000], count := 1 }
  | 9 => { others := [(CPU_INDEX, 1020000000)] }
  | _ => {}

theorem not_settledAsRead : ¬ ∀ overrides outcomes operations domain,
    SettledAsRead ((destroyed (run operations (World.initial overrides outcomes))).word
      (index domain)) := by
  intro settled
  have word := settled (fun _ => 0) lateWrite
    [.start true { backend := some .Official } .Performance, .stop] .CPU
  unfold SettledAsRead at word
  revert word
  decide +kernel

end Phocoena.Horizon.PhocoenaClock
