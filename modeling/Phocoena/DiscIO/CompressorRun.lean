import Phocoena.DiscIO.CompressorInvariant

/-! # Runs of the compressor

While items are being submitted every slot is handed over as `Slot` says. After `Shutdown` has
collected all events the threads only wait to be told to exit. `Ledger` is what holds of the
history in both phases.
-/

namespace Phocoena.DiscIO.MultithreadedCompressor

/-- A compression does not succeed when that of an earlier item has failed. -/
def InOrder (a : Action) (s : State) : Prop :=
  match a with
  | .compressThread i result =>
      ∀ item, (s.compressThreads i).pc = .compress item →
        if result = .success then ∀ k ∈ s.failed, ¬ k < item
        else ∀ k ∈ s.compressed, ¬ item < k
  | _ => True

/-- The client has set the shutdown flag. -/
def ClientPc.closing : ClientPc → Bool
  | .setAllCompress _ | .setAllOutput _ | .join _ | .joinOutput | .returned => true
  | _ => false

/-- The slot a loop of `Shutdown` is at. -/
def ClientPc.slot : ClientPc → Nat
  | .waitAllReady i | .waitAllDone i | .waitAllOutputReady i | .setAllCompress i
  | .setAllOutput i | .join i => i
  | _ => 0

structure Ledger (n : Nat) (s : State) : Prop where
  outputs : s.outputs = List.range s.outputs.length
  taking : ∀ item, (s.outputPc = .setReady item ∨ s.outputPc = .output item) →
    item = s.outputs.length ∧ item ∈ s.compressed
  index : (∀ result, s.outputPc ≠ .reportError result) → s.index = s.outputs.length % n
  reporting : ∀ result, s.outputPc = .reportError result →
    advance n s.index = s.outputs.length % n ∧ result ≠ .success
  starting : ∀ i, s.outputPc = .start i → i < n
  alive : s.outputPc = .exited → s.shuttingDown = true
  currentIndex : s.currentIndex = s.submitted % n
  taken_le : s.taken ≤ s.submitted
  outputs_compressed : s.outputs ⊆ s.compressed
  separated : ∀ k ∈ s.failed, ∀ item ∈ s.compressed, item ≤ k
  result : s.result = s.errors.headD .success
  errors : .success ∉ s.errors
  refused : s.errors = [] → s.refused = 0
  slot : s.client.slot < n
  closing : s.shuttingDown = s.client.closing

def Running (n : Nat) (s : State) : Prop :=
  ∀ i < n, ∃ next, Slot n (s.view n i) (s.compressThreads i) next

/-- `Shutdown` has set the compress event of slot `i`. -/
def ClientPc.toldToExit : ClientPc → Nat → Bool
  | .setAllCompress k, i => i < k
  | _, _ => true

/-- `Shutdown` has set the output event of slot `i`. -/
def ClientPc.toldOutput : ClientPc → Nat → Bool
  | .setAllCompress _, _ => false
  | .setAllOutput k, i => i < k
  | _, _ => true

structure Closing (n : Nat) (s : State) : Prop where
  thread : ∀ i < n, ((s.compressThreads i).pc = .waitCompress ∧
      (s.compressThreads i).compressEvent = s.client.toldToExit i) ∨
    s.client.toldToExit i = true ∧ ((s.compressThreads i).pc = .checkShuttingDown ∨
      (s.compressThreads i).pc = .exited)
  outputThread : s.outputPc = .waitOutput ∨ s.outputPc = .checkShuttingDown ∨
    (∃ item, s.outputPc = .output item) ∨ (∃ result, s.outputPc = .reportError result) ∨
      s.outputPc = .exited
  outputTold : ∀ i < n, s.client.toldOutput i = true →
    (s.compressThreads i).outputEvent = true ∨
      s.index = i ∧ (s.outputPc = .checkShuttingDown ∨ s.outputPc = .exited)
  returned : s.client = .returned → s.outputPc = .exited
  complete : s.failed = [] → s.taken = s.submitted

structure Invariant (n : Nat) (s : State) : Prop where
  ledger : Ledger n s
  running : s.client.closing = false → Running n s
  closing : s.client.closing = true → Closing n s

/-! ## A compression thread takes a step -/

section
variable {n i : Nat} {s s' : State} {result : ConversionResultCode}

@[simp] theorem setThread_view (t : CompressThread) : (s.setThread i t).view n = s.view n := rfl

@[simp] theorem setError_view : (s.setError result).view n = s.view n := rfl

@[simp] theorem setThread_client (t : CompressThread) : (s.setThread i t).client = s.client := rfl

@[simp] theorem setThread_self (t : CompressThread) : (s.setThread i t).compressThreads i = t :=
  Function.update_self _ _ _

theorem setThread_of_ne {j : Nat} (ne : j ≠ i) (t : CompressThread) :
    (s.setThread i t).compressThreads j = s.compressThreads j :=
  Function.update_of_ne ne _ _

/-- A thread changes its slot, and reports an error or logs the end of a compression. -/
theorem compressThreadStep_cases (step : compressThreadStep i result s = some s') : ∃ t,
    s' = s.setThread i t ∨
    (∃ r, ((s.compressThreads i).pc = .reportSetUp r ∨
        (s.compressThreads i).pc = .reportError r) ∧
      s' = (s.setError r).setThread i t) ∨
    (∃ item, (s.compressThreads i).pc = .compress item ∧ result = .success ∧
      s' = { s with compressed := s.compressed ++ [item] }.setThread i t) ∨
    ∃ item, (s.compressThreads i).pc = .compress item ∧ result ≠ .success ∧
      s' = { s with failed := s.failed ++ [item] }.setThread i t := by
  unfold compressThreadStep at step
  cases pc : (s.compressThreads i).pc <;> simp only [pc] at step
  case waitCompress | waitOutputReady =>
    split at step <;> cases step
    exact ⟨_, .inl rfl⟩
  case compress item =>
    split at step <;> cases step
    · exact ⟨_, .inr (.inr (.inl ⟨item, rfl, ‹_›, rfl⟩))⟩
    · exact ⟨_, .inr (.inr (.inr ⟨item, rfl, ‹_›, rfl⟩))⟩
  case reportSetUp r =>
    cases step
    exact ⟨_, .inr (.inl ⟨r, .inl rfl, rfl⟩)⟩
  case reportError r =>
    cases step
    exact ⟨_, .inr (.inl ⟨r, .inr rfl, rfl⟩)⟩
  case exited => cases step
  all_goals
    cases step
    exact ⟨_, .inl rfl⟩

theorem Slot.compressThreadStep {next : Nat} (h : Slot n (s.view n i) (s.compressThreads i) next)
    (running : s.shuttingDown = false) (ok : InOrder (.compressThread i result) s)
    (step : compressThreadStep i result s = some s') :
    ∃ next', Slot n (s'.view n i) (s'.compressThreads i) next' := by
  unfold MultithreadedCompressor.compressThreadStep at step
  cases pc : (s.compressThreads i).pc <;> simp only [pc] at step
  case waitCompress =>
    split at step <;> cases step
    exact ⟨next, by simpa using h.waitCompress pc ‹_›⟩
  case waitOutputReady =>
    split at step <;> cases step
    exact ⟨next, by simpa using h.waitOutputReady pc ‹_›⟩
  case compress item =>
    have earlier := ok item pc
    split at step
    · rw [if_pos ‹_›] at earlier
      cases step
      refine ⟨next, ?_⟩
      rw [setThread_self]
      exact h.compressed pc fun k mem => Nat.le_of_not_lt (earlier k mem)
    · cases step
      refine ⟨next + n, ?_⟩
      rw [setThread_self]
      exact h.failed pc ‹_›
  case exited => cases step
  case setOutput =>
    cases step
    exact ⟨next + n, by simpa using h.setOutput pc⟩
  case checkShuttingDown =>
    cases step
    exact ⟨next, by simpa [running] using h.checkShuttingDown pc⟩
  all_goals cases step
  case setUp => exact ⟨next, by simpa using h.setUp pc result⟩
  case reportSetUp => exact ⟨next, by simpa using h.reportSetUp pc⟩
  case startReady => exact ⟨next, by simpa using h.startReady pc⟩
  case startDone => exact ⟨next, by simpa using h.startDone pc⟩
  case takeParameters => exact ⟨next, by simpa using h.takeParameters pc⟩
  case resetDone => exact ⟨next, by simpa using h.resetDone pc⟩
  case setReady => exact ⟨next, by simpa using h.setReady pc⟩
  case storeOutput => exact ⟨next, by simpa using h.storeOutput pc⟩
  case reportError => exact ⟨next, by simpa using h.reportError pc⟩
  case setDone => exact ⟨next, by simpa using h.setDone pc⟩

theorem Running.compressThreadStep (h : Running n s) (lt : i < n)
    (running : s.shuttingDown = false) (ok : InOrder (.compressThread i result) s)
    (step : compressThreadStep i result s = some s') : Running n s' := by
  intro j below
  obtain ⟨next, slot⟩ := h j below
  by_cases eq : j = i
  · subst eq
    exact slot.compressThreadStep running ok step
  · refine ⟨next, ?_⟩
    obtain ⟨t, rfl | ⟨_, _, rfl⟩ | ⟨_, _, _, rfl⟩ | ⟨_, _, _, rfl⟩⟩ :=
      compressThreadStep_cases step <;> rw [setThread_of_ne eq]
    · exact slot
    · exact slot
    · exact slot.of_logs (List.subset_append_left _ _) (List.Subset.refl _)
    · exact slot.of_logs (List.Subset.refl _) (List.subset_append_left _ _)

/-! ## The client and the output thread take a step -/

/-- Only the slot `k` looks different after the step. -/
theorem Running.change (h : Running n s) (k : Nat)
    (others : ∀ j < n, j ≠ k → s'.compressThreads j = s.compressThreads j ∧
      s'.view n j = s.view n j)
    (own : ∀ next, Slot n (s.view n k) (s.compressThreads k) next →
      ∃ next', Slot n (s'.view n k) (s'.compressThreads k) next') : Running n s' := by
  intro j below
  obtain ⟨next, slot⟩ := h j below
  by_cases eq : j = k
  · subst eq
    exact own next slot
  · obtain ⟨sameThread, sameView⟩ := others j below eq
    exact ⟨next, by rwa [sameThread, sameView]⟩

theorem Running.same (h : Running n s) (threads : s'.compressThreads = s.compressThreads)
    (views : ∀ j < n, s'.view n j = s.view n j) : Running n s' := by
  intro j below
  obtain ⟨next, slot⟩ := h j below
  exact ⟨next, by rwa [threads, views j below]⟩

theorem Running.clientStep (h : Running n s) (l : Ledger n s) (open_ : s.client.closing = false)
    (notLast : s.client ≠ .storeShuttingDown) (step : clientStep n s = some s') :
    Running n s' := by
  have pos : 0 < n := by have := l.slot; omega
  unfold MultithreadedCompressor.clientStep at step
  cases client : s.client <;> simp only [client] at step open_ notLast
  case idle => cases step
  case waitReady =>
    split at step <;> cases step
    refine h.change s.currentIndex ?_ ?_
    · intro j _ ne
      refine ⟨setThread_of_ne ne _, ?_⟩
      rw [setThread_view]
      simp [State.view, client, ne.symm, State.taken,
        ClientPc.has, ClientPc.consumedDone, ClientPc.consumedOutput]
    · intro next slot
      refine ⟨next, ?_⟩
      rw [setThread_self, setThread_view]
      have := slot.consumeReady ‹_›
      simpa [State.view, client, State.taken,
        ClientPc.has, ClientPc.consumedDone, ClientPc.consumedOutput] using this
  case storeParameters =>
    cases step
    refine h.change s.currentIndex ?_ ?_
    · intro j _ ne
      refine ⟨setThread_of_ne ne _, ?_⟩
      rw [setThread_view]
      simp [State.view, client, ne.symm, State.taken,
        ClientPc.has, ClientPc.consumedDone, ClientPc.consumedOutput]
    · intro next slot
      refine ⟨next, ?_⟩
      rw [setThread_self, setThread_view]
      have := slot.storeParameters (by simp [State.view, client,
        ClientPc.has, ClientPc.consumedDone, ClientPc.consumedOutput])
      simpa [State.view, client, State.taken, l.currentIndex, nextItem_turn pos,
        ClientPc.has, ClientPc.consumedDone, ClientPc.consumedOutput] using this
  case setCompress =>
    cases step
    refine h.change s.currentIndex ?_ ?_
    · intro j _ ne
      refine ⟨setThread_of_ne ne _, ?_⟩
      rw [setThread_view]
      simp [State.view, client, ne.symm, State.taken,
        ClientPc.has, ClientPc.consumedDone, ClientPc.consumedOutput,
        nextItem_succ_of_ne (l.currentIndex ▸ ne.symm)]
    · intro next slot
      refine ⟨next, ?_⟩
      rw [setThread_self, setThread_view]
      have := slot.submit (by simp [State.view, client,
        ClientPc.has, ClientPc.consumedDone, ClientPc.consumedOutput])
        (by simp [State.view, client,
          ClientPc.has, ClientPc.consumedDone, ClientPc.consumedOutput]) (by simp [State.view, client])
      simpa [State.view, client, State.taken, l.currentIndex, nextItem_turn pos,
        nextItem_succ_turn pos,
          ClientPc.has, ClientPc.consumedDone, ClientPc.consumedOutput] using this
  case waitAllReady i =>
    split at step <;> cases step
    refine h.change i ?_ ?_
    · intro j below ne
      refine ⟨setThread_of_ne ne _, ?_⟩
      have passed : j < i + 1 ↔ j < i := by omega
      rw [setThread_view]
      split
      · simp [State.view, client, State.taken,
        ClientPc.has, ClientPc.consumedDone, ClientPc.consumedOutput, passed]
      · have last : j < i := by omega
        simp [State.view, client, State.taken,
          ClientPc.has, ClientPc.consumedDone, ClientPc.consumedOutput, last]
    · intro next slot
      refine ⟨next, ?_⟩
      rw [setThread_self, setThread_view]
      have := slot.consumeReady ‹_›
      split <;> simpa [State.view, client, State.taken,
        ClientPc.has, ClientPc.consumedDone, ClientPc.consumedOutput] using this
  case waitAllDone i =>
    split at step <;> cases step
    refine h.change i ?_ ?_
    · intro j below ne
      refine ⟨setThread_of_ne ne _, ?_⟩
      have passed : j < i + 1 ↔ j < i := by omega
      rw [setThread_view]
      split
      · simp [State.view, client, State.taken,
        ClientPc.has, ClientPc.consumedDone, ClientPc.consumedOutput, passed]
      · have last : j < i := by omega
        simp [State.view, client, State.taken,
          ClientPc.has, ClientPc.consumedDone, ClientPc.consumedOutput, last]
    · intro next slot
      refine ⟨next, ?_⟩
      rw [setThread_self, setThread_view]
      have := slot.consumeDone (by simp [State.view, client,
        ClientPc.has, ClientPc.consumedDone, ClientPc.consumedOutput]) ‹_›
      split <;> simpa [State.view, client, State.taken,
        ClientPc.has, ClientPc.consumedDone, ClientPc.consumedOutput] using this
  case waitAllOutputReady i =>
    split at step <;> cases step
    refine h.change i ?_ ?_
    · intro j below ne
      refine ⟨setThread_of_ne ne _, ?_⟩
      have passed : j < i + 1 ↔ j < i := by omega
      rw [setThread_view]
      split
      · simp [State.view, client, State.taken,
        ClientPc.has, ClientPc.consumedDone, ClientPc.consumedOutput, passed]
      · have last : j < i := by omega
        simp [State.view, client, State.taken,
          ClientPc.has, ClientPc.consumedDone, ClientPc.consumedOutput, last]
    · intro next slot
      refine ⟨next, ?_⟩
      rw [setThread_self, setThread_view]
      have := slot.consumeOutputReady ‹_›
      split <;> simpa [State.view, client, State.taken,
        ClientPc.has, ClientPc.consumedDone, ClientPc.consumedOutput] using this
  case storeShuttingDown => exact absurd rfl notLast
  all_goals cases open_

theorem Running.outputThreadStep (h : Running n s) (l : Ledger n s)
    (running : s.shuttingDown = false) (step : outputThreadStep n result s = some s') :
    Running n s' := by
  have pos : 0 < n := by have := l.slot; omega
  unfold MultithreadedCompressor.outputThreadStep at step
  cases pc : s.outputPc <;> simp only [pc] at step
  case start i =>
    cases step
    refine h.change i ?_ ?_
    · intro j below ne
      refine ⟨setThread_of_ne ne _, ?_⟩
      have passed : i + 1 ≤ j ↔ i ≤ j := by omega
      rw [setThread_view]
      split
      · simp [State.view, pc, State.taken, OutputPc.has, OutputPc.woken, passed]
      · have last : ¬ i ≤ j := by omega
        simp [State.view, pc, State.taken, OutputPc.has, OutputPc.woken, last]
    · intro next slot
      refine ⟨next, ?_⟩
      have free : s.client.consumedOutput i = 0 := by
        have := slot.output
        simp [State.view, pc, OutputPc.has] at this
        omega
      rw [setThread_self, setThread_view]
      have := slot.outputReady (by simp [State.view, pc, OutputPc.has, free])
        (by simp [State.view, pc, OutputPc.woken])
      split <;> simpa [State.view, pc, State.taken, OutputPc.has, OutputPc.woken, free] using this
  case waitOutput =>
    split at step <;> cases step
    refine h.change s.index ?_ ?_
    · intro j below ne
      refine ⟨setThread_of_ne ne _, ?_⟩
      rw [setThread_view]
      simp [State.view, pc, State.taken, ne.symm, OutputPc.has, OutputPc.woken]
    · intro next slot
      refine ⟨next, ?_⟩
      have event : (s.compressThreads s.index).outputEvent = true := ‹_›
      have free : s.client.consumedOutput s.index = 0 := by
        have := slot.output
        simp [State.view, pc, OutputPc.has, event] at this
        omega
      rw [setThread_self, setThread_view]
      have := slot.waitOutput event
      simpa [State.view, pc, State.taken, OutputPc.has, OutputPc.woken, free] using this
  case checkShuttingDown =>
    cases step
    refine h.same rfl fun j _ => ?_
    simp [State.view, pc, State.taken, running, OutputPc.has, OutputPc.woken]
  case takeParameters =>
    have index : s.index = s.outputs.length % n := l.index (by simp [pc])
    cases step
    refine h.change s.index ?_ ?_
    · intro j below ne
      refine ⟨rfl, ?_⟩
      simp [State.view, pc, State.taken, ne.symm, OutputPc.has, OutputPc.woken,
        nextItem_succ_of_ne (index ▸ ne.symm)]
    · intro next slot
      refine ⟨next, ?_⟩
      have := slot.takeOutput (by simp [State.view, pc, OutputPc.woken])
      simpa [State.view, pc, State.taken, OutputPc.has, OutputPc.woken, index, nextItem_turn pos,
        nextItem_succ_turn pos] using this
  case setReady item =>
    cases step
    refine h.change s.index ?_ ?_
    · intro j below ne
      refine ⟨setThread_of_ne ne _, ?_⟩
      rw [setThread_view]
      simp [State.view, pc, State.taken, ne.symm, OutputPc.has, OutputPc.woken]
    · intro next slot
      refine ⟨next, ?_⟩
      have free : s.client.consumedOutput s.index = 0 := by
        have := slot.output
        simp [State.view, pc, OutputPc.has] at this
        omega
      rw [setThread_self, setThread_view]
      have := slot.outputReady (by simp [State.view, pc, OutputPc.has, free])
        (by simp [State.view, pc, OutputPc.woken])
      simpa [State.view, pc, State.taken, OutputPc.has, OutputPc.woken, free] using this
  case output item =>
    split at step <;> cases step
    · refine h.same rfl fun j _ => ?_
      simp [State.view, pc, State.taken, OutputPc.has, OutputPc.woken]
    · refine h.same rfl fun j _ => ?_
      simp [State.view, pc, State.taken, OutputPc.has, OutputPc.woken]
  case reportError result =>
    cases step
    refine h.same rfl fun j _ => ?_
    simp [State.view, pc, State.taken, OutputPc.has, OutputPc.woken, State.setError]
  case exited => cases step

/-! ## The history -/

theorem advance_mod (pos : 0 < n) (m : Nat) : advance n (m % n) = (m + 1) % n := by
  have lt := Nat.mod_lt m pos
  rw [advance, ← Nat.mod_add_mod]
  split
  · rw [show m % n + 1 = n by omega, Nat.sub_self, Nat.mod_self]
  · exact (Nat.mod_eq_of_lt (by omega)).symm

/-- An error is recorded only when there is none. -/
theorem Ledger.setError (l : Ledger n s) (failure : result ≠ .success) :
    Ledger n (s.setError result) := by
  refine { l with result := ?_, errors := ?_, refused := ?_ }
  · have first := l.result
    cases errors : s.errors with
    | nil =>
        rw [errors] at first
        simp [State.setError, errors, first]
    | cons e rest =>
        rw [errors] at first
        have failed : e ≠ .success := by
          rintro rfl
          exact l.errors (errors ▸ List.mem_cons_self)
        simp_all [State.setError]
  · simp [State.setError, l.errors, failure.symm]
  · simp [State.setError]

theorem Ledger.compressThreadStep (l : Ledger n s) (ok : InOrder (.compressThread i result) s)
    (reported : ∀ r, ((s.compressThreads i).pc = .reportSetUp r ∨
      (s.compressThreads i).pc = .reportError r) → r ≠ .success)
    (step : compressThreadStep i result s = some s') : Ledger n s' := by
  obtain ⟨t, rfl | ⟨r, pc, rfl⟩ | ⟨item, pc, success, rfl⟩ | ⟨item, pc, failure, rfl⟩⟩ :=
    compressThreadStep_cases step
  · exact { l with }
  · exact { l.setError (reported r pc) with }
  · have earlier := ok item pc
    rw [if_pos success] at earlier
    refine { l with taking := ?_, outputs_compressed := ?_, separated := ?_ }
    · intro x taking
      obtain ⟨eq, mem⟩ := l.taking x taking
      exact ⟨eq, List.mem_append_left _ mem⟩
    · exact fun x mem => List.mem_append_left _ (l.outputs_compressed mem)
    · intro k failed x mem
      rcases List.mem_append.mp mem with old | new
      · exact l.separated k failed x old
      · rw [List.mem_singleton.mp new]
        exact Nat.le_of_not_lt (earlier k failed)
  · have later := ok item pc
    rw [if_neg failure] at later
    refine { l with separated := ?_ }
    intro k mem x success
    rcases List.mem_append.mp mem with old | new
    · exact l.separated k old x success
    · rw [List.mem_singleton.mp new]
      exact Nat.le_of_not_lt (later x success)

theorem Ledger.outputThreadStep (l : Ledger n s)
    (full : s.outputPc = .takeParameters →
      (s.compressThreads s.index).outputParameters = s.outputs.length ∧
        s.outputs.length ∈ s.compressed ∧ s.outputs.length < s.submitted)
    (step : outputThreadStep n result s = some s') : Ledger n s' := by
  have pos : 0 < n := by have := l.slot; omega
  have index := l.index
  have taken_le := l.taken_le
  unfold MultithreadedCompressor.outputThreadStep at step
  cases pc : s.outputPc <;> simp only [pc] at step
  case start i =>
    cases step
    refine { l with taking := ?_, index := ?_, reporting := ?_, starting := ?_, alive := ?_,
                    taken_le := ?_ }
    · intro item h
      by_cases more : i + 1 < n <;> simp [State.setThread, more] at h
    · intro _
      exact index (by simp [pc])
    · intro r h
      by_cases more : i + 1 < n <;> simp [State.setThread, more] at h
    · intro j h
      by_cases more : i + 1 < n <;> simp [State.setThread, more] at h
      omega
    · intro h
      by_cases more : i + 1 < n <;> simp [State.setThread, more] at h
    · by_cases more : i + 1 < n <;> simpa [State.taken, State.setThread, pc, more] using taken_le
  case waitOutput =>
    split at step <;> cases step
    refine { l with taking := ?_, index := ?_, reporting := ?_, starting := ?_, alive := ?_,
                    taken_le := ?_ }
    · simp [State.setThread]
    · intro _
      exact index (by simp [pc])
    · simp [State.setThread]
    · simp [State.setThread]
    · simp [State.setThread]
    · simpa [State.taken, State.setThread, pc] using taken_le
  case checkShuttingDown =>
    cases step
    refine { l with taking := ?_, index := ?_, reporting := ?_, starting := ?_, alive := ?_,
                    taken_le := ?_ }
    · intro item h
      by_cases closing : s.shuttingDown <;> simp [closing] at h
    · intro _
      exact index (by simp [pc])
    · intro r h
      by_cases closing : s.shuttingDown <;> simp [closing] at h
    · intro j h
      by_cases closing : s.shuttingDown <;> simp [closing] at h
    · intro h
      by_contra closing
      simp [closing] at h
    · by_cases closing : s.shuttingDown <;> simpa [State.taken, pc, closing] using taken_le
  case takeParameters =>
    obtain ⟨item, success, below⟩ := full pc
    cases step
    refine { l with taking := ?_, index := ?_, reporting := ?_, starting := ?_, alive := ?_,
                    taken_le := ?_ }
    · simp only [OutputPc.setReady.injEq, reduceCtorEq, or_false]
      rintro x rfl
      exact ⟨item, item ▸ success⟩
    · intro _
      exact index (by simp [pc])
    · simp
    · simp
    · simp
    · exact below
  case setReady item =>
    cases step
    refine { l with taking := ?_, index := ?_, reporting := ?_, starting := ?_, alive := ?_,
                    taken_le := ?_ }
    · simp only [State.setThread, OutputPc.output.injEq, reduceCtorEq, false_or]
      rintro x rfl
      exact l.taking _ (.inl pc)
    · intro _
      exact index (by simp [pc])
    · simp [State.setThread]
    · simp [State.setThread]
    · simp [State.setThread]
    · simpa [State.taken, State.setThread, pc] using taken_le
  case output item =>
    obtain ⟨eq, success⟩ := l.taking item (.inr pc)
    have outputs : s.outputs ++ [item] = List.range (s.outputs ++ [item]).length := by
      rw [List.length_append, List.length_singleton, List.range_succ, ← l.outputs, eq]
    have logged : s.outputs ++ [item] ⊆ s.compressed := by
      intro x mem
      rcases List.mem_append.mp mem with old | new
      · exact l.outputs_compressed old
      · exact List.mem_singleton.mp new ▸ success
    have next : advance n s.index = (s.outputs ++ [item]).length % n := by
      rw [index (by simp [pc]), advance_mod pos, List.length_append, List.length_singleton]
    have below : (s.outputs ++ [item]).length ≤ s.submitted := by
      simpa [State.taken, pc] using taken_le
    split at step <;> cases step
    · exact { l with
        outputs
        taking := by simp
        index := fun _ => next
        reporting := by simp
        starting := by simp
        alive := by simp
        taken_le := below
        outputs_compressed := logged }
    · exact { l with
        outputs
        taking := by simp
        index := by simp
        reporting := by
          simp only [OutputPc.reportError.injEq]
          rintro r rfl
          exact ⟨next, ‹_›⟩
        starting := by simp
        alive := by simp
        taken_le := below
        outputs_compressed := logged }
  case reportError r =>
    obtain ⟨next, failure⟩ := l.reporting r pc
    have reported := l.setError failure
    cases step
    exact { reported with
      taking := by simp
      index := fun _ => next
      reporting := by simp
      starting := by simp
      alive := by simp
      taken_le := by simpa [State.taken, State.setError, pc] using taken_le }
  case exited => cases step

theorem Ledger.clientStep (l : Ledger n s) (step : clientStep n s = some s') : Ledger n s' := by
  have pos : 0 < n := by have := l.slot; omega
  have slot := l.slot
  have closing := l.closing
  unfold MultithreadedCompressor.clientStep at step
  cases client : s.client <;> simp only [client] at step slot closing
  case idle | returned => cases step
  case setCompress =>
    cases step
    refine { l with currentIndex := ?_, taken_le := ?_, slot := pos, closing := closing }
    · exact (congrArg _ l.currentIndex).trans (advance_mod pos _)
    · exact Nat.le_succ_of_le l.taken_le
  case storeParameters =>
    cases step
    exact { l with slot := pos, closing := closing }
  case storeShuttingDown =>
    cases step
    exact { l with alive := fun _ => rfl, slot := pos, closing := rfl }
  case waitReady =>
    split at step <;> cases step
    exact { l with slot := pos, closing := closing }
  case joinOutput =>
    split at step <;> cases step
    exact { l with slot := pos, closing := closing }
  case waitAllReady i | waitAllDone i | waitAllOutputReady i | join i =>
    split at step <;> cases step
    refine { l with slot := ?_, closing := ?_ }
    · dsimp only [State.setThread]
      split
      · assumption
      · exact pos
    · dsimp only [State.setThread]
      split <;> exact closing
  case setAllCompress i | setAllOutput i =>
    cases step
    refine { l with slot := ?_, closing := ?_ }
    · dsimp only [State.setThread]
      split
      · assumption
      · exact pos
    · dsimp only [State.setThread]
      split <;> exact closing

end

end Phocoena.DiscIO.MultithreadedCompressor
