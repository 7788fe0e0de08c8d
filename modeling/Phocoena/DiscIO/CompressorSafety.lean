import Phocoena.DiscIO.CompressorRun

/-! # What the compressor does with its items

If compressions fail in order, then in every interleaving the items are output in order, none
after a failed one, and the threads never lock up. A failure behind which an item succeeds
does lock them up.
-/

namespace Phocoena.DiscIO.MultithreadedCompressor

section
variable {n i : Nat} {s s' : State} {result : ConversionResultCode}

/-! ## Shutting down -/

theorem Closing.compressThreadStep (h : Closing n s) (lt : i < n)
    (closing : s.shuttingDown = true) (step : compressThreadStep i result s = some s') :
    Closing n s' := by
  unfold MultithreadedCompressor.compressThreadStep at step
  rcases h.thread i lt with ⟨pc, event⟩ | ⟨told, pc | pc⟩
  · simp only [pc] at step
    split at step <;> cases step
    have told : s.client.toldToExit i = true := event ▸ ‹_›
    refine { h with thread := ?_, outputTold := ?_ }
    · intro j below
      by_cases eq : j = i
      · subst eq
        rw [setThread_self]
        exact .inr ⟨told, .inl rfl⟩
      · rw [setThread_of_ne eq]
        exact h.thread j below
    · intro j below
      by_cases eq : j = i
      · subst eq
        rw [setThread_self]
        exact h.outputTold j below
      · rw [setThread_of_ne eq]
        exact h.outputTold j below
  · simp only [pc, closing, ↓reduceIte] at step
    cases step
    refine { h with thread := ?_, outputTold := ?_ }
    · intro j below
      by_cases eq : j = i
      · subst eq
        rw [setThread_self]
        exact .inr ⟨told, .inr rfl⟩
      · rw [setThread_of_ne eq]
        exact h.thread j below
    · intro j below
      by_cases eq : j = i
      · subst eq
        rw [setThread_self]
        exact h.outputTold j below
      · rw [setThread_of_ne eq]
        exact h.outputTold j below
  · simp only [pc] at step
    cases step

theorem Closing.outputThreadStep (h : Closing n s)
    (closing : s.shuttingDown = true) (step : outputThreadStep n result s = some s') :
    Closing n s' := by
  have complete := h.complete
  have notReturned : s.outputPc ≠ .exited → s.client ≠ .returned := mt h.returned
  unfold MultithreadedCompressor.outputThreadStep at step
  rcases h.outputThread with pc | pc | ⟨item, pc⟩ | ⟨r, pc⟩ | pc <;> simp only [pc] at step
  · split at step <;> cases step
    refine { thread := ?_, outputThread := .inr (.inl rfl), outputTold := ?_, returned := ?_,
             complete := ?_ }
    · intro j below
      by_cases eq : j = s.index
      · subst eq
        rw [setThread_self]
        exact h.thread _ below
      · rw [setThread_of_ne eq]
        exact h.thread j below
    · intro j below told
      by_cases eq : j = s.index
      · exact .inr ⟨eq.symm, .inl rfl⟩
      · rw [setThread_of_ne eq]
        exact .inl ((h.outputTold j below told).resolve_right fun ⟨same, _⟩ => eq same.symm)
    · exact fun returned => absurd returned (notReturned (by simp [pc]))
    · simpa [State.taken, pc, State.setThread] using complete
  · rw [if_pos closing] at step
    cases step
    refine { h with
      outputThread := .inr (.inr (.inr (.inr rfl)))
      outputTold := ?_
      returned := fun _ => rfl
      complete := ?_ }
    · intro j below told
      exact (h.outputTold j below told).imp_right fun ⟨same, _⟩ => ⟨same, .inr rfl⟩
    · simpa [State.taken, pc] using complete
  · have told : ∀ j < n, s.client.toldOutput j = true →
        (s.compressThreads j).outputEvent = true := fun j below told =>
      (h.outputTold j below told).resolve_right (by simp [pc])
    split at step <;> cases step
    · refine { h with outputThread := .inl rfl, outputTold := ?_, returned := ?_, complete := ?_ }
      · exact fun j below t => .inl (told j below t)
      · exact fun returned => absurd returned (notReturned (by simp [pc]))
      · simpa [State.taken, pc] using complete
    · refine { h with
        outputThread := .inr (.inr (.inr (.inl ⟨result, rfl⟩)))
        outputTold := ?_
        returned := ?_
        complete := ?_ }
      · exact fun j below t => .inl (told j below t)
      · exact fun returned => absurd returned (notReturned (by simp [pc]))
      · simpa [State.taken, pc] using complete
  · have told : ∀ j < n, s.client.toldOutput j = true →
        (s.compressThreads j).outputEvent = true := fun j below told =>
      (h.outputTold j below told).resolve_right (by simp [pc])
    cases step
    refine { h with outputThread := .inl rfl, outputTold := ?_, returned := ?_, complete := ?_ }
    · exact fun j below t => .inl (told j below t)
    · exact fun returned => absurd returned (notReturned (by simp [pc]))
    · simpa [State.taken, pc, State.setError] using complete
  · cases step

theorem Closing.clientStep (h : Closing n s) (closing : s.client.closing = true)
    (step : clientStep n s = some s') : Closing n s' := by
  unfold MultithreadedCompressor.clientStep at step
  have thread := h.thread
  have outputTold := h.outputTold
  cases client : s.client <;>
    simp only [client] at step closing thread outputTold
  case setAllCompress i =>
    have told : ∀ j < n, (if i + 1 < n then ClientPc.setAllCompress (i + 1)
        else .setAllOutput 0).toldToExit j = decide (j < i + 1) := by
      intro j below
      split
      · rfl
      · exact (decide_eq_true (by omega)).symm
    have untold : ∀ j < n, (if i + 1 < n then ClientPc.setAllCompress (i + 1)
        else .setAllOutput 0).toldOutput j = false := by
      intro j _
      split
      · rfl
      · exact decide_eq_false (Nat.not_lt_zero j)
    cases step
    refine { h with thread := ?_, outputTold := ?_, returned := ?_ }
    · intro j below
      rw [setThread_client, told j below]
      by_cases eq : j = i
      · subst eq
        rw [setThread_self]
        rcases thread j below with ⟨pc, -⟩ | ⟨already, -⟩
        · exact .inl ⟨pc, (decide_eq_true (Nat.lt_succ_self j)).symm⟩
        · exact absurd (of_decide_eq_true already) (Nat.lt_irrefl j)
      · rw [setThread_of_ne eq]
        have same : j < i + 1 ↔ j < i := by omega
        rw [decide_eq_decide.mpr same]
        exact thread j below
    · intro j below already
      exact absurd already (by simp [State.setThread, untold j below])
    · intro returned
      simp only [State.setThread] at returned
      split at returned <;> cases returned
  case setAllOutput i =>
    cases step
    refine { h with thread := ?_, outputTold := ?_, returned := ?_ }
    · intro j below
      have told : (if i + 1 < n then ClientPc.setAllOutput (i + 1) else .join 0).toldToExit j =
          true := by split <;> rfl
      rw [setThread_client, told]
      by_cases eq : j = i
      · subst eq
        rw [setThread_self]
        exact thread j below
      · rw [setThread_of_ne eq]
        exact thread j below
    · intro j below told
      by_cases eq : j = i
      · subst eq
        rw [setThread_self]
        exact .inl rfl
      · rw [setThread_of_ne eq]
        refine outputTold j below (decide_eq_true ?_)
        simp only [State.setThread] at told
        split at told
        · have := of_decide_eq_true told
          omega
        · omega
    · intro returned
      simp only [State.setThread] at returned
      split at returned <;> cases returned
  case join i =>
    split at step <;> cases step
    refine { h with thread := ?_, outputTold := ?_, returned := ?_ }
    · intro j below
      have told : (if i + 1 < n then ClientPc.join (i + 1) else .joinOutput).toldToExit j =
          true := by split <;> rfl
      rw [told]
      exact thread j below
    · exact fun j below _ => outputTold j below rfl
    · intro returned
      split at returned <;> cases returned
  case joinOutput =>
    split at step <;> cases step
    exact { h with
      thread := thread
      outputTold := outputTold
      returned := fun _ => ‹_› }
  case returned => cases step
  all_goals cases closing

/-- All events are collected when `Shutdown` sets its flag, so nobody has an item. -/
theorem Running.closing (h : Running n s) (l : Ledger n s) (client : s.client = .storeShuttingDown) :
    Closing n { s with shuttingDown := true, client := .setAllCompress 0 } := by
  have pos : 0 < n := by have := l.slot; omega
  have collected : ∀ j < n, (s.compressThreads j).pc = .waitCompress ∧
      (s.compressThreads j).compressEvent = false ∧ (s.compressThreads j).outputEvent = false ∧
        s.outputPc.has s.index j = 0 := by
    intro j below
    obtain ⟨next, slot⟩ := h j below
    have ready := slot.ready
    have done := slot.done
    have output := slot.output
    simp only [State.view, client, ClientPc.has, ClientPc.consumedDone,
      ClientPc.consumedOutput] at ready done output
    refine ⟨?_, ?_, ?_, by omega⟩
    · cases pc : (s.compressThreads j).pc <;>
        simp [pc, CompressPc.hasParameters, CompressPc.isDone] at ready done ⊢
    · cases event : (s.compressThreads j).compressEvent with
      | false => rfl
      | true => simp [event] at ready
    · cases event : (s.compressThreads j).outputEvent with
      | false => rfl
      | true => simp [event] at output; omega
  have indexed : (∀ r, s.outputPc ≠ .reportError r) → s.index < n := by
    intro notReporting
    rw [l.index notReporting]
    exact Nat.mod_lt _ pos
  refine { thread := ?_, outputThread := ?_, outputTold := ?_, returned := ?_, complete := ?_ }
  · intro j below
    obtain ⟨pc, event, -⟩ := collected j below
    exact .inl ⟨pc, event.trans (decide_eq_false (Nat.not_lt_zero j)).symm⟩
  · cases pc : s.outputPc
    case start k =>
      obtain ⟨-, -, -, has⟩ := collected k (l.starting k pc)
      simp [pc, OutputPc.has] at has
    case checkShuttingDown | takeParameters | setReady =>
      obtain ⟨-, -, -, has⟩ := collected s.index (indexed (by simp [pc]))
      simp [pc, OutputPc.has] at has
    all_goals simp
  · intro j _ told
    cases told
  · intro returned
    cases returned
  · intro unfailed
    -- the next item of every slot is the same for the client and for the output thread
    have level : ∀ j < n, nextItem n s.submitted j = nextItem n s.taken j := by
      intro j below
      obtain ⟨pc, event, outputEvent, has⟩ := collected j below
      obtain ⟨next, slot⟩ := h j below
      have position := slot.position
      simp only [event, pc, CompressPc.woken, CompressPc.busy, Bool.toNat_false, Nat.add_zero,
        Nat.mul_zero] at position
      have woken : (s.view n j).outputWoken = 0 :=
        Nat.le_zero.mp (has ▸ OutputPc.woken_le_has s.index j s.outputPc)
      have due : (s.view n j).due n (s.compressThreads j) = (s.view n j).nextTaken := by
        simp [SlotView.due, woken, outputEvent]
      have lossless : (s.view n j).failed = [] := unfailed
      rcases slot.progress with eq | ⟨lost, -⟩
      · exact position.symm.trans (eq.trans due)
      · simp [lossless] at lost
    have first := level _ (Nat.mod_lt s.taken pos)
    have second := level _ (Nat.mod_lt s.submitted pos)
    have low := (nextItem_range (m := s.submitted) (Nat.mod_lt s.taken pos)).1
    rw [nextItem_turn pos] at first second
    exact Nat.le_antisymm l.taken_le (first ▸ low)

/-! ## The invariant of all runs -/

theorem invariant_initialState (pos : 0 < n) : Invariant n initialState where
  ledger := {
    outputs := rfl
    taking := by simp [initialState]
    index := fun _ => (Nat.zero_mod n).symm
    reporting := by simp [initialState]
    starting := by simp [initialState, pos]
    alive := by simp [initialState]
    currentIndex := (Nat.zero_mod n).symm
    taken_le := Nat.le_refl 0
    outputs_compressed := fun _ => id
    separated := by simp [initialState]
    result := rfl
    errors := by simp [initialState]
    refused := fun _ => rfl
    slot := pos
    closing := rfl }
  running := fun _ i lt => by
    refine ⟨i, ?_⟩
    constructor <;> simp [initialState, initialThread, State.view, State.taken, ClientPc.has,
      ClientPc.consumedDone, ClientPc.consumedOutput, OutputPc.has, OutputPc.woken,
      CompressPc.hasParameters, CompressPc.isDone, CompressPc.hasOutput, CompressPc.woken,
      CompressPc.busy, CompressPc.delivering, SlotView.due, nextItem]
  closing := fun closed => absurd closed Bool.false_ne_true

/-- The output thread takes the next item in order, and its compression succeeded. -/
theorem Running.takeParameters (h : Running n s) (l : Ledger n s)
    (pc : s.outputPc = .takeParameters) :
    (s.compressThreads s.index).outputParameters = s.outputs.length ∧
      s.outputs.length ∈ s.compressed ∧ s.outputs.length < s.submitted := by
  have pos : 0 < n := by have := l.slot; omega
  have index : s.index = s.outputs.length % n := l.index (by simp [pc])
  have below : s.index < n := index ▸ Nat.mod_lt _ pos
  obtain ⟨next, slot⟩ := h s.index below
  have woken : (s.view n s.index).outputWoken = 1 := by simp [State.view, pc, OutputPc.woken]
  have turn : (s.view n s.index).nextTaken = s.outputs.length := by
    simp [State.view, State.taken, pc, index, nextItem_turn pos]
  obtain ⟨item, success⟩ := slot.delivered (.inr woken)
  rw [turn] at item success
  refine ⟨item, success, ?_⟩
  have due : (s.view n s.index).due n (s.compressThreads s.index) = s.outputs.length + n := by
    rw [SlotView.due, if_pos (.inr woken), turn]
  have reached : s.outputs.length + n ≤ next := by
    rcases slot.progress with eq | ⟨-, lt, -⟩ <;> omega
  have position : next ≤ nextItem n s.submitted s.index :=
    (Nat.le_add_right _ _).trans slot.position.le
  have := (nextItem_range (m := s.submitted) below).2
  omega

theorem outputThreadStep_client (step : outputThreadStep n result s = some s') :
    s'.client = s.client := by
  unfold outputThreadStep at step
  cases pc : s.outputPc <;> simp only [pc] at step
  case waitOutput | output =>
    split at step <;> cases step <;> rfl
  case exited => cases step
  all_goals cases step; rfl

theorem clientStep_shuttingDown (notLast : s.client ≠ .storeShuttingDown)
    (step : clientStep n s = some s') : s'.shuttingDown = s.shuttingDown := by
  unfold clientStep at step
  cases client : s.client <;> simp only [client] at step notLast
  case idle | returned => cases step
  case storeParameters | setCompress | setAllCompress | setAllOutput => cases step; rfl
  case storeShuttingDown => exact absurd rfl notLast
  all_goals split at step <;> cases step; rfl

theorem Invariant.step {a : Action} (h : Invariant n s) (ok : InOrder a s)
    (step : step n a s = some s') : Invariant n s' := by
  obtain ⟨l, running, closing⟩ := h
  have pos : 0 < n := by have := l.slot; omega
  have active : s.client = .idle → Running n s := fun idle => running (by rw [idle]; rfl)
  have notClosing : s.client = .idle → ¬ s.client.closing = true := fun idle => by
    rw [idle]
    exact Bool.false_ne_true
  have shut : s.shuttingDown = false ∨ s.shuttingDown = true := by cases s.shuttingDown <;> simp
  cases a with
  | compressAndWrite =>
      simp only [MultithreadedCompressor.step] at step
      split at step
      · have idle : s.client = .idle := ‹_›
        split at step <;> cases step
        · refine ⟨{ l with slot := pos, closing := ?_ }, fun _ => (active idle).same rfl fun j _ => ?_,
            fun closed => absurd closed Bool.false_ne_true⟩
          · exact l.closing.trans (by rw [idle]; rfl)
          · simp [State.view, State.taken, idle, ClientPc.has, ClientPc.consumedDone,
              ClientPc.consumedOutput]
        · refine ⟨{ l with refused := ?_ }, fun _ => (active idle).same rfl fun j _ => rfl,
            fun closed => absurd closed (notClosing idle)⟩
          intro none
          have result := l.result
          rw [none] at result
          exact absurd result ‹_›
      · cases step
  | setError result =>
      simp only [MultithreadedCompressor.step] at step
      split at step <;> cases step
      obtain ⟨idle, failure⟩ : s.client = .idle ∧ result ≠ .success := ‹_›
      exact ⟨l.setError failure, fun _ => (active idle).same rfl fun j _ => rfl,
        fun closed => absurd closed (notClosing idle)⟩
  | shutdown =>
      simp only [MultithreadedCompressor.step] at step
      split at step <;> cases step
      have idle : s.client = .idle := ‹_›
      refine ⟨{ l with slot := pos, closing := ?_ }, fun _ => (active idle).same rfl fun j _ => ?_,
        fun closed => absurd closed Bool.false_ne_true⟩
      · exact l.closing.trans (by rw [idle]; rfl)
      · simp [State.view, State.taken, idle, ClientPc.has, ClientPc.consumedDone,
          ClientPc.consumedOutput]
  | client =>
      have l' := l.clientStep step
      by_cases last : s.client = .storeShuttingDown
      · have active := (running (by rw [last]; rfl)).closing l last
        simp only [MultithreadedCompressor.step, clientStep, last] at step
        cases step
        exact ⟨l', fun still => absurd still.symm Bool.false_ne_true, fun _ => active⟩
      · have same : s'.client.closing = s.client.closing := by
          rw [← l'.closing, ← l.closing, clientStep_shuttingDown last step]
        refine ⟨l', fun still => ?_, fun closed => ?_⟩
        · rw [same] at still
          exact (running still).clientStep l still last step
        · rw [same] at closed
          exact (closing closed).clientStep closed step
  | compressThread i result =>
      simp only [MultithreadedCompressor.step] at step
      split at step
      · have lt : i < n := ‹_›
        have same : s'.client = s.client := by
          obtain ⟨t, rfl | ⟨_, _, rfl⟩ | ⟨_, _, _, rfl⟩ | ⟨_, _, _, rfl⟩⟩ :=
            compressThreadStep_cases step <;> rfl
        rcases shut with off | on
        · have active := running (l.closing.symm.trans off)
          obtain ⟨next, slot⟩ := active i lt
          refine ⟨l.compressThreadStep ok slot.reported step,
            fun _ => active.compressThreadStep lt off ok step, fun closed => ?_⟩
          rw [same, ← l.closing, off] at closed
          cases closed
        · have ending := closing (l.closing.symm.trans on)
          refine ⟨l.compressThreadStep ok (fun r pc => ?_) step, fun still => ?_,
            fun _ => ending.compressThreadStep lt on step⟩
          · rcases ending.thread i lt with ⟨waits, -⟩ | ⟨-, waits | waits⟩ <;> simp [waits] at pc
          · rw [same, ← l.closing, on] at still
            cases still
      · cases step
  | outputThread result =>
      have same := outputThreadStep_client step
      rcases shut with off | on
      · have active := running (l.closing.symm.trans off)
        refine ⟨l.outputThreadStep (active.takeParameters l) step,
          fun _ => active.outputThreadStep l off step, fun closed => ?_⟩
        rw [same, ← l.closing, off] at closed
        cases closed
      · have ending := closing (l.closing.symm.trans on)
        refine ⟨l.outputThreadStep (fun pc => ?_) step, fun still => ?_,
          fun _ => ending.outputThreadStep on step⟩
        · rcases ending.outputThread with h | h | ⟨_, h⟩ | ⟨_, h⟩ | h <;> simp [h] at pc
        · rw [same, ← l.closing, on] at still
          cases still

/-! ## No deadlock -/

theorem compressThreadStep_blocked (blocked : compressThreadStep i result s = none) :
    (s.compressThreads i).pc = .waitCompress ∧ (s.compressThreads i).compressEvent = false ∨
    (∃ item, (s.compressThreads i).pc = .waitOutputReady item ∧
      (s.compressThreads i).outputReadyEvent = false) ∨ (s.compressThreads i).pc = .exited := by
  unfold compressThreadStep at blocked
  cases pc : (s.compressThreads i).pc <;> simp only [pc, reduceCtorEq] at blocked
  case waitCompress => exact .inl ⟨rfl, by simpa using blocked⟩
  case waitOutputReady item => exact .inr (.inl ⟨item, rfl, by simpa using blocked⟩)
  case compress => split at blocked <;> cases blocked
  case exited => exact .inr (.inr rfl)

theorem outputThreadStep_blocked (blocked : outputThreadStep n result s = none) :
    s.outputPc = .waitOutput ∧ (s.compressThreads s.index).outputEvent = false ∨
      s.outputPc = .exited := by
  unfold outputThreadStep at blocked
  cases pc : s.outputPc <;> simp only [pc, reduceCtorEq] at blocked
  case waitOutput => exact .inl ⟨rfl, by simpa using blocked⟩
  case output => split at blocked <;> cases blocked
  case exited => exact .inr rfl

/-- Nobody else can take a step either when a thread waits to deliver its item. -/
theorem Slot.not_delivering {next : Nat} {t : CompressThread} (slot : Slot n (s.view n i) t next)
    (waiting : s.outputPc = .waitOutput) (event : t.outputEvent = false) {item : Nat}
    (pc : t.pc = .waitOutputReady item) : t.outputReadyEvent = true := by
  cases ready : t.outputReadyEvent with
  | true => rfl
  | false =>
      have output := slot.output
      have done := slot.done
      have le := s.client.consumedOutput_le_consumedDone i
      simp only [State.view, waiting, OutputPc.has, pc, CompressPc.hasOutput, CompressPc.isDone,
        ready, event, Bool.toNat_false] at output done
      omega

section
variable (h : Running n s) (l : Ledger n s) (blocked : ∀ i < n,
  MultithreadedCompressor.compressThreadStep i .success s = none) (waiting : s.outputPc = .waitOutput)
  (empty : (s.compressThreads s.index).outputEvent = false)

include h l blocked waiting empty

/-- No slot holds an item for an output thread that waits for another slot. -/
theorem Running.nothing_delivered (lt : i < n) : (s.compressThreads i).outputEvent = false := by
  have pos : 0 < n := Nat.zero_lt_of_lt lt
  cases event : (s.compressThreads i).outputEvent with
  | false => rfl
  | true =>
      have index : s.index = s.outputs.length % n := l.index (by simp [waiting])
      have taken : s.taken = s.outputs.length := by simp [State.taken, waiting]
      have apart : i ≠ s.outputs.length % n := by
        rintro rfl
        rw [← index, empty] at event
        cases event
      -- the item in slot `i` comes after the one the output thread waits for
      obtain ⟨next, slot⟩ := h i lt
      have success := (slot.delivered (.inl event)).2
      have due : (s.view n i).due n (s.compressThreads i) = (s.view n i).nextTaken + n :=
        if_pos (.inl event)
      have reached : (s.view n i).nextTaken + n ≤ next := by
        rcases slot.progress with eq | ⟨-, below, -⟩ <;> omega
      have position : next ≤ nextItem n s.submitted i :=
        (Nat.le_add_right _ _).trans slot.position.le
      have low := (nextItem_range (m := s.outputs.length) lt).1
      have high := (nextItem_range (m := s.submitted) lt).2
      have view : (s.view n i).nextTaken = nextItem n s.outputs.length i := by
        simp [State.view, taken]
      have later : s.outputs.length < nextItem n s.outputs.length i := by
        refine Nat.lt_of_le_of_ne low fun eq => apart ?_
        rw [← nextItem_mod (m := s.outputs.length) lt, ← eq]
      -- which was submitted and not lost, so its thread can take a step
      have below : s.index < n := index ▸ Nat.mod_lt _ pos
      obtain ⟨first, head⟩ := h s.index below
      have woken : (s.view n s.index).outputWoken = 0 := by
        simp [State.view, waiting, OutputPc.woken]
      have turn : (s.view n s.index).due n (s.compressThreads s.index) = s.outputs.length := by
        rw [SlotView.due, if_neg (by simp [empty, woken])]
        simp [State.view, taken, index, nextItem_turn pos]
      have firstItem : first = s.outputs.length := by
        rcases head.progress with eq | ⟨lost, -⟩
        · exact eq.trans turn
        · rw [turn] at lost
          have := l.separated _ lost _ success
          omega
      have behind := (nextItem_range (m := s.submitted) below).1
      have headPosition : first + n * ((s.compressThreads s.index).compressEvent.toNat +
        (s.compressThreads s.index).pc.woken + (s.compressThreads s.index).pc.busy) =
          nextItem n s.submitted s.index := head.position
      rcases compressThreadStep_blocked (blocked s.index below) with
        ⟨pc, idle⟩ | ⟨item, pc, notReady⟩ | pc
      · simp only [idle, pc, CompressPc.woken, CompressPc.busy, Bool.toNat_false, Nat.add_zero,
          Nat.mul_zero] at headPosition
        omega
      · rw [head.not_delivering waiting empty pc] at notReady
        cases notReady
      · exact absurd pc head.alive

theorem Running.all_wait (lt : i < n) : (s.compressThreads i).pc = .waitCompress ∧
    (s.compressThreads i).compressEvent = false := by
  obtain ⟨next, slot⟩ := h i lt
  have event := h.nothing_delivered l blocked waiting empty lt
  rcases compressThreadStep_blocked (blocked i lt) with idle | ⟨item, pc, notReady⟩ | pc
  · exact idle
  · rw [slot.not_delivering waiting event pc] at notReady
    cases notReady
  · exact absurd pc slot.alive

end

theorem Running.not_stuck (h : Running n s) (l : Ledger n s) (off : s.shuttingDown = false) :
    ¬ Stuck (step n) s := by
  intro stuck
  have pos : 0 < n := by have := l.slot; omega
  have blocked : ∀ i < n, MultithreadedCompressor.compressThreadStep i .success s = none := by
    intro i lt
    have := stuck (.compressThread i .success)
    rwa [step, if_pos lt] at this
  obtain ⟨waiting, empty⟩ : s.outputPc = .waitOutput ∧
      (s.compressThreads s.index).outputEvent = false := by
    rcases outputThreadStep_blocked (stuck (.outputThread .success)) with waits | exited
    · exact waits
    · rw [l.alive exited] at off
      cases off
  have free : ∀ i < n, (s.compressThreads i).compressReadyEvent.toNat +
      s.client.has s.currentIndex i = 1 ∧
      (s.compressThreads i).compressDoneEvent.toNat + s.client.consumedDone i = 1 ∧
      (s.compressThreads i).outputReadyEvent.toNat + s.client.consumedOutput i = 1 := by
    intro i lt
    obtain ⟨next, slot⟩ := h i lt
    have event := h.nothing_delivered l blocked waiting empty lt
    obtain ⟨pc, idle⟩ := h.all_wait l blocked waiting empty lt
    have ready := slot.ready
    have done := slot.done
    have output := slot.output
    simp only [State.view, pc, idle, event, waiting, CompressPc.hasParameters, CompressPc.isDone,
      CompressPc.hasOutput, OutputPc.has, Bool.toNat_false] at ready done output
    omega
  have slot := l.slot
  have client := stuck .client
  have closed := l.closing
  simp only [step, MultithreadedCompressor.clientStep] at client
  cases pc : s.client <;> simp only [pc, reduceCtorEq] at client slot closed
  case idle =>
    have call := stuck .compressAndWrite
    simp only [step, pc, if_true] at call
    split at call <;> cases call
  case waitReady =>
    obtain ⟨ready, -⟩ := free s.currentIndex (l.currentIndex ▸ Nat.mod_lt _ pos)
    simp only [pc, ClientPc.has, Nat.add_zero, Bool.toNat_eq_one] at ready
    simp [ready] at client
  case waitAllReady i =>
    obtain ⟨ready, -⟩ := free i slot
    simp only [pc, ClientPc.has, Nat.lt_irrefl, if_false, Nat.add_zero, Bool.toNat_eq_one] at ready
    simp [ready] at client
  case waitAllDone i =>
    obtain ⟨-, done, -⟩ := free i slot
    simp only [pc, ClientPc.consumedDone, Nat.lt_irrefl, if_false, Nat.add_zero,
      Bool.toNat_eq_one] at done
    simp [done] at client
  case waitAllOutputReady i =>
    obtain ⟨-, -, output⟩ := free i slot
    simp only [pc, ClientPc.consumedOutput, Nat.lt_irrefl, if_false, Nat.add_zero,
      Bool.toNat_eq_one] at output
    simp [output] at client
  all_goals
    rw [off] at closed
    cases closed

theorem Closing.not_stuck (h : Closing n s) (l : Ledger n s) (on : s.shuttingDown = true)
    (waiting : s.client ≠ .returned) : ¬ Stuck (step n) s := by
  intro stuck
  have pos : 0 < n := by have := l.slot; omega
  have slot := l.slot
  have closed := l.closing.symm.trans on
  have thread := h.thread
  have outputTold := h.outputTold
  have client := stuck .client
  simp only [step, MultithreadedCompressor.clientStep] at client
  cases pc : s.client <;>
    simp only [pc, reduceCtorEq, ne_eq] at client slot waiting thread outputTold closed
  case join i =>
    have slot : i < n := slot
    have blocked := stuck (.compressThread i .success)
    rw [step, if_pos slot] at blocked
    rcases compressThreadStep_blocked blocked with ⟨idle, event⟩ | ⟨item, idle, -⟩ | exited
    · rcases thread i slot with ⟨-, told⟩ | ⟨-, other | other⟩
      · rw [event] at told
        cases told
      · simp [idle] at other
      · simp [idle] at other
    · rcases thread i slot with ⟨other, -⟩ | ⟨-, other | other⟩ <;> simp [idle] at other
    · simp [exited] at client
  case joinOutput =>
    rcases outputThreadStep_blocked (stuck (.outputThread .success)) with ⟨idle, event⟩ | exited
    · have below : s.index < n := by
        rw [l.index (by simp [idle])]
        exact Nat.mod_lt _ pos
      rcases outputTold s.index below rfl with told | ⟨-, other | other⟩
      · rw [event] at told
        cases told
      · simp [idle] at other
      · simp [idle] at other
    · simp [exited] at client
  case returned => exact waiting trivial
  all_goals cases closed

/-! ## The service the compressor gives -/

/-- What a client may rely on in every state. -/
structure Behaves (n : Nat) (s : State) : Prop where
  /-- Items are output at most once and in the order they were submitted in. -/
  inOrder : s.outputs.Pairwise (· < ·) ∧ ∀ item ∈ s.outputs, item < s.submitted
  /-- If nothing failed, all items have been output when `Shutdown` returns. -/
  complete : s.client = .returned → s.failed = [] → s.errors = [] →
    s.outputs = List.range s.submitted ∧ s.refused = 0
  /-- No item is output after one whose compression failed. -/
  stops : ∀ k ∈ s.failed, ∀ item ∈ s.outputs, ¬ k < item
  /-- The status is the first error that was reported. -/
  status : s.result = s.errors.headD .success
  /-- Until `Shutdown` returns, something can happen. -/
  progress : s.client ≠ .returned → ¬ Stuck (step n) s

theorem Invariant.behaves (h : Invariant n s) : Behaves n s := by
  obtain ⟨l, running, closing⟩ := h
  have bound : s.outputs.length ≤ s.submitted := by
    have := l.taken_le
    unfold State.taken at this
    split at this <;> omega
  refine ⟨⟨?_, ?_⟩, ?_, ?_, l.result, ?_⟩
  · rw [l.outputs]
    exact List.pairwise_lt_range
  · intro item mem
    rw [l.outputs, List.mem_range] at mem
    omega
  · intro returned unfailed none
    have ending := closing (by rw [returned]; rfl)
    have all := ending.complete unfailed
    rw [State.taken, ending.returned returned] at all
    exact ⟨l.outputs.trans (congrArg _ all), l.refused none⟩
  · intro k failed item mem
    exact Nat.not_lt.mpr (l.separated k failed item (l.outputs_compressed mem))
  · intro waiting
    cases flag : s.shuttingDown with
    | false => exact (running (l.closing.symm.trans flag)).not_stuck l flag
    | true => exact (closing (l.closing.symm.trans flag)).not_stuck l flag waiting

/-- In every run in which compressions fail in order. -/
theorem compressor_behaves_of_inOrder (pos : 0 < n)
    (run : Reaches (step n) InOrder initialState s) : Behaves n s :=
  (run.invariant (invariant_initialState pos) fun _ _ _ h ok next => h.step ok next).behaves

end

/-- A compression thread that cannot be set up, whose error the client finds. -/
theorem compressor_behaves_setUp_fails :
    Behaves 1 { initialState with
      compressThreads := Function.update (Function.update (fun _ => initialThread) 0
        { initialThread with pc := .reportSetUp .internalError }) 0
          { initialThread with pc := .startReady }
      result := .internalError
      errors := [.internalError]
      refused := 1 } := by
  refine compressor_behaves_of_inOrder (by decide) (.tail (a := .compressAndWrite) (.tail
    (a := .compressThread 0 .success) (.tail (a := .compressThread 0 .internalError) .refl
      ?_ rfl) ?_ rfl) trivial rfl)
  · intro item pc
    cases pc
  · intro item pc
    cases pc

/-- Both threads and the output thread are started, and two items are submitted. -/
def twoItems : List Action :=
  List.replicate 3 (Action.compressThread 0 .success) ++
    List.replicate 3 (Action.compressThread 1 .success) ++
    List.replicate 2 (Action.outputThread .success) ++
      Action.compressAndWrite :: List.replicate 3 Action.client ++
        Action.compressAndWrite :: List.replicate 3 Action.client

/-- The first item fails, the second one is delivered, and the client shuts down. -/
def lockUp : List Action :=
  twoItems ++ List.replicate 5 (Action.compressThread 0 .success) ++
    Action.compressThread 0 .internalError ::
      List.replicate 2 (Action.compressThread 0 .success) ++
      List.replicate 10 (Action.compressThread 1 .success) ++
      Action.shutdown :: List.replicate 5 Action.client

/-- A third item is submitted before the first one fails, and takes its place. -/
def overtake : List Action :=
  twoItems ++ List.replicate 5 (Action.compressThread 0 .success) ++
    Action.compressAndWrite :: List.replicate 3 Action.client ++
      Action.compressThread 0 .internalError ::
        List.replicate 12 (Action.compressThread 0 .success) ++
        List.replicate 10 (Action.compressThread 1 .success) ++
        List.replicate 10 (Action.outputThread .success)

def finalState (as : List Action) : State := (runActions (step 2) as initialState).getD initialState

theorem runActions_eq_finalState {as : List Action}
    (possible : (runActions (step 2) as initialState).isSome = true) :
    runActions (step 2) as initialState = some (finalState as) := by
  obtain ⟨s, eq⟩ := Option.isSome_iff_exists.mp possible
  rw [finalState, eq, Option.getD_some]

/-- Everybody waits: the client for a slot whose item the output thread does not come to. -/
theorem stuck_lockUp : Stuck (step 2) (finalState lockUp) := by
  have client : (finalState lockUp).client = .waitAllOutputReady 1 := by decide +kernel
  have full : ((finalState lockUp).compressThreads 1).outputReadyEvent = false := by
    decide +kernel
  have output : (finalState lockUp).outputPc = .waitOutput := by decide +kernel
  have empty : ((finalState lockUp).compressThreads (finalState lockUp).index).outputEvent =
      false := by decide +kernel
  have threads : ∀ i < 2, ((finalState lockUp).compressThreads i).pc = .waitCompress ∧
      ((finalState lockUp).compressThreads i).compressEvent = false := by decide +kernel
  intro a
  cases a with
  | compressAndWrite | setError result | shutdown => simp [step, client]
  | client => simp [step, clientStep, client, full]
  | outputThread result => simp [step, outputThreadStep, output, empty]
  | compressThread i result =>
      by_cases lt : i < 2
      · obtain ⟨pc, event⟩ := threads i lt
        simp [step, compressThreadStep, lt, pc, event]
      · exact if_neg lt

theorem compressor_not_always_behaves :
    (∃ s, runActions (step 2) lockUp initialState = some s ∧
      s.client = .waitAllOutputReady 1 ∧ Stuck (step 2) s) ∧
    ∃ s, runActions (step 2) overtake initialState = some s ∧ s.failed = [0] ∧
      s.outputs = [2, 1] :=
  ⟨⟨_, runActions_eq_finalState (by decide +kernel), by decide +kernel, stuck_lockUp⟩,
    _, runActions_eq_finalState (by decide +kernel), by decide +kernel, by decide +kernel⟩

end Phocoena.DiscIO.MultithreadedCompressor
