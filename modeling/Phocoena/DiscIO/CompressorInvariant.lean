import Phocoena.DiscIO.MultithreadedCompressor
import Phocoena.Lib.RoundRobin
import Mathlib.Data.List.Basic

/-! # The hand-over of slots

Each slot has three baton rules. Its parameters belong to exactly one of the thread, the
client, the event that is set, or a finished `Shutdown`; so do its output parameters; and the
done event tells whether the thread is between two items.
-/

namespace Phocoena.DiscIO.MultithreadedCompressor

/-! ## Who has a slot -/

namespace CompressPc

/-- The thread has the slot's parameters. -/
def hasParameters : CompressPc → Nat
  | .setUp | .reportSetUp _ | .startReady | .checkShuttingDown | .takeParameters | .resetDone _
  | .setReady _ => 1
  | _ => 0

/-- The thread was woken for an item and has not taken it. -/
def woken : CompressPc → Nat
  | .checkShuttingDown | .takeParameters => 1
  | _ => 0

/-- The done event is set unless `Shutdown` has consumed it. -/
def isDone : CompressPc → Nat
  | .waitCompress | .checkShuttingDown | .takeParameters | .resetDone _ => 1
  | _ => 0

/-- The thread has an item that it has neither delivered nor failed. -/
def busy : CompressPc → Nat
  | .resetDone _ | .setReady _ | .compress _ | .waitOutputReady _ | .storeOutput _ | .setOutput => 1
  | _ => 0

/-- The thread has the slot's output parameters. -/
def hasOutput : CompressPc → Nat
  | .storeOutput _ | .setOutput => 1
  | _ => 0

/-- The compression of the thread's item succeeded. -/
def delivering : CompressPc → Nat
  | .waitOutputReady _ | .storeOutput _ | .setOutput => 1
  | _ => 0

theorem woken_le_hasParameters (pc : CompressPc) : pc.woken ≤ pc.hasParameters := by
  cases pc <;> simp [woken, hasParameters]

theorem isDone_le (pc : CompressPc) : pc.isDone ≤ 1 := by
  cases pc <;> simp [isDone]

end CompressPc

namespace ClientPc

/-- The client has the parameters of slot `i`. -/
def has (currentIndex i : Nat) : ClientPc → Nat
  | .idle | .waitReady => 0
  | .storeParameters | .setCompress => if currentIndex = i then 1 else 0
  | .waitAllReady k => if i < k then 1 else 0
  | _ => 1

/-- `Shutdown` has waited for the done event of slot `i`. -/
def consumedDone (i : Nat) : ClientPc → Nat
  | .idle | .waitReady | .storeParameters | .setCompress | .waitAllReady _ => 0
  | .waitAllDone k => if i < k then 1 else 0
  | _ => 1

/-- `Shutdown` has waited for the output ready event of slot `i`. -/
def consumedOutput (i : Nat) : ClientPc → Nat
  | .waitAllOutputReady k => if i < k then 1 else 0
  | .storeShuttingDown => 1
  | _ => 0

theorem consumedOutput_le_consumedDone (i : Nat) (pc : ClientPc) :
    pc.consumedOutput i ≤ pc.consumedDone i := by
  cases pc with
  | waitAllOutputReady k =>
      simp only [consumedOutput, consumedDone]
      split <;> omega
  | _ => simp [consumedOutput, consumedDone]

end ClientPc

namespace OutputPc

/-- The output thread has the output parameters of slot `i`. -/
def has (index i : Nat) : OutputPc → Nat
  | .start k => if k ≤ i then 1 else 0
  | .checkShuttingDown | .takeParameters | .setReady _ => if index = i then 1 else 0
  | _ => 0

/-- The output thread was woken for slot `i` and has not taken its item. -/
def woken (index i : Nat) : OutputPc → Nat
  | .checkShuttingDown | .takeParameters => if index = i then 1 else 0
  | _ => 0

theorem woken_le_has (index i : Nat) (pc : OutputPc) : pc.woken index i ≤ pc.has index i := by
  cases pc <;> simp [woken, has]

end OutputPc

/-- What the rest of the system does with one slot. -/
structure SlotView where
  /-- The client has the parameters. -/
  clientHas : Nat
  /-- The client has stored its item in the parameters. -/
  stored : Bool
  /-- `Shutdown` has waited for the done event. -/
  doneConsumed : Nat
  /-- The output thread or `Shutdown` has the output parameters. -/
  outputHas : Nat
  /-- The output thread was woken for the slot and has not taken its item. -/
  outputWoken : Nat
  /-- The next item that will be submitted to the slot. -/
  nextSubmitted : Nat
  /-- The next item that the output thread will take from the slot. -/
  nextTaken : Nat
  compressed : List Nat
  failed : List Nat

namespace State

/-- The items the output thread has taken. -/
def taken (s : State) : Nat :=
  match s.outputPc with
  | .setReady _ | .output _ => s.outputs.length + 1
  | _ => s.outputs.length

/-- What happens around slot `i`. -/
def view (n : Nat) (s : State) (i : Nat) : SlotView where
  clientHas := s.client.has s.currentIndex i
  stored := s.client = .setCompress ∧ s.currentIndex = i
  doneConsumed := s.client.consumedDone i
  outputHas := s.outputPc.has s.index i + s.client.consumedOutput i
  outputWoken := s.outputPc.woken s.index i
  nextSubmitted := nextItem n s.submitted i
  nextTaken := nextItem n s.taken i
  compressed := s.compressed
  failed := s.failed

end State

namespace SlotView

/-- The next item the slot delivers unless one fails. -/
def due (n : Nat) (e : SlotView) (t : CompressThread) : Nat :=
  if t.outputEvent ∨ e.outputWoken = 1 then e.nextTaken + n else e.nextTaken

end SlotView

/-- A slot whose thread is at its item `next`. -/
structure Slot (n : Nat) (e : SlotView) (t : CompressThread) (next : Nat) : Prop where
  ready : t.pc.hasParameters + t.compressReadyEvent.toNat + t.compressEvent.toNat +
    e.clientHas = 1
  done : t.compressDoneEvent.toNat + e.doneConsumed = t.pc.isDone
  output : t.pc.hasOutput + t.outputReadyEvent.toNat + t.outputEvent.toNat + e.outputHas = 1
  consumed_le : e.doneConsumed ≤ e.clientHas
  woken_le : e.outputWoken ≤ e.outputHas
  position : next + n * (t.compressEvent.toNat + t.pc.woken + t.pc.busy) = e.nextSubmitted
  item : ∀ item, (t.pc = .resetDone item ∨ t.pc = .setReady item ∨ t.pc = .compress item ∨
    t.pc = .waitOutputReady item ∨ t.pc = .storeOutput item) → item = next
  parameters : t.compressEvent.toNat + t.pc.woken = 1 →
    t.compressParameters + n = e.nextSubmitted
  stored : e.stored = true → t.compressParameters = e.nextSubmitted
  progress : next = e.due n t ∨ e.due n t ∈ e.failed ∧ e.due n t < next ∧ t.pc.delivering = 0
  delivered : t.outputEvent = true ∨ e.outputWoken = 1 →
    t.outputParameters = e.nextTaken ∧ e.nextTaken ∈ e.compressed
  delivering : t.pc.delivering = 1 → next ∈ e.compressed
  storedOutput : t.pc = .setOutput → t.outputParameters = next
  reported : ∀ result, (t.pc = .reportSetUp result ∨ t.pc = .reportError result) →
    result ≠ .success
  alive : t.pc ≠ .exited

attribute [grind] CompressPc.hasParameters CompressPc.woken CompressPc.isDone CompressPc.busy
  CompressPc.hasOutput CompressPc.delivering SlotView.due

/-! ## What each step does to the slot -/

namespace Slot

variable {n next : Nat} {e : SlotView} {t : CompressThread}

/-- More compressions have succeeded or failed, of other items. -/
theorem of_logs (h : Slot n e t next) {compressed failed : List Nat}
    (more : e.compressed ⊆ compressed) (worse : e.failed ⊆ failed) :
    Slot n { e with compressed, failed } t next := by
  obtain ⟨ready, done, output, consumed, woken, position, item, parameters, stored, progress,
    delivered, delivering, storedOutput, reported, alive⟩ := h
  refine ⟨ready, done, output, consumed, woken, position, item, parameters, stored, ?_, ?_, ?_,
    storedOutput, reported, alive⟩
  · exact progress.imp id fun ⟨mem, rest⟩ => ⟨worse mem, rest⟩
  · exact fun woken => ⟨(delivered woken).1, more (delivered woken).2⟩
  · exact fun success => more (delivering success)

section thread

variable (h : Slot n e t next)

include h

theorem setUp (pc : t.pc = .setUp) (result : ConversionResultCode) :
    Slot n e { t with pc := if result = .success then .startReady else .reportSetUp result }
      next := by
  cases t
  cases pc
  cases h
  by_cases success : result = .success
  · rw [if_pos success]
    constructor <;> first | assumption | grind -ring -linarith
  · rw [if_neg success]
    constructor <;> first | assumption | grind -ring -linarith

theorem reportSetUp {result : ConversionResultCode} (pc : t.pc = .reportSetUp result) :
    Slot n e { t with pc := .startReady } next := by
  cases t
  cases pc
  cases h
  constructor <;> first | assumption | grind -ring -linarith

theorem startReady (pc : t.pc = .startReady) :
    Slot n e { t with compressReadyEvent := true, pc := .startDone } next := by
  cases t
  cases pc
  cases h
  constructor <;> first | assumption | grind -ring -linarith

theorem startDone (pc : t.pc = .startDone) :
    Slot n e { t with compressDoneEvent := true, pc := .waitCompress } next := by
  cases t
  cases pc
  cases h
  constructor <;> first | assumption | grind -ring -linarith

theorem waitCompress (pc : t.pc = .waitCompress) (event : t.compressEvent = true) :
    Slot n e { t with compressEvent := false, pc := .checkShuttingDown } next := by
  cases t
  cases pc
  cases h
  constructor <;> first | assumption | grind -ring -linarith

theorem checkShuttingDown (pc : t.pc = .checkShuttingDown) :
    Slot n e { t with pc := .takeParameters } next := by
  cases t
  cases pc
  cases h
  constructor <;> first | assumption | grind -ring -linarith

theorem takeParameters (pc : t.pc = .takeParameters) :
    Slot n e { t with pc := .resetDone t.compressParameters } next := by
  cases t
  cases pc
  cases h
  constructor <;> first | assumption | grind -ring -linarith

theorem resetDone {item : Nat} (pc : t.pc = .resetDone item) :
    Slot n e { t with compressDoneEvent := false, pc := .setReady item } next := by
  cases t
  cases pc
  cases h
  constructor <;> first | assumption | grind -ring -linarith

theorem setReady {item : Nat} (pc : t.pc = .setReady item) :
    Slot n e { t with compressReadyEvent := true, pc := .compress item } next := by
  cases t
  cases pc
  cases h
  constructor <;> first | assumption | grind -ring -linarith

/-- A compression succeeds when no earlier one has failed, so the slot has lost no item. -/
theorem compressed {item : Nat} (pc : t.pc = .compress item) (ok : ∀ k ∈ e.failed, item ≤ k) :
    Slot n { e with compressed := e.compressed ++ [item] } { t with pc := .waitOutputReady item }
      next := by
  cases t
  cases pc
  cases h
  constructor <;> first | assumption | grind -ring -linarith

/-- When a compression fails the slot loses its item, and the output thread will wait for it. -/
theorem failed {item : Nat} (pc : t.pc = .compress item) {result : ConversionResultCode}
    (failure : result ≠ .success) :
    Slot n { e with failed := e.failed ++ [item] } { t with pc := .reportError result }
      (next + n) := by
  cases t
  cases pc
  cases h
  constructor <;> first | assumption | grind -ring -linarith

theorem waitOutputReady {item : Nat} (pc : t.pc = .waitOutputReady item)
    (event : t.outputReadyEvent = true) :
    Slot n e { t with outputReadyEvent := false, pc := .storeOutput item } next := by
  cases t
  cases pc
  cases h
  constructor <;> first | assumption | grind -ring -linarith

theorem storeOutput {item : Nat} (pc : t.pc = .storeOutput item) :
    Slot n e { t with outputParameters := item, pc := .setOutput } next := by
  cases t
  cases pc
  cases h
  constructor <;> first | assumption | grind -ring -linarith

theorem setOutput (pc : t.pc = .setOutput) :
    Slot n e { t with outputEvent := true, pc := .setDone } (next + n) := by
  cases t
  cases pc
  cases h
  constructor <;> first | assumption | grind -ring -linarith

theorem reportError {result : ConversionResultCode} (pc : t.pc = .reportError result) :
    Slot n e { t with pc := .setDone } next := by
  cases t
  cases pc
  cases h
  constructor <;> first | assumption | grind -ring -linarith

theorem setDone (pc : t.pc = .setDone) :
    Slot n e { t with compressDoneEvent := true, pc := .waitCompress } next := by
  cases t
  cases pc
  cases h
  constructor <;> first | assumption | grind -ring -linarith

end thread

section others

variable (h : Slot n e t next)

include h

/-- The client consumes the ready event, in `CompressAndWrite` or in `Shutdown`. -/
theorem consumeReady (event : t.compressReadyEvent = true) :
    Slot n { e with clientHas := 1 } { t with compressReadyEvent := false } next := by
  cases h
  constructor <;> first | assumption | grind -ring -linarith

theorem storeParameters (has : e.clientHas = 1) :
    Slot n { e with stored := true } { t with compressParameters := e.nextSubmitted } next := by
  have := t.pc.woken_le_hasParameters
  cases h
  constructor <;> first | assumption | grind -ring -linarith

theorem submit (has : e.clientHas = 1) (notDone : e.doneConsumed = 0) (stored : e.stored = true) :
    Slot n { e with clientHas := 0, stored := false, nextSubmitted := e.nextSubmitted + n }
      { t with compressEvent := true } next := by
  have awake := t.pc.woken_le_hasParameters
  have ready := h.ready
  have event : t.compressEvent.toNat = 0 := by omega
  have woken : t.pc.woken = 0 := by omega
  have position : next + n * (1 + t.pc.woken + t.pc.busy) = e.nextSubmitted + n := by
    rw [← h.position, event, woken]
    ring
  cases h
  constructor <;> first | assumption | grind -ring -linarith

theorem consumeDone (has : e.clientHas = 1) (event : t.compressDoneEvent = true) :
    Slot n { e with doneConsumed := 1 } { t with compressDoneEvent := false } next := by
  have := t.pc.isDone_le
  cases h
  constructor <;> first | assumption | grind -ring -linarith

theorem consumeOutputReady (event : t.outputReadyEvent = true) :
    Slot n { e with outputHas := e.outputHas + 1 } { t with outputReadyEvent := false } next := by
  cases h
  constructor <;> first | assumption | grind -ring -linarith

/-- The output thread frees the output parameters, at its start or after it took an item. -/
theorem outputReady (has : e.outputHas = 1) (taken : e.outputWoken = 0) :
    Slot n { e with outputHas := 0 } { t with outputReadyEvent := true } next := by
  cases h
  constructor <;> first | assumption | grind -ring -linarith

theorem waitOutput (event : t.outputEvent = true) :
    Slot n { e with outputHas := 1, outputWoken := 1 } { t with outputEvent := false } next := by
  cases h
  constructor <;> first | assumption | grind -ring -linarith

theorem takeOutput (woken : e.outputWoken = 1) :
    Slot n { e with outputWoken := 0, nextTaken := e.nextTaken + n } t next := by
  cases h
  constructor <;> first | assumption | grind -ring -linarith

end others

end Slot

end Phocoena.DiscIO.MultithreadedCompressor
