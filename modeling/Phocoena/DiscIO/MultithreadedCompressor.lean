import Phocoena.Lib.Runs

/-! # The multithreaded compressor

One step of a thread makes at most one access to what the threads share: an event, the
parameters of a slot, the result or the shutdown flag. A call of one of the client's functions
is one step. Events are flags that a successful wait clears. An item stands for its
parameters; it is the number of items that were submitted before it.
-/

namespace Phocoena.DiscIO

inductive ConversionResultCode where
  | success
  | canceled
  | readFailed
  | writeFailed
  | internalError
  deriving DecidableEq

namespace MultithreadedCompressor

/-- Where a compression thread is in `CompressThreadFunction`. -/
inductive CompressPc where
  | setUp
  | reportSetUp (result : ConversionResultCode)
  | startReady
  | startDone
  | waitCompress
  | checkShuttingDown
  | takeParameters
  | resetDone (item : Nat)
  | setReady (item : Nat)
  | compress (item : Nat)
  | waitOutputReady (item : Nat)
  | storeOutput (item : Nat)
  | setOutput
  | reportError (result : ConversionResultCode)
  | setDone
  | exited
  deriving DecidableEq

/-- Where the output thread is in `OutputThreadFunction`. -/
inductive OutputPc where
  | start (i : Nat)
  | waitOutput
  | checkShuttingDown
  | takeParameters
  | setReady (item : Nat)
  | output (item : Nat)
  | reportError (result : ConversionResultCode)
  | exited
  deriving DecidableEq

/-- Where the client is: between two calls, in `CompressAndWrite` after its look at the status,
or in `Shutdown`. -/
inductive ClientPc where
  | idle
  | waitReady
  | storeParameters
  | setCompress
  | waitAllReady (i : Nat)
  | waitAllDone (i : Nat)
  | waitAllOutputReady (i : Nat)
  | storeShuttingDown
  | setAllCompress (i : Nat)
  | setAllOutput (i : Nat)
  | join (i : Nat)
  | joinOutput
  | returned
  deriving DecidableEq

structure CompressThread where
  compressReadyEvent : Bool
  compressEvent : Bool
  compressDoneEvent : Bool
  outputReadyEvent : Bool
  outputEvent : Bool
  compressParameters : Nat
  outputParameters : Nat
  pc : CompressPc

/-- The compressor and its client; the last six fields are a history that no step reads, apart
from the number of the item being submitted. -/
structure State where
  compressThreads : Nat → CompressThread
  outputPc : OutputPc
  index : Nat
  client : ClientPc
  currentIndex : Nat
  result : ConversionResultCode
  shuttingDown : Bool
  submitted : Nat
  refused : Nat
  compressed : List Nat
  failed : List Nat
  outputs : List Nat
  errors : List ConversionResultCode

/-- A step of the client, which chooses its next call, or of a thread, with what a function
called in this step returns (a compression that returns a value counts as `success`). -/
inductive Action where
  | compressAndWrite
  | setError (result : ConversionResultCode)
  | shutdown
  | client
  | compressThread (i : Nat) (result : ConversionResultCode)
  | outputThread (result : ConversionResultCode)
  deriving DecidableEq

def initialThread : CompressThread := ⟨false, false, false, false, false, 0, 0, .setUp⟩

def initialState : State where
  compressThreads _ := initialThread
  outputPc := .start 0
  index := 0
  client := .idle
  currentIndex := 0
  result := .success
  shuttingDown := false
  submitted := 0
  refused := 0
  compressed := []
  failed := []
  outputs := []
  errors := []

namespace State

def setThread (s : State) (i : Nat) (t : CompressThread) : State :=
  { s with compressThreads := Function.update s.compressThreads i t }

/-- `SetError`: an error does not overwrite an earlier one. -/
def setError (s : State) (result : ConversionResultCode) : State :=
  { s with
    result := if s.result = .success then result else s.result
    errors := s.errors ++ [result] }

end State

/-- `++index; if (index >= m_threads) index -= m_threads;` -/
def advance (n index : Nat) : Nat := if n ≤ index + 1 then index + 1 - n else index + 1

def compressThreadStep (i : Nat) (result : ConversionResultCode) (s : State) : Option State :=
  let t := s.compressThreads i
  match t.pc with
  | .setUp =>
      some (s.setThread i
        { t with pc := if result = .success then .startReady else .reportSetUp result })
  | .reportSetUp result => some ((s.setError result).setThread i { t with pc := .startReady })
  | .startReady => some (s.setThread i { t with compressReadyEvent := true, pc := .startDone })
  | .startDone => some (s.setThread i { t with compressDoneEvent := true, pc := .waitCompress })
  | .waitCompress =>
      if t.compressEvent then
        some (s.setThread i { t with compressEvent := false, pc := .checkShuttingDown })
      else none
  | .checkShuttingDown =>
      some (s.setThread i { t with pc := if s.shuttingDown then .exited else .takeParameters })
  | .takeParameters => some (s.setThread i { t with pc := .resetDone t.compressParameters })
  | .resetDone item =>
      some (s.setThread i { t with compressDoneEvent := false, pc := .setReady item })
  | .setReady item =>
      some (s.setThread i { t with compressReadyEvent := true, pc := .compress item })
  | .compress item =>
      if result = .success then
        some ({ s with compressed := s.compressed ++ [item] }.setThread i
          { t with pc := .waitOutputReady item })
      else
        some ({ s with failed := s.failed ++ [item] }.setThread i
          { t with pc := .reportError result })
  | .waitOutputReady item =>
      if t.outputReadyEvent then
        some (s.setThread i { t with outputReadyEvent := false, pc := .storeOutput item })
      else none
  | .storeOutput item => some (s.setThread i { t with outputParameters := item, pc := .setOutput })
  | .setOutput => some (s.setThread i { t with outputEvent := true, pc := .setDone })
  | .reportError result => some ((s.setError result).setThread i { t with pc := .setDone })
  | .setDone => some (s.setThread i { t with compressDoneEvent := true, pc := .waitCompress })
  | .exited => none

def outputThreadStep (n : Nat) (result : ConversionResultCode) (s : State) : Option State :=
  let t := s.compressThreads s.index
  match s.outputPc with
  | .start i =>
      some ({ s with outputPc := if i + 1 < n then .start (i + 1) else .waitOutput }.setThread i
        { s.compressThreads i with outputReadyEvent := true })
  | .waitOutput =>
      if t.outputEvent then
        some ({ s with outputPc := .checkShuttingDown }.setThread s.index
          { t with outputEvent := false })
      else none
  | .checkShuttingDown =>
      some { s with outputPc := if s.shuttingDown then .exited else .takeParameters }
  | .takeParameters => some { s with outputPc := .setReady t.outputParameters }
  | .setReady item =>
      some ({ s with outputPc := .output item }.setThread s.index
        { t with outputReadyEvent := true })
  | .output item =>
      if result = .success then
        some { s with
          outputs := s.outputs ++ [item]
          outputPc := .waitOutput
          index := advance n s.index }
      else some { s with outputs := s.outputs ++ [item], outputPc := .reportError result }
  | .reportError result =>
      some { s.setError result with outputPc := .waitOutput, index := advance n s.index }
  | .exited => none

/-- The next access of the call the client is in. -/
def clientStep (n : Nat) (s : State) : Option State :=
  let t := s.compressThreads s.currentIndex
  match s.client with
  | .idle => none
  | .waitReady =>
      if t.compressReadyEvent then
        some ({ s with client := .storeParameters }.setThread s.currentIndex
          { t with compressReadyEvent := false })
      else none
  | .storeParameters =>
      some ({ s with client := .setCompress }.setThread s.currentIndex
        { t with compressParameters := s.submitted })
  | .setCompress =>
      some ({ s with
          client := .idle
          submitted := s.submitted + 1
          currentIndex := advance n s.currentIndex }.setThread s.currentIndex
        { t with compressEvent := true })
  | .waitAllReady i =>
      if (s.compressThreads i).compressReadyEvent then
        some ({ s with client := if i + 1 < n then .waitAllReady (i + 1) else .waitAllDone 0 }
          |>.setThread i { s.compressThreads i with compressReadyEvent := false })
      else none
  | .waitAllDone i =>
      if (s.compressThreads i).compressDoneEvent then
        some ({ s with client := if i + 1 < n then .waitAllDone (i + 1) else .waitAllOutputReady 0 }
          |>.setThread i { s.compressThreads i with compressDoneEvent := false })
      else none
  | .waitAllOutputReady i =>
      if (s.compressThreads i).outputReadyEvent then
        some ({ s with
            client := if i + 1 < n then .waitAllOutputReady (i + 1) else .storeShuttingDown }
          |>.setThread i { s.compressThreads i with outputReadyEvent := false })
      else none
  | .storeShuttingDown => some { s with shuttingDown := true, client := .setAllCompress 0 }
  | .setAllCompress i =>
      some ({ s with client := if i + 1 < n then .setAllCompress (i + 1) else .setAllOutput 0 }
        |>.setThread i { s.compressThreads i with compressEvent := true })
  | .setAllOutput i =>
      some ({ s with client := if i + 1 < n then .setAllOutput (i + 1) else .join 0 }
        |>.setThread i { s.compressThreads i with outputEvent := true })
  | .join i =>
      if (s.compressThreads i).pc = .exited then
        some { s with client := if i + 1 < n then .join (i + 1) else .joinOutput }
      else none
  | .joinOutput => if s.outputPc = .exited then some { s with client := .returned } else none
  | .returned => none

/-- One step of the compressor with `n` compression threads. -/
def step (n : Nat) (a : Action) (s : State) : Option State :=
  match a with
  | .compressAndWrite =>
      if s.client = .idle then
        if s.result = .success then some { s with client := .waitReady }
        else some { s with refused := s.refused + 1 }
      else none
  | .setError result =>
      if s.client = .idle ∧ result ≠ .success then some (s.setError result) else none
  | .shutdown => if s.client = .idle then some { s with client := .waitAllReady 0 } else none
  | .client => clientStep n s
  | .compressThread i result => if i < n then compressThreadStep i result s else none
  | .outputThread result => outputThreadStep n result s

end MultithreadedCompressor

end Phocoena.DiscIO
