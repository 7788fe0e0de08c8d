import Phocoena.Lib.Runs
import Mathlib.Logic.Function.Iterate

/-! # Command buffers

The ring of command buffers, their fences and what is destroyed when they have finished. Command
buffers are submitted to the queue by the calling thread or by a worker thread; the GPU finishes
them in the order of the queue. Whatever the caller looks at, the worker and the GPU may have gone
on before.
-/

namespace Phocoena.Vulkan

def NUM_COMMAND_BUFFERS : Nat := 8

/-- An object whose destruction is deferred, and the fence counter of its command buffer. -/
structure Deferred where
  id : Nat
  attached : Nat
deriving DecidableEq, Repr

structure CmdBufferResources where
  fence_counter : Nat := 0
  waiting_for_submit : Bool := false
  frame_index : Nat := 0
  cleanup_resources : List Deferred := []
deriving DecidableEq, Repr

inductive Progress where
  | worker
  | gpu
deriving DecidableEq, Repr

/-- What the manager does with fences, counters, objects and pools, with what matters about it at
that time. -/
inductive Event where
  | wait (index : Nat) (waiting_for_submit submitted : Bool)
  | reset (index : Nat) (waiting_for_submit : Bool)
  | completed (before after : Nat) (finished : Bool)
  | destroy (object : Deferred) (finished : Bool)
  | resetPools (asserted : Bool)
  | covered (asserted : Bool)
deriving DecidableEq, Repr

structure Manager where
  m_next_fence_counter : Nat := 1
  m_completed_fence_counter : Nat := 0
  /-- of each of `m_frame_resources` -/
  last_fence_counter : Nat → Nat := fun _ => 0
  m_command_buffers : Nat → CmdBufferResources := fun _ => {}
  m_current_frame : Nat := 0
  m_current_cmd_buffer : Nat := 0
  m_frames_in_flight : Nat
  m_use_threaded_submission : Bool
  /-- the command buffers pushed to the worker; it works on the first of them -/
  queue : List Nat := []
  /-- the worker has submitted the first one and not cleared `waiting_for_submit` -/
  handedOver : Bool := false
  /-- the fence counters of the command buffers that the GPU has not finished -/
  gpu : List Nat := []
  finished : List Nat := []
  progress : Nat → List Progress
  looks : Nat := 0
  deferred : Nat := 0
  log : List Event := []

namespace Manager

def record (event : Event) (s : Manager) : Manager := { s with log := s.log ++ [event] }

def setBuffer (index : Nat) (resources : CmdBufferResources) (s : Manager) : Manager :=
  { s with m_command_buffers := Function.update s.m_command_buffers index resources }

/-! ## The worker and the GPU -/

/-- `SubmitCommandBuffer(command_buffer_index, ..)` -/
def submitToQueue (index : Nat) (s : Manager) : Manager :=
  { s with gpu := s.gpu ++ [(s.m_command_buffers index).fence_counter] }

def workerStep (s : Manager) : Manager :=
  match s.queue with
  | [] => s
  | index :: rest =>
      if s.handedOver then
        { s.setBuffer index { s.m_command_buffers index with waiting_for_submit := false } with
          queue := rest, handedOver := false }
      else { s.submitToQueue index with handedOver := true }

def gpuStep (s : Manager) : Manager :=
  match s.gpu with
  | [] => s
  | counter :: rest => { s with gpu := rest, finished := counter :: s.finished }

def proceed : List Progress → Manager → Manager
  | [], s => s
  | .worker :: rest, s => proceed rest s.workerStep
  | .gpu :: rest, s => proceed rest s.gpuStep

/-- The caller looks at what the worker and the GPU have done. -/
def look (s : Manager) : Manager := { proceed (s.progress s.looks) s with looks := s.looks + 1 }

/-! ## The calling thread -/

def waitForWorkerThreadIdle (s : Manager) : Manager :=
  if s.m_use_threaded_submission = false then s
  else
    let s := s.look
    workerStep^[2 * s.queue.length] s

/-- `vkWaitForFences`: it returns when the GPU has finished the command buffer. -/
def waitForFence (index : Nat) (s : Manager) : Manager :=
  let s := s.look
  let resources := s.m_command_buffers index
  let submitted := resources.fence_counter ∈ s.gpu ∨ resources.fence_counter ∈ s.finished
  let s := s.record (.wait index resources.waiting_for_submit submitted)
  if resources.fence_counter ∈ s.gpu then gpuStep^[s.gpu.idxOf resources.fence_counter + 1] s else s

/-- The command buffers after the current one, once around the ring. -/
def others (s : Manager) : List Nat :=
  (List.range (NUM_COMMAND_BUFFERS - 1)).map fun i =>
    (s.m_current_cmd_buffer + 1 + i) % NUM_COMMAND_BUFFERS

def destroyAll (index : Nat) (s : Manager) : Manager :=
  let resources := s.m_command_buffers index
  { s.setBuffer index { resources with cleanup_resources := [] } with
    log := s.log ++ resources.cleanup_resources.map fun object =>
      .destroy object (object.attached ∈ s.finished) }

/-- The clean-up loop of `WaitForCommandBufferCompletion`. -/
def cleanup (now_completed_counter : Nat) : List Nat → Manager → Manager
  | [], s => s
  | index :: rest, s =>
      let counter := (s.m_command_buffers index).fence_counter
      if now_completed_counter < counter then s
      else cleanup now_completed_counter rest
        (if s.m_completed_fence_counter < counter then s.destroyAll index else s)

def waitForCommandBufferCompletion (index : Nat) (s : Manager) : Manager :=
  let s := s.look
  let s := if (s.m_command_buffers index).waiting_for_submit then s.waitForWorkerThreadIdle else s
  let s := s.waitForFence index
  let now_completed_counter := (s.m_command_buffers index).fence_counter
  let s := cleanup now_completed_counter s.others s
  { s.record (.completed s.m_completed_fence_counter now_completed_counter
        ((List.range' 1 now_completed_counter).all (· ∈ s.finished))) with
    m_completed_fence_counter := now_completed_counter }

def waitForFenceCounter (fence_counter : Nat) (s : Manager) : Manager :=
  if fence_counter ≤ s.m_completed_fence_counter then s
  else
    let found := s.others.find? fun index =>
      fence_counter ≤ (s.m_command_buffers index).fence_counter
    (s.record (.covered found.isSome)).waitForCommandBufferCompletion
      (found.getD s.m_current_cmd_buffer)

def beginCommandBuffer (s : Manager) : Manager :=
  let next_buffer_index := (s.m_current_cmd_buffer + 1) % NUM_COMMAND_BUFFERS
  let s :=
    if s.m_completed_fence_counter < (s.m_command_buffers next_buffer_index).fence_counter then
      s.waitForCommandBufferCompletion next_buffer_index
    else s
  let resources := s.m_command_buffers next_buffer_index
  let s := s.record (.reset next_buffer_index resources.waiting_for_submit)
  { s.setBuffer next_buffer_index { resources with
      fence_counter := s.m_next_fence_counter, frame_index := s.m_current_frame } with
    m_next_fence_counter := s.m_next_fence_counter + 1
    m_current_cmd_buffer := next_buffer_index }

/-- The loop of `SubmitCommandBuffer` over the command buffers of the next frame. -/
def waitForFrame : List Nat → Manager → Manager
  | [], s => s
  | index :: rest, s =>
      let cmd_buffer := s.m_command_buffers index
      waitForFrame rest
        (if cmd_buffer.frame_index = s.m_current_frame ∧ cmd_buffer.fence_counter ≠ 0 ∧
            s.m_completed_fence_counter < cmd_buffer.fence_counter then
          s.waitForCommandBufferCompletion index
        else s)

def advanceToNextFrame (s : Manager) : Manager :=
  let s := { s with m_current_frame := (s.m_current_frame + 1) % s.m_frames_in_flight }
  let s := waitForFrame s.others s
  let last := s.last_fence_counter s.m_current_frame
  let s := s.record (.resetPools (last = 0 ∨ last ≤ s.m_completed_fence_counter))
  { s with last_fence_counter := Function.update s.last_fence_counter s.m_current_frame 0 }

/-- The first part of `SubmitCommandBuffer`. Presenting does not concern the ring. -/
def submitCurrent (submit_on_worker_thread wait_for_completion : Bool) (s : Manager) : Manager :=
  let current := s.m_current_cmd_buffer
  if s.m_use_threaded_submission && submit_on_worker_thread && !wait_for_completion then
    { s.setBuffer current { s.m_command_buffers current with waiting_for_submit := true } with
      queue := s.queue ++ [current] }
  else
    let s := s.waitForWorkerThreadIdle.submitToQueue current
    if wait_for_completion then s.waitForCommandBufferCompletion current else s

def submitCommandBuffer (submit_on_worker_thread wait_for_completion advance_to_next_frame : Bool)
    (s : Manager) : Manager :=
  let s := s.submitCurrent submit_on_worker_thread wait_for_completion
  let resources := s.m_command_buffers s.m_current_cmd_buffer
  let last := max (s.last_fence_counter resources.frame_index) resources.fence_counter
  let s := { s with
    last_fence_counter := Function.update s.last_fence_counter resources.frame_index last }
  let s := if advance_to_next_frame then s.advanceToNextFrame else s
  s.beginCommandBuffer

/-- Each of the `Defer..Destruction` functions. -/
def deferDestruction (s : Manager) : Manager :=
  let resources := s.m_command_buffers s.m_current_cmd_buffer
  let object : Deferred := { id := s.deferred, attached := resources.fence_counter }
  { s.setBuffer s.m_current_cmd_buffer { resources with
      cleanup_resources := resources.cleanup_resources ++ [object] } with
    deferred := s.deferred + 1 }

/-- The constructor and `CreateCommandBuffers`. -/
def create (use_threaded_submission : Bool) (frames_in_flight : Nat)
    (progress : Nat → List Progress) : Manager :=
  beginCommandBuffer
    { m_frames_in_flight := if frames_in_flight = 3 then 3 else 2
      m_use_threaded_submission := use_threaded_submission
      m_current_cmd_buffer := NUM_COMMAND_BUFFERS - 1, progress }

def currentFenceCounter (s : Manager) : Nat :=
  (s.m_command_buffers s.m_current_cmd_buffer).fence_counter

end Manager

inductive Operation where
  | submit (submit_on_worker_thread wait_for_completion advance_to_next_frame : Bool)
  | defer
  | waitForFenceCounter (fence_counter : Nat)

/-- Callers wait for counters of command buffers before the current one. -/
def Operation.perform : Operation → Manager → Option Manager
  | submit worker wait advance, s => some (s.submitCommandBuffer worker wait advance)
  | defer, s => some s.deferDestruction
  | waitForFenceCounter counter, s =>
      if counter < s.currentFenceCounter then some (s.waitForFenceCounter counter) else none

end Phocoena.Vulkan
