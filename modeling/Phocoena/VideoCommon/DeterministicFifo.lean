import Phocoena.VideoCommon.DecoderSimulation

/-! # The FIFO with a deterministic GPU thread

The CPU thread copies the FIFO block by block and decodes each at once: this pass reads the
registers' loads, and pushes the memory that display lists and indexed loads name to an auxiliary
buffer. The GPU thread decodes the same bytes later and pops that memory.
-/

namespace Phocoena.DeterministicFifo

open CPMemory OpcodeDecoder

def FIFO_SIZE : Nat := 2 * 1024 * 1024

def GATHER_PIPE_SIZE : Nat := 32

/-- `GetPointerForRange`: the bytes of a range, when it is mapped. -/
abbrev Memory := Nat → Nat → Option (Nat → UInt8)

/-- Pointers are offsets into their buffer. -/
structure FifoManager where
  m_video_buffer : Nat → UInt8
  m_video_buffer_write_ptr : Nat
  m_video_buffer_pp_read_ptr : Nat
  m_video_buffer_read_ptr : Nat
  m_video_buffer_seen_ptr : Nat
  m_fifo_aux_data : Nat → UInt8
  m_fifo_aux_write_ptr : Nat
  m_fifo_aux_read_ptr : Nat
  g_preprocess_cp_state : CPState
  g_main_cp_state : CPState
  /-- Not in the source, like the fields after it: whether the GPU thread takes a turn before each
  of the next pushes. -/
  turns : List Bool
  /-- what has been pushed and what has been popped -/
  pushes : List (List UInt8)
  pops : List (List UInt8)
  /-- the callbacks of both passes -/
  preprocessed : List (Call CPState)
  executed : List (Call CPState)
  /-- a range was not mapped, or did not fit in the auxiliary buffer -/
  failed : Bool
  /-- the panics about buffers that are not in step -/
  panicked : Bool

/-- `memcpy` -/
def memcpy (buffer : Nat → UInt8) (start : Nat) (source : Nat → UInt8) (size : Nat) :
    Nat → UInt8 :=
  fun i => if start ≤ i ∧ i < start + size then source (i - start) else buffer i

/-- `memmove` to the start of the buffer. -/
def memmove (buffer : Nat → UInt8) (start size : Nat) : Nat → UInt8 :=
  memcpy buffer 0 (fun i => buffer (start + i)) size

/-! ## The main pass -/

/-- The bytes that are returned, in the buffer. -/
def PopFifoAuxBuffer (size : Nat) (s : FifoManager) : (Nat → UInt8) × FifoManager :=
  let ret := fun i => s.m_fifo_aux_data (s.m_fifo_aux_read_ptr + i)
  (ret, { s with
    m_fifo_aux_read_ptr := s.m_fifo_aux_read_ptr + size
    pops := s.pops ++ [bytes ret 0 size] })

/-- The registers of the transform unit that are the command processor's too. -/
def LoadXFReg (address count : Nat) (data : List UInt8) (s : CPState) : CPState :=
  let word (register : Nat) : Nat := swap32 (dataOf data) (4 * (register - address))
  let loads (register : Nat) : Bool := address ≤ register && register < address + count
  { s with
    matrix_index_a := if loads 0x1018 then word 0x1018 else s.matrix_index_a
    matrix_index_b := if loads 0x1019 then word 0x1019 else s.matrix_index_b }

def onMain (is_wii : Bool) (event : Event) (s : FifoManager) : FifoManager :=
  match event with
  | .onCP command value =>
      { s with g_main_cp_state := s.g_main_cp_state.LoadCPReg is_wii command value }
  | .onXF address count data =>
      { s with g_main_cp_state := LoadXFReg address count data s.g_main_cp_state }
  | .onIndexedLoad _ _ _ size => (PopFifoAuxBuffer (size * 4) s).2
  | _ => s

/-- `RunCallback<false>` while it runs a display list. -/
def mainListCallback (is_wii : Bool) : Callback FifoManager where
  on event s := (onMain is_wii event s, [])
  GetVertexSize s := s.g_main_cp_state.GetVertexSize
  in_display_list := true
  on_nop _ _ := rfl
  vertexSize_le s := s.g_main_cp_state.vertexSize_le

def mainCallback (is_wii : Bool) : Callback FifoManager where
  on event s :=
    match event with
    | .onDisplayList _ size =>
        let (start_address, s) := PopFifoAuxBuffer size s
        let result := Run (mainListCallback is_wii) start_address size s
        (result.state, result.calls)
    | _ => (onMain is_wii event s, [])
  GetVertexSize s := s.g_main_cp_state.GetVertexSize
  in_display_list := false
  on_nop _ _ := rfl
  vertexSize_le s := s.g_main_cp_state.vertexSize_le

/-- One run of the payload of `RunGpuLoop`. -/
def RunGpuLoop (is_wii : Bool) (s : FifoManager) : FifoManager :=
  let read_ptr := s.m_video_buffer_read_ptr
  let write_ptr := s.m_video_buffer_write_ptr
  if s.m_video_buffer_seen_ptr < write_ptr then
    let result := Run (mainCallback is_wii) (fun i => s.m_video_buffer (read_ptr + i))
      (write_ptr - read_ptr) s
    { result.state with
      m_video_buffer_read_ptr := read_ptr + result.size
      m_video_buffer_seen_ptr := write_ptr
      executed := s.executed ++ result.calls.map (Call.within FifoManager.g_main_cp_state) }
  else s

/-- The GPU loop has run when `Wait` returns. -/
def SyncGPU (is_wii may_move_read_ptr : Bool) (s : FifoManager) : FifoManager :=
  let s := RunGpuLoop is_wii s
  let unsynced := may_move_read_ptr && s.m_fifo_aux_write_ptr != s.m_fifo_aux_read_ptr
  let s := { s with
    panicked := s.panicked || unsynced
    m_fifo_aux_data := memmove s.m_fifo_aux_data s.m_fifo_aux_read_ptr
      (s.m_fifo_aux_write_ptr - s.m_fifo_aux_read_ptr)
    m_fifo_aux_write_ptr := s.m_fifo_aux_write_ptr - s.m_fifo_aux_read_ptr
    m_fifo_aux_read_ptr := 0 }
  if may_move_read_ptr then
    -- what's left over in the buffer
    let size := s.m_video_buffer_write_ptr - s.m_video_buffer_pp_read_ptr
    { s with
      m_video_buffer := memmove s.m_video_buffer s.m_video_buffer_pp_read_ptr size
      m_video_buffer_write_ptr := size
      m_video_buffer_pp_read_ptr := 0
      m_video_buffer_read_ptr := 0
      m_video_buffer_seen_ptr := size }
  else s

/-! ## The preprocess pass -/

/-- The GPU thread may take its turn before the push. -/
def takeTurn (is_wii : Bool) (s : FifoManager) : FifoManager :=
  match s.turns with
  | [] => s
  | turn :: turns =>
      let s := { s with turns := turns }
      if turn then RunGpuLoop is_wii s else s

/-- The sync of `PushFifoAuxBuffer`, where there is not enough room. -/
def makeRoom (is_wii : Bool) (size : Nat) (s : FifoManager) : FifoManager :=
  let s := takeTurn is_wii s
  if FIFO_SIZE - s.m_fifo_aux_write_ptr < size then SyncGPU is_wii false s else s

/-- Without a pointer there is nothing to copy. -/
def PushFifoAuxBuffer (is_wii : Bool) (ptr : Option (Nat → UInt8)) (size : Nat)
    (s : FifoManager) : FifoManager :=
  let s := makeRoom is_wii size s
  match ptr with
  | none => { s with failed := true }
  | some ptr =>
      -- a 2MB display list or something
      if FIFO_SIZE - s.m_fifo_aux_write_ptr < size then { s with failed := true }
      else { s with
        m_fifo_aux_data := memcpy s.m_fifo_aux_data s.m_fifo_aux_write_ptr ptr size
        m_fifo_aux_write_ptr := s.m_fifo_aux_write_ptr + size
        pushes := s.pushes ++ [bytes ptr 0 size] }

def PreprocessIndexedXF (is_wii : Bool) (memory : Memory) (array index size : Nat)
    (s : FifoManager) : FifoManager :=
  let cp := s.g_preprocess_cp_state
  let address := (cp.array_bases array + cp.array_strides array * index) % 2 ^ 32
  PushFifoAuxBuffer is_wii (memory address (size * 4)) (size * 4) s

def onPreprocess (is_wii : Bool) (memory : Memory) (event : Event) (s : FifoManager) :
    FifoManager :=
  match event with
  | .onCP command value =>
      { s with g_preprocess_cp_state := s.g_preprocess_cp_state.LoadCPReg is_wii command value }
  | .onIndexedLoad array index _ size => PreprocessIndexedXF is_wii memory array index size s
  | _ => s

/-- `RunCallback<true>` while it runs a display list. -/
def preprocessListCallback (is_wii : Bool) (memory : Memory) : Callback FifoManager where
  on event s := (onPreprocess is_wii memory event s, [])
  GetVertexSize s := s.g_preprocess_cp_state.GetVertexSize
  in_display_list := true
  on_nop _ _ := rfl
  vertexSize_le s := s.g_preprocess_cp_state.vertexSize_le

def preprocessCallback (is_wii : Bool) (memory : Memory) : Callback FifoManager where
  on event s :=
    match event with
    | .onDisplayList address size =>
        let start_address := memory address size
        let s := PushFifoAuxBuffer is_wii start_address size s
        match start_address with
        | none => (s, [])
        | some start_address =>
            let result := Run (preprocessListCallback is_wii memory) start_address size s
            (result.state, result.calls)
    | _ => (onPreprocess is_wii memory event s, [])
  GetVertexSize s := s.g_preprocess_cp_state.GetVertexSize
  in_display_list := false
  on_nop _ _ := rfl
  vertexSize_le s := s.g_preprocess_cp_state.vertexSize_le

/-- The block is copied behind what has been written, and the pass goes on over both. -/
def preprocessBlock (is_wii : Bool) (memory : Memory) (block : Nat → UInt8) (s : FifoManager) :
    FifoManager :=
  let write_ptr := s.m_video_buffer_write_ptr
  let pp_read_ptr := s.m_video_buffer_pp_read_ptr
  let s := { s with m_video_buffer := memcpy s.m_video_buffer write_ptr block GATHER_PIPE_SIZE }
  let result := Run (preprocessCallback is_wii memory)
    (fun i => s.m_video_buffer (pp_read_ptr + i)) (write_ptr + GATHER_PIPE_SIZE - pp_read_ptr) s
  { result.state with
    m_video_buffer_pp_read_ptr := pp_read_ptr + result.size
    m_video_buffer_write_ptr := write_ptr + GATHER_PIPE_SIZE
    preprocessed := s.preprocessed ++
      result.calls.map (Call.within FifoManager.g_preprocess_cp_state) }

def ReadDataFromFifoOnCPU (is_wii : Bool) (memory : Memory) (block : Nat → UInt8)
    (s : FifoManager) : FifoManager :=
  if FIFO_SIZE - s.m_video_buffer_write_ptr < GATHER_PIPE_SIZE then
    -- We can't wrap around while the GPU is working on the data.
    let s := SyncGPU is_wii true s
    if s.m_video_buffer_pp_read_ptr ≠ s.m_video_buffer_read_ptr then { s with panicked := true }
    else
      let existing_len := s.m_video_buffer_write_ptr - s.m_video_buffer_pp_read_ptr
      -- FIFO out of bounds
      if FIFO_SIZE - existing_len < GATHER_PIPE_SIZE then s
      else preprocessBlock is_wii memory block s
  else preprocessBlock is_wii memory block s

/-! ## Steps -/

inductive Act where
  /-- A block of the FIFO, what is in the memory then, and the turns of the GPU thread. -/
  | block (memory : Memory) (block : Nat → UInt8) (turns : List Bool)
  | gpu
  | sync

def step (is_wii : Bool) : Act → FifoManager → Option FifoManager
  | .block memory block turns, s =>
      some (ReadDataFromFifoOnCPU is_wii memory block { s with turns := turns })
  | .gpu, s => some (RunGpuLoop is_wii s)
  | .sync, s => some (SyncGPU is_wii true s)

/-- `ResetVideoBuffer`, with the same registers in both passes. -/
def reset (buffer aux : Nat → UInt8) (cp : CPState) : FifoManager where
  m_video_buffer := buffer
  m_video_buffer_write_ptr := 0
  m_video_buffer_pp_read_ptr := 0
  m_video_buffer_read_ptr := 0
  m_video_buffer_seen_ptr := 0
  m_fifo_aux_data := aux
  m_fifo_aux_write_ptr := 0
  m_fifo_aux_read_ptr := 0
  g_preprocess_cp_state := cp
  g_main_cp_state := cp
  turns := []
  pushes := []
  pops := []
  preprocessed := []
  executed := []
  failed := false
  panicked := false

end Phocoena.DeterministicFifo
