import Phocoena.VideoCommon.FifoTape
import Phocoena.Lib.Runs

/-! # Both passes stay in step

The preprocess pass writes the tape as it goes, so that a run of the decoder over the same bytes
uses up what was pushed. The main pass is such a run over bytes that are cut otherwise, and does
the same.
-/

namespace Phocoena.DeterministicFifo

open CPMemory OpcodeDecoder

variable (is_wii : Bool)

/-! ## Copies -/

theorem bytes_memcpy (buffer source : Nat → UInt8) (start size : Nat) :
    bytes (memcpy buffer start source size) start size = bytes source 0 size := by
  apply List.map_congr_left
  intro i member
  have bound := List.mem_range.mp member
  simp only [memcpy]
  rw [if_pos (by omega), show start + i - start = 0 + i by omega]

theorem memcpy_before (buffer source : Nat → UInt8) {start i : Nat} (size : Nat)
    (before : i < start) : memcpy buffer start source size i = buffer i := by
  rw [memcpy, if_neg (by omega)]

theorem memmove_apply (buffer : Nat → UInt8) (start : Nat) {size i : Nat} (bound : i < size) :
    memmove buffer start size i = buffer (start + i) := by
  rw [memmove, memcpy, if_pos (by omega), Nat.sub_zero]

theorem bytes_memmove (buffer : Nat → UInt8) (start size : Nat) :
    bytes (memmove buffer start size) 0 size = bytes buffer start size := by
  rw [memmove, bytes_memcpy, bytes_shift, Nat.add_zero]

/-- The tape after a push. -/
theorem auxBytes_push {s : FifoManager} (le : s.m_fifo_aux_read_ptr ≤ s.m_fifo_aux_write_ptr)
    (ptr : Nat → UInt8) (size : Nat) (pushes : List (List UInt8)) :
    auxBytes { s with
      m_fifo_aux_data := memcpy s.m_fifo_aux_data s.m_fifo_aux_write_ptr ptr size
      m_fifo_aux_write_ptr := s.m_fifo_aux_write_ptr + size
      pushes := pushes } = auxBytes s ++ bytes ptr 0 size := by
  have length : s.m_fifo_aux_write_ptr + size - s.m_fifo_aux_read_ptr =
      s.m_fifo_aux_write_ptr - s.m_fifo_aux_read_ptr + size := by omega
  simp only [auxBytes]
  rw [length, bytes_append]
  congr 1
  · apply bytes_congr
    intro i bound
    exact memcpy_before _ _ _ (by omega)
  · rw [show s.m_fifo_aux_read_ptr + (s.m_fifo_aux_write_ptr - s.m_fifo_aux_read_ptr) =
      s.m_fifo_aux_write_ptr by omega, bytes_memcpy]

/-! ## Turns and syncs -/

/-- What the GPU thread changes in its turn. -/
theorem runGpuLoop_frame (s : FifoManager) :
    ∃ main aux_read pops read seen executed, RunGpuLoop is_wii s = { s with
      g_main_cp_state := main
      m_fifo_aux_read_ptr := aux_read
      pops := pops
      m_video_buffer_read_ptr := read
      m_video_buffer_seen_ptr := seen
      executed := executed } := by
  unfold RunGpuLoop
  dsimp only
  split
  · obtain ⟨main, aux_read, pops, only⟩ := run_keeps (c := mainCallback is_wii) (P := OnlyMain s)
      (fun event _ only => onlyMain_on is_wii event only)
      (fun i => s.m_video_buffer (s.m_video_buffer_read_ptr + i))
      (s.m_video_buffer_write_ptr - s.m_video_buffer_read_ptr) (.refl s)
    rw [only]
    exact ⟨_, _, _, _, _, _, rfl⟩
  · exact ⟨_, _, _, _, _, _, rfl⟩

/-- What a pass of the preprocess decoder leaves as it is, with what it pushes. -/
structure Pushed (s s' : FifoManager) (new : List UInt8) (pieces : List (List UInt8)) : Prop where
  pushes : s'.pushes = s.pushes ++ pieces
  buffer : s'.m_video_buffer = s.m_video_buffer
  write_ptr : s'.m_video_buffer_write_ptr = s.m_video_buffer_write_ptr
  pp_read_ptr : s'.m_video_buffer_pp_read_ptr = s.m_video_buffer_pp_read_ptr
  behind : ∀ cp pushes calls acc, Behind is_wii cp pushes calls acc s →
    Behind is_wii cp pushes calls (acc ++ new) s'

section
variable {is_wii} {s s' s'' : FifoManager} {new new' : List UInt8}
  {pieces pieces' : List (List UInt8)}

theorem Pushed.trans (first : Pushed is_wii s s' new pieces)
    (second : Pushed is_wii s' s'' new' pieces') :
    Pushed is_wii s s'' (new ++ new') (pieces ++ pieces') where
  pushes := by rw [second.pushes, first.pushes, List.append_assoc]
  buffer := second.buffer.trans first.buffer
  write_ptr := second.write_ptr.trans first.write_ptr
  pp_read_ptr := second.pp_read_ptr.trans first.pp_read_ptr
  behind cp pushes calls acc behind := by
    rw [← List.append_assoc]
    exact second.behind _ _ _ _ (first.behind _ _ _ _ behind)

/-- Nothing is pushed. -/
theorem Pushed.of_behind (pushes : s'.pushes = s.pushes)
    (buffer : s'.m_video_buffer = s.m_video_buffer)
    (write_ptr : s'.m_video_buffer_write_ptr = s.m_video_buffer_write_ptr)
    (pp_read_ptr : s'.m_video_buffer_pp_read_ptr = s.m_video_buffer_pp_read_ptr)
    (behind : ∀ cp pushes calls acc, Behind is_wii cp pushes calls acc s →
      Behind is_wii cp pushes calls acc s') : Pushed is_wii s s' [] [] where
  pushes := by rw [pushes, List.append_nil]
  buffer := buffer
  write_ptr := write_ptr
  pp_read_ptr := pp_read_ptr
  behind cp pushes calls acc := by
    rw [List.append_nil]
    exact behind cp pushes calls acc

theorem pushed_runGpuLoop (s : FifoManager) : Pushed is_wii s (RunGpuLoop is_wii s) [] [] := by
  obtain ⟨_, _, _, _, _, _, frame⟩ := runGpuLoop_frame is_wii s
  refine .of_behind ?_ ?_ ?_ ?_ fun _ _ _ _ behind => behind.runGpuLoop.behind
  all_goals rw [frame]

theorem pushed_takeTurn (s : FifoManager) : Pushed is_wii s (takeTurn is_wii s) [] [] := by
  unfold takeTurn
  split
  · exact .of_behind rfl rfl rfl rfl fun _ _ _ _ behind => behind
  · have first (turns : List Bool) : Pushed is_wii s { s with turns := turns } [] [] :=
      .of_behind rfl rfl rfl rfl fun _ _ _ _ behind =>
        { behind with idle := fun idle => { behind.idle idle with } }
    dsimp only
    split
    · exact (first _).trans (pushed_runGpuLoop _)
    · exact first _

theorem Even.moveAux {cp : CPState} {pushes : List (List UInt8)} {calls : List (Call CPState)}
    (even : Even is_wii cp pushes calls new s) :
    Even is_wii cp pushes calls new { s with
      m_fifo_aux_data := memmove s.m_fifo_aux_data s.m_fifo_aux_read_ptr
        (s.m_fifo_aux_write_ptr - s.m_fifo_aux_read_ptr)
      m_fifo_aux_write_ptr := s.m_fifo_aux_write_ptr - s.m_fifo_aux_read_ptr
      m_fifo_aux_read_ptr := 0 } :=
  { even with
    aux_le := Nat.zero_le _
    aux := by
      rw [← even.aux]
      exact bytes_memmove _ _ _ }

theorem sync_eq (s : FifoManager) : SyncGPU is_wii false s = { RunGpuLoop is_wii s with
      m_fifo_aux_data := memmove (RunGpuLoop is_wii s).m_fifo_aux_data
        (RunGpuLoop is_wii s).m_fifo_aux_read_ptr
        ((RunGpuLoop is_wii s).m_fifo_aux_write_ptr - (RunGpuLoop is_wii s).m_fifo_aux_read_ptr)
      m_fifo_aux_write_ptr := (RunGpuLoop is_wii s).m_fifo_aux_write_ptr -
        (RunGpuLoop is_wii s).m_fifo_aux_read_ptr
      m_fifo_aux_read_ptr := 0 } := by
  simp [SyncGPU]

theorem pushed_sync (s : FifoManager) : Pushed is_wii s (SyncGPU is_wii false s) [] [] := by
  obtain ⟨_, _, _, _, _, _, frame⟩ := runGpuLoop_frame is_wii s
  rw [sync_eq]
  refine .of_behind ?_ ?_ ?_ ?_ fun _ _ _ _ behind => behind.runGpuLoop.moveAux.behind
  all_goals rw [frame]

end

/-! ## The preprocess pass writes the tape -/

theorem runGpuLoop_failed (s : FifoManager) : (RunGpuLoop is_wii s).failed = s.failed := by
  obtain ⟨_, _, _, _, _, _, frame⟩ := runGpuLoop_frame is_wii s
  rw [frame]

theorem runGpuLoop_preprocess (s : FifoManager) :
    (RunGpuLoop is_wii s).g_preprocess_cp_state = s.g_preprocess_cp_state := by
  obtain ⟨_, _, _, _, _, _, frame⟩ := runGpuLoop_frame is_wii s
  rw [frame]

theorem takeTurn_keeps (s : FifoManager) :
    (takeTurn is_wii s).failed = s.failed ∧
      (takeTurn is_wii s).g_preprocess_cp_state = s.g_preprocess_cp_state := by
  unfold takeTurn
  split
  · exact ⟨rfl, rfl⟩
  · dsimp only
    split
    · exact ⟨runGpuLoop_failed .., runGpuLoop_preprocess ..⟩
    · exact ⟨rfl, rfl⟩

theorem pushed_makeRoom (size : Nat) (s : FifoManager) :
    Pushed is_wii s (makeRoom is_wii size s) [] [] := by
  unfold makeRoom
  dsimp only
  split
  · exact (pushed_takeTurn s).trans (pushed_sync _)
  · exact pushed_takeTurn s

theorem makeRoom_keeps (size : Nat) (s : FifoManager) :
    (makeRoom is_wii size s).failed = s.failed ∧
      (makeRoom is_wii size s).g_preprocess_cp_state = s.g_preprocess_cp_state := by
  obtain ⟨failed, cp⟩ := takeTurn_keeps is_wii s
  unfold makeRoom
  dsimp only
  split
  · exact ⟨(runGpuLoop_failed ..).trans failed, (runGpuLoop_preprocess ..).trans cp⟩
  · exact ⟨failed, cp⟩

section
variable {is_wii}

theorem push_failed {ptr : Option (Nat → UInt8)} {size : Nat} {s : FifoManager}
    (failed : s.failed = true) : (PushFifoAuxBuffer is_wii ptr size s).failed = true := by
  have kept := (makeRoom_keeps is_wii size s).1.trans failed
  unfold PushFifoAuxBuffer
  cases ptr with
  | none => rfl
  | some ptr =>
      dsimp only
      split
      · rfl
      · exact kept

theorem push_preprocess (ptr : Option (Nat → UInt8)) (size : Nat) (s : FifoManager) :
    (PushFifoAuxBuffer is_wii ptr size s).g_preprocess_cp_state = s.g_preprocess_cp_state := by
  have kept := (makeRoom_keeps is_wii size s).2
  unfold PushFifoAuxBuffer
  cases ptr with
  | none => exact kept
  | some ptr =>
      dsimp only
      split
      · exact kept
      · exact kept

/-- A push that does not fail puts the bytes of the range on the tape. -/
theorem push_cases (ptr : Option (Nat → UInt8)) (size : Nat) (s : FifoManager) :
    (PushFifoAuxBuffer is_wii ptr size s).failed = true ∨ ∃ source, ptr = some source ∧
      Pushed is_wii s (PushFifoAuxBuffer is_wii ptr size s) (bytes source 0 size)
        [bytes source 0 size] := by
  cases ptr with
  | none => exact .inl rfl
  | some source =>
      unfold PushFifoAuxBuffer
      dsimp only
      split
      · exact .inl rfl
      · refine .inr ⟨source, rfl, ?_⟩
        refine (pushed_makeRoom is_wii size s).trans
          ⟨rfl, rfl, rfl, rfl, fun cp pushes calls acc behind => ?_⟩
        have aux := auxBytes_push behind.aux_le source size
          ((makeRoom is_wii size s).pushes ++ [bytes source 0 size])
        obtain ⟨needed, pieces, rest, tape, consumes, popped, executed⟩ := behind.left
        exact { behind with
          aux_le := Nat.le_add_right_of_le behind.aux_le
          left := by
            refine ⟨needed, pieces, rest, ?_, consumes, popped, executed⟩
            rw [aux, tape, List.append_assoc]
            rfl
          idle := fun idle => { behind.idle idle with
            aux_le := Nat.le_add_right_of_le behind.aux_le
            aux := by
              rw [aux, (behind.idle idle).aux]
              rfl } }

end

def preprocessShape : Call FifoManager → Call CPState :=
  Call.within fun s => shape s.g_preprocess_cp_state

/-- A run of the preprocess decoder from `s`, and the reader's runs: unless something failed, the
reader does the same with what was pushed on its tape. -/
def Replays (s : FifoManager) (result : Result FifoManager) (run : Reader → Result Reader) : Prop :=
  result.state.failed = true ∨ ∃ new pieces, Pushed is_wii s result.state new pieces ∧
    ∀ extra popped, let replayed := run ⟨shape s.g_preprocess_cp_state, new ++ extra, popped, false⟩
      replayed.size = result.size ∧ replayed.state =
        ⟨shape result.state.g_preprocess_cp_state, extra, popped ++ pieces, false⟩ ∧
      replayed.calls.map (Call.within Reader.cp) = result.calls.map preprocessShape

/-- One callback. -/
def once {State : Type} (callback : Callback State) (event : Event) (s : State) : Result State :=
  ⟨0, (callback.on event s).1, (callback.on event s).2⟩

/-- A callback of the preprocess pass and the reader's. -/
structure Replaying (c : Callback FifoManager) (d : Callback Reader) : Prop where
  sizes : ∀ s, c.GetVertexSize s = s.g_preprocess_cp_state.GetVertexSize
  sizes' : ∀ t, d.GetVertexSize t = t.cp.GetVertexSize
  in_display_list : c.in_display_list = d.in_display_list
  failed : ∀ event s, s.failed = true → (c.on event s).1.failed = true
  on : ∀ event s, Replays is_wii s (once c event s) (once d event)

section
variable {is_wii} {c : Callback FifoManager} {d : Callback Reader}

theorem pushed_nothing (s : FifoManager) : Pushed is_wii s s [] [] :=
  .of_behind rfl rfl rfl rfl fun _ _ _ _ behind => behind

theorem Replaying.run (replaying : Replaying is_wii c d) (data : Nat → UInt8) (available : Nat)
    (s : FifoManager) : Replays is_wii s (Run c data available s) (Run d data available) := by
  induction available using Nat.strongRecOn generalizing data s with
  | ind available ih =>
    have same (tape : List UInt8) (popped : List (List UInt8)) :
        decode d data available ⟨shape s.g_preprocess_cp_state, tape, popped, false⟩ =
          decode c data available s := by
      refine decode_of_sizes ?_ data available
      rw [replaying.sizes, replaying.sizes']
      rfl
    cases decoded : decode c data available s with
    | none =>
        rw [run_none decoded]
        refine .inr ⟨[], [], pushed_nothing s, fun extra popped => ?_⟩
        dsimp only
        rw [run_none ((same _ _).trans decoded)]
        exact ⟨rfl, by rw [List.nil_append, List.append_nil], rfl⟩
    | some command =>
        obtain ⟨event, size⟩ := command
        have bounds := decode_size decoded
        rw [run_some decoded]
        obtain failed | ⟨new, pieces, pushed, replayed⟩ := replaying.on event s
        · exact .inl
            (run_keeps (P := fun s : FifoManager => s.failed = true) replaying.failed _ _ failed)
        obtain failed | ⟨new', pieces', pushed', replayed'⟩ := ih (available - size) (by omega)
          (fun i => data (size + i)) (c.on event s).1
        · exact .inl failed
        refine .inr ⟨new ++ new', pieces ++ pieces', pushed.trans pushed', fun extra popped => ?_⟩
        obtain ⟨_, state, calls⟩ := replayed (new' ++ extra) popped
        obtain ⟨sizes', state', calls'⟩ := replayed' extra (popped ++ pieces)
        dsimp only [once] at state calls
        dsimp only
        rw [run_some ((same _ _).trans decoded), List.append_assoc, state]
        refine ⟨congrArg (size + ·) sizes', ?_, ?_⟩
        · rw [← List.append_assoc popped]
          exact state'
        · simp only [andThen, callsOf, List.map_append, calls, calls', List.map_cons, List.map_nil]
          simp only [preprocessShape, Call.within, replaying.in_display_list]

theorem onPreprocess_failed {memory : Memory} {event : Event} {s : FifoManager}
    (failed : s.failed = true) : (onPreprocess is_wii memory event s).failed = true := by
  cases event
  case onIndexedLoad => exact push_failed failed
  all_goals exact failed

/-- A push, and the reader's pop of the same size. -/
theorem Replays.push {ptr : Option (Nat → UInt8)} {size : Nat} {s : FifoManager} :
    Replays is_wii s ⟨0, PushFifoAuxBuffer is_wii ptr size s, []⟩
      (fun t => ⟨0, t.pop size, []⟩) := by
  obtain failed | ⟨source, _, pushed⟩ := @push_cases is_wii ptr size s
  · exact .inl failed
  · refine .inr ⟨_, _, pushed, fun extra popped => ⟨rfl, ?_, rfl⟩⟩
    dsimp only [Reader.pop]
    rw [push_preprocess, List.drop_append_of_le_length (length_bytes ..).ge,
      List.drop_of_length_le (length_bytes ..).le, List.take_append_of_le_length
      (length_bytes ..).ge, List.take_of_length_le (length_bytes ..).le]
    simp [length_bytes]

theorem replays_onPreprocess (memory : Memory) (event : Event) (s : FifoManager) :
    Replays is_wii s ⟨0, onPreprocess is_wii memory event s, []⟩
      (fun t => ⟨0, onReader is_wii event t, []⟩) := by
  cases event
  case onIndexedLoad => exact Replays.push
  case onCP command value =>
    refine .inr ⟨[], [], .of_behind rfl rfl rfl rfl fun _ _ _ _ behind =>
      { behind with idle := fun idle => { behind.idle idle with } }, fun extra popped => ?_⟩
    refine ⟨rfl, ?_, rfl⟩
    dsimp only [onPreprocess, onReader]
    rw [shape_loadCPReg, List.nil_append, List.append_nil]
  all_goals
    refine .inr ⟨[], [], pushed_nothing s, fun extra popped => ⟨rfl, ?_, rfl⟩⟩
    dsimp only [onPreprocess, onReader]
    rw [List.nil_append, List.append_nil]

theorem list_replaying (memory : Memory) :
    Replaying is_wii (preprocessListCallback is_wii memory) (readerListCallback is_wii) where
  sizes _ := rfl
  sizes' _ := rfl
  in_display_list := rfl
  failed _ _ failed := onPreprocess_failed failed
  on event s := replays_onPreprocess memory event s

theorem preprocess_failed (memory : Memory) (event : Event) (s : FifoManager)
    (failed : s.failed = true) :
    ((preprocessCallback is_wii memory).on event s).1.failed = true := by
  have others : (onPreprocess is_wii memory event s).failed = true := onPreprocess_failed failed
  cases event
  case onDisplayList address size =>
    have pushed : (PushFifoAuxBuffer is_wii (memory address size) size s).failed = true :=
      push_failed failed
    dsimp only [preprocessCallback]
    split
    · exact pushed
    · exact run_keeps (P := fun s : FifoManager => s.failed = true) (list_replaying memory).failed
        _ _ pushed
  all_goals exact others

/-- A display list is pushed before it is decoded, and popped before it is. -/
theorem replays_onDisplayList (memory : Memory) (address size : Nat) (s : FifoManager) :
    Replays is_wii s (once (preprocessCallback is_wii memory) (.onDisplayList address size) s)
      (once (readerCallback is_wii) (.onDisplayList address size)) := by
  obtain failed | ⟨source, mapped, pushed⟩ :=
    @push_cases is_wii (memory address size) size s
  · left
    dsimp only [once, preprocessCallback]
    split
    · exact failed
    · exact run_keeps (P := fun s : FifoManager => s.failed = true) (list_replaying memory).failed
        _ _ failed
  dsimp only [once, preprocessCallback]
  rw [mapped] at pushed ⊢
  dsimp only
  obtain failed | ⟨new, pieces, pushed', replayed⟩ := (list_replaying memory).run source size
    (PushFifoAuxBuffer is_wii (some source) size s)
  · exact .inl failed
  refine .inr ⟨_, _, pushed.trans pushed', fun extra popped => ?_⟩
  obtain ⟨_, state, calls⟩ := replayed extra (popped ++ [bytes source 0 size])
  have length := length_bytes source 0 size
  have taken : (bytes source 0 size ++ new ++ extra).take size = bytes source 0 size := by
    rw [List.append_assoc, List.take_append_of_le_length length.ge,
      List.take_of_length_le length.le]
  have dropped : (bytes source 0 size ++ new ++ extra).drop size = new ++ extra := by
    rw [List.append_assoc, List.drop_append_of_le_length length.ge,
      List.drop_of_length_le length.le, List.nil_append]
  have enough : ¬ (bytes source 0 size ++ new ++ extra).length < size := by
    rw [List.append_assoc, List.length_append, length]
    omega
  have same (t : Reader) : Run (readerListCallback is_wii) (dataOf (bytes source 0 size)) size t =
      Run (readerListCallback is_wii) source size t :=
    run_congr fun i bound => by rw [dataOf_bytes _ _ bound, Nat.zero_add]
  rw [push_preprocess] at state calls
  dsimp only [once, readerCallback, Reader.pop]
  rw [taken, dropped, same, decide_eq_false enough]
  refine ⟨rfl, ?_, calls⟩
  rw [← List.append_assoc popped]
  exact state

theorem replaying (memory : Memory) :
    Replaying is_wii (preprocessCallback is_wii memory) (readerCallback is_wii) where
  sizes _ := rfl
  sizes' _ := rfl
  in_display_list := rfl
  failed := preprocess_failed memory
  on event s := by
    have others := @replays_onPreprocess is_wii memory event s
    cases event
    case onDisplayList address size => exact replays_onDisplayList memory address size s
    all_goals exact others

end

/-! ## Blocks -/

/-- What holds between the steps. -/
def InStep (s : FifoManager) : Prop :=
  Behind is_wii (shape s.g_preprocess_cp_state) s.pushes (shapes s.preprocessed) [] s

section
variable {is_wii} {s : FifoManager}

/-- The block comes after the bytes that are read already. -/
theorem Behind.memcpy {cp : CPState} {pushes : List (List UInt8)} {calls : List (Call CPState)}
    {new : List UInt8} (behind : Behind is_wii cp pushes calls new s) (block : Nat → UInt8)
    (size : Nat) : Behind is_wii cp pushes calls new { s with
      m_video_buffer := memcpy s.m_video_buffer s.m_video_buffer_write_ptr block size } := by
  have read_le := behind.read_le
  have pp_read_le := behind.pp_read_le
  obtain ⟨needed, pieces, rest, aux, consumes, popped, executed⟩ := behind.left
  have stopped : Stopped is_wii (fun i => DeterministicFifo.memcpy s.m_video_buffer
      s.m_video_buffer_write_ptr block size (s.m_video_buffer_pp_read_ptr + i))
      (s.m_video_buffer_write_ptr - s.m_video_buffer_pp_read_ptr) cp :=
    behind.stopped.congr fun i bound => (memcpy_before _ _ _ (by omega)).symm
  have window : Consumes is_wii (fun i => DeterministicFifo.memcpy s.m_video_buffer
      s.m_video_buffer_write_ptr block size (s.m_video_buffer_read_ptr + i))
      (s.m_video_buffer_write_ptr - s.m_video_buffer_read_ptr) (shape s.g_main_cp_state) cp needed
      pieces (s.m_video_buffer_pp_read_ptr - s.m_video_buffer_read_ptr) rest :=
    consumes.congr fun i bound => (memcpy_before _ _ _ (by omega)).symm
  exact { behind with
    left := ⟨needed, pieces, rest, aux, window, popped, executed⟩
    stopped := stopped
    idle := fun idle => { behind.idle idle with stopped := stopped } }

/-- The bytes of the block are run, after what the main pass has left of the ones before. -/
theorem Behind.next {cp : CPState} {pushes pieces : List (List UInt8)}
    {before calls : List (Call CPState)} {new : List UInt8} {size : Nat} {cp' : CPState}
    (behind : Behind is_wii cp pushes before new s) (more : Nat)
    (consumes : Consumes is_wii (fun i => s.m_video_buffer (s.m_video_buffer_pp_read_ptr + i))
      (s.m_video_buffer_write_ptr + more - s.m_video_buffer_pp_read_ptr) cp cp' new pieces size
      calls) :
    ∃ needed pieces' rest, auxBytes s = needed ∧
      Consumes is_wii (fun i => s.m_video_buffer (s.m_video_buffer_read_ptr + i))
        (s.m_video_buffer_write_ptr + more - s.m_video_buffer_read_ptr) (shape s.g_main_cp_state)
        cp' needed pieces' (s.m_video_buffer_pp_read_ptr + size - s.m_video_buffer_read_ptr) rest ∧
      s.pops ++ pieces' = pushes ++ pieces ∧
      mergeNops (shapes s.executed ++ rest) = mergeNops (before ++ calls) := by
  have read_le := behind.read_le
  have pp_read_le := behind.pp_read_le
  obtain ⟨needed, pieces', rest, aux, first, popped, executed⟩ := behind.left
  refine ⟨needed ++ new, pieces' ++ pieces, rest ++ calls, aux, ?_, ?_, ?_⟩
  · have shift : (fun i => s.m_video_buffer (s.m_video_buffer_read_ptr +
        (s.m_video_buffer_pp_read_ptr - s.m_video_buffer_read_ptr + i))) =
        fun i => s.m_video_buffer (s.m_video_buffer_pp_read_ptr + i) := by
      funext i
      congr 1
      omega
    have second : Consumes is_wii (fun i => s.m_video_buffer (s.m_video_buffer_read_ptr +
        (s.m_video_buffer_pp_read_ptr - s.m_video_buffer_read_ptr + i)))
        (s.m_video_buffer_write_ptr - s.m_video_buffer_read_ptr + more -
          (s.m_video_buffer_pp_read_ptr - s.m_video_buffer_read_ptr)) cp cp' new pieces size
        calls := by
      rw [shift, show s.m_video_buffer_write_ptr - s.m_video_buffer_read_ptr + more -
        (s.m_video_buffer_pp_read_ptr - s.m_video_buffer_read_ptr) =
          s.m_video_buffer_write_ptr + more - s.m_video_buffer_pp_read_ptr by omega]
      exact consumes
    have both := first.trans second
    rw [show s.m_video_buffer_write_ptr - s.m_video_buffer_read_ptr + more =
        s.m_video_buffer_write_ptr + more - s.m_video_buffer_read_ptr by omega,
      show s.m_video_buffer_pp_read_ptr - s.m_video_buffer_read_ptr + size =
        s.m_video_buffer_pp_read_ptr + size - s.m_video_buffer_read_ptr by omega] at both
    exact both
  · rw [← List.append_assoc, popped]
  · rw [← List.append_assoc]
    exact mergeNops_append_congr executed rfl

theorem inStep_preprocessBlock (memory : Memory) (block : Nat → UInt8) (inStep : InStep is_wii s)
    (fine : (preprocessBlock is_wii memory block s).failed = false) :
    InStep is_wii (preprocessBlock is_wii memory block s) := by
  have copied := Behind.memcpy inStep block GATHER_PIPE_SIZE
  unfold preprocessBlock at fine ⊢
  dsimp only at fine ⊢
  have replays := (@replaying is_wii memory).run
    (fun i => memcpy s.m_video_buffer s.m_video_buffer_write_ptr block GATHER_PIPE_SIZE
      (s.m_video_buffer_pp_read_ptr + i))
    (s.m_video_buffer_write_ptr + GATHER_PIPE_SIZE - s.m_video_buffer_pp_read_ptr)
    { s with
      m_video_buffer := memcpy s.m_video_buffer s.m_video_buffer_write_ptr block GATHER_PIPE_SIZE }
  have ends := @run_rest _ (preprocessCallback is_wii memory)
    (fun i => memcpy s.m_video_buffer s.m_video_buffer_write_ptr block GATHER_PIPE_SIZE
      (s.m_video_buffer_pp_read_ptr + i))
    (s.m_video_buffer_write_ptr + GATHER_PIPE_SIZE - s.m_video_buffer_pp_read_ptr)
    { s with
      m_video_buffer := memcpy s.m_video_buffer s.m_video_buffer_write_ptr block GATHER_PIPE_SIZE }
  generalize Run (preprocessCallback is_wii memory) _ _ _ = result at *
  obtain ⟨size, state, calls⟩ := result
  obtain ⟨size_le, stops⟩ := ends
  obtain failed | ⟨new, pieces, pushed, replayed⟩ := replays
  · exact absurd failed (by rw [fine]; exact Bool.false_ne_true)
  have behind : Behind is_wii (shape s.g_preprocess_cp_state) s.pushes (shapes s.preprocessed) new
      state := pushed.behind _ _ _ [] copied
  have pushes := pushed.pushes
  have buffer := pushed.buffer
  have write_ptr := pushed.write_ptr
  have pp_read_ptr := pushed.pp_read_ptr
  have seen_le := behind.seen_le
  have read_le := behind.read_le
  have pp_read_le := inStep.pp_read_le
  dsimp only at size_le stops pushes buffer write_ptr pp_read_ptr seen_le read_le
  have consumed : Consumes is_wii
      (fun i => state.m_video_buffer (state.m_video_buffer_pp_read_ptr + i))
      (state.m_video_buffer_write_ptr + GATHER_PIPE_SIZE - state.m_video_buffer_pp_read_ptr)
      (shape s.g_preprocess_cp_state) (shape state.g_preprocess_cp_state) new pieces size
      (calls.map preprocessShape) := by
    intro extra popped
    obtain ⟨sizes, states, mapped⟩ := replayed extra popped
    rw [buffer, write_ptr, pp_read_ptr]
    exact ⟨sizes, states, congrArg mergeNops mapped⟩
  obtain ⟨needed, pieces', rest, aux, consumes, popped, executed⟩ :=
    behind.next GATHER_PIPE_SIZE consumed
  rw [write_ptr, pp_read_ptr] at consumes
  have stopped : decode (readerCallback is_wii)
      (fun i => state.m_video_buffer (s.m_video_buffer_pp_read_ptr + size + i))
      (s.m_video_buffer_write_ptr + GATHER_PIPE_SIZE - (s.m_video_buffer_pp_read_ptr + size))
      ⟨shape state.g_preprocess_cp_state, [], [], false⟩ = none := by
    rw [buffer, ← stops, Nat.sub_sub]
    simp only [Nat.add_assoc]
    exact decode_of_sizes rfl _ _
  have block_pos : 0 < GATHER_PIPE_SIZE := by decide
  exact {
    read_le := by dsimp only; omega
    pp_read_le := by dsimp only; omega
    seen_le := by dsimp only; omega
    aux_le := behind.aux_le
    left := by
      refine ⟨needed, pieces', rest, by rw [List.append_nil]; exact aux, consumes, ?_, ?_⟩
      · exact popped.trans pushes.symm
      · dsimp only
        rw [executed, shapes, shapes, List.map_append, List.map_map]
        rfl
    stopped := stopped
    idle := fun idle => by
      dsimp only at idle
      omega
    calm := behind.calm }

/-! ## Runs -/

theorem inStep_gpu (inStep : InStep is_wii s) : InStep is_wii (RunGpuLoop is_wii s) := by
  have even := (Behind.runGpuLoop inStep).behind
  obtain ⟨_, _, _, _, _, _, frame⟩ := runGpuLoop_frame is_wii s
  rw [frame] at even ⊢
  exact even

theorem inStep_sync (inStep : InStep is_wii s) : InStep is_wii (SyncGPU is_wii true s) ∧
    (SyncGPU is_wii true s).m_video_buffer_pp_read_ptr =
      (SyncGPU is_wii true s).m_video_buffer_read_ptr := by
  have even := Behind.runGpuLoop inStep
  have preprocess := runGpuLoop_preprocess is_wii s
  have pushes : (RunGpuLoop is_wii s).pushes = s.pushes ∧
      (RunGpuLoop is_wii s).preprocessed = s.preprocessed := by
    obtain ⟨_, _, _, _, _, _, frame⟩ := runGpuLoop_frame is_wii s
    rw [frame]
    exact ⟨rfl, rfl⟩
  refine ⟨?_, rfl⟩
  unfold SyncGPU InStep
  generalize RunGpuLoop is_wii s = turned at *
  have moved := even.moveAux
  have synced : turned.m_fifo_aux_write_ptr = turned.m_fifo_aux_read_ptr := by
    have aux_le := even.aux_le
    have length := congrArg List.length even.aux
    rw [auxBytes, length_bytes, List.length_nil] at length
    omega
  dsimp only
  rw [if_pos rfl, preprocess, pushes.1, pushes.2]
  refine Even.behind ?_
  exact {
    read_eq := rfl
    pp_read_le := Nat.zero_le _
    seen_eq := rfl
    aux_le := Nat.zero_le _
    aux := moved.aux
    cp_eq := even.cp_eq
    pops := even.pops
    executed := even.executed
    stopped := even.stopped.congr fun i bound => by
      dsimp only
      rw [Nat.zero_add, memmove_apply _ _ bound]
    calm := by simp [even.calm, synced] }

theorem inStep_read (memory : Memory) (block : Nat → UInt8) (inStep : InStep is_wii s)
    (fine : (ReadDataFromFifoOnCPU is_wii memory block s).failed = false) :
    InStep is_wii (ReadDataFromFifoOnCPU is_wii memory block s) := by
  obtain ⟨synced, same⟩ := inStep_sync inStep
  unfold ReadDataFromFifoOnCPU at fine ⊢
  dsimp only at fine ⊢
  rw [if_neg (not_not_intro same)] at fine ⊢
  split_ifs at fine ⊢
  · exact synced
  · exact inStep_preprocessBlock memory block synced fine
  · exact inStep_preprocessBlock memory block inStep fine

/-- A failure stays noted. -/
theorem preprocessBlock_failed (memory : Memory) (block : Nat → UInt8) (failed : s.failed = true) :
    (preprocessBlock is_wii memory block s).failed = true :=
  run_keeps (P := fun s : FifoManager => s.failed = true) (preprocess_failed memory) _ _ failed

theorem sync_failed (may_move_read_ptr : Bool) (s : FifoManager) :
    (SyncGPU is_wii may_move_read_ptr s).failed = s.failed := by
  rw [← runGpuLoop_failed is_wii s]
  unfold SyncGPU
  dsimp only
  split <;> rfl

theorem step_failed {s' : FifoManager} {a : Act} (next : step is_wii a s = some s')
    (failed : s.failed = true) : s'.failed = true := by
  cases a with
  | block memory block turns =>
      cases next
      unfold ReadDataFromFifoOnCPU
      dsimp only
      split_ifs
      · exact (sync_failed true _).trans failed
      · exact (sync_failed true _).trans failed
      · exact preprocessBlock_failed memory block ((sync_failed true _).trans failed)
      · exact preprocessBlock_failed memory block failed
  | gpu =>
      cases next
      exact (runGpuLoop_failed is_wii s).trans failed
  | sync =>
      cases next
      exact (sync_failed true s).trans failed

theorem step_inStep {s' : FifoManager} {a : Act} (inStep : InStep is_wii s)
    (next : step is_wii a s = some s') (fine : s'.failed = false) : InStep is_wii s' := by
  cases a with
  | block memory block turns =>
      cases next
      refine inStep_read memory block ?_ fine
      exact { inStep with idle := fun idle => { inStep.idle idle with } }
  | gpu =>
      cases next
      exact inStep_gpu inStep
  | sync =>
      cases next
      exact (inStep_sync inStep).1

theorem inStep_reset (buffer aux : Nat → UInt8) (cp : CPState) :
    InStep is_wii (reset buffer aux cp) := by
  refine Even.behind (?_ : Even is_wii (shape cp) [] [] [] (reset buffer aux cp))
  exact {
    read_eq := rfl
    pp_read_le := le_refl _
    seen_eq := rfl
    aux_le := le_refl _
    aux := rfl
    cp_eq := rfl
    pops := rfl
    executed := rfl
    stopped := by
      show decode _ _ 0 _ = none
      rw [decode_eq, if_pos (by decide)]
    calm := rfl }

end

/-- As long as every range is mapped and has room in the auxiliary buffer, the main pass pops what
the preprocess pass has pushed, in the same order, and makes the same calls in the same states, up
to the cuts of the NOPs and the matrix indices. When it has caught up, nothing is left in the
auxiliary buffer. -/
theorem passes_in_step (buffer aux : Nat → UInt8) (cp : CPState) {s : FifoManager}
    (run : Reaches (step is_wii) (fun _ _ => True) (reset buffer aux cp) s)
    (fine : s.failed = false) :
    s.pops <+: s.pushes ∧
      (∃ rest, mergeNops (shapes s.executed ++ rest) = mergeNops (shapes s.preprocessed)) ∧
      (s.m_video_buffer_seen_ptr = s.m_video_buffer_write_ptr →
        s.m_fifo_aux_read_ptr = s.m_fifo_aux_write_ptr ∧ s.pops = s.pushes ∧
        s.m_video_buffer_read_ptr = s.m_video_buffer_pp_read_ptr ∧
        shape s.g_main_cp_state = shape s.g_preprocess_cp_state ∧
        mergeNops (shapes s.executed) = mergeNops (shapes s.preprocessed)) ∧
      s.panicked = false := by
  have inStep : s.failed = true ∨ InStep is_wii s := by
    refine run.invariant (I := fun s => s.failed = true ∨ InStep is_wii s)
      (.inr (inStep_reset buffer aux cp)) fun a s s' inv _ next => ?_
    obtain failed | inStep := inv
    · exact .inl (step_failed next failed)
    · cases fine' : s'.failed with
      | true => exact .inl rfl
      | false => exact .inr (step_inStep inStep next fine')
  obtain failed | inStep := inStep
  · exact absurd (fine.symm.trans failed) Bool.false_ne_true
  obtain ⟨_, pieces, rest, _, _, popped, executed⟩ := inStep.left
  refine ⟨⟨pieces, popped⟩, ⟨rest, executed⟩, fun idle => ?_, inStep.calm⟩
  have even := inStep.idle idle
  have length := congrArg List.length even.aux
  have aux_le := even.aux_le
  rw [auxBytes, length_bytes, List.length_nil] at length
  exact ⟨by omega, even.pops, even.read_eq, even.cp_eq, even.executed⟩

/-! ## Single commands -/

/-- A command, and NOPs up to the end of the block. -/
theorem run_one {S : Type} {c : Callback S} {data : Nat → UInt8} {available size : Nat} {s : S}
    {event : Event} (decoded : decode c data available s = some (event, size))
    (nops : decode c (fun i => data (size + i)) (available - size) (c.on event s).1 =
      some (.onNop (available - size), available - size)) :
    (Run c data available s).state = (c.on event s).1 ∧
      (Run c data available s).size = available := by
  have bounds := decode_size decoded
  rw [run_some decoded, run_some nops, Nat.sub_self, run_zero, c.on_nop]
  refine ⟨rfl, ?_⟩
  dsimp only [andThen]
  omega

/-- Both passes, before anything was written. -/
def empty : FifoManager :=
  reset (fun _ => 0) (fun _ => 0) ⟨fun _ => 0, fun _ => 0, 0, 0, 0, 0, fun _ => ⟨0, 0, 0⟩⟩

/-- The memory holds the place of each byte in its range. -/
def places : Memory := fun _ _ => some fun i => UInt8.ofNat i

/-- A load of one word from an array. -/
def indexedBlock (i : Nat) : UInt8 := [0x20].getD i 0

def xfBlock (i : Nat) : UInt8 := [0x10, 0, 0, 0x10, 0x18, 0, 0, 0, 1].getD i 0

/-- The buffer with a block in front. -/
def front (block : Nat → UInt8) (i : Nat) : UInt8 := memcpy (fun _ => 0) 0 block 32 (0 + i)

theorem run_indexedBlock {S : Type} (c : Callback S) (s : S) :
    (Run c (front indexedBlock) 32 s).state = (c.on (.onIndexedLoad 12 0 0 1) s).1 ∧
      (Run c (front indexedBlock) 32 s).size = 32 := by
  have command : commandAt c (front indexedBlock) s = (.onIndexedLoad 12 0 0 1, 5) := by
    unfold commandAt
    dsimp only
    rw [if_neg (by decide), if_neg (by decide), if_pos (by decide)]
    rfl
  refine run_one (?_ : decode c (front indexedBlock) 32 s = some (.onIndexedLoad 12 0 0 1, 5)) ?_
  · rw [decode_eq, if_neg (by decide), if_neg (by decide), command]
    rfl
  · rw [decode_eq, if_neg (by decide), if_pos (by decide)]
    have nops : countNops (fun i => front indexedBlock (5 + i)) 1 26 = 27 := by decide
    rw [nops]

theorem run_xfBlock {S : Type} (c : Callback S) (s : S) :
    (Run c (front xfBlock) 32 s).state = (c.on (.onXF 0x1018 1 [0, 0, 0, 1]) s).1 ∧
      (Run c (front xfBlock) 32 s).size = 32 := by
  have command : commandAt c (front xfBlock) s = (.onXF 0x1018 1 [0, 0, 0, 1], 9) := by
    unfold commandAt
    dsimp only
    rw [if_neg (by decide), if_pos (by decide)]
    rfl
  refine run_one
    (?_ : decode c (front xfBlock) 32 s = some (.onXF 0x1018 1 [0, 0, 0, 1], 9)) ?_
  · rw [decode_eq, if_neg (by decide), if_neg (by decide), command]
    rfl
  · rw [decode_eq, if_neg (by decide), if_pos (by decide)]
    have nops : countNops (fun i => front xfBlock (9 + i)) 1 22 = 23 := by decide
    rw [nops]

/-- The buffers with a block that has been copied. -/
def withBlock (block : Nat → UInt8) : FifoManager :=
  { empty with m_video_buffer := memcpy (fun _ => 0) 0 block 32 }

theorem read_first (block : Nat → UInt8) {event : Event}
    (run : (Run (preprocessCallback false places) (front block) 32 (withBlock block)).state =
        ((preprocessCallback false places).on event (withBlock block)).1 ∧
      (Run (preprocessCallback false places) (front block) 32 (withBlock block)).size = 32) :
    ∃ calls, ReadDataFromFifoOnCPU false places block empty =
      { ((preprocessCallback false places).on event (withBlock block)).1 with
        m_video_buffer_pp_read_ptr := 32
        m_video_buffer_write_ptr := 32
        preprocessed := calls } := by
  refine ⟨(Run (preprocessCallback false places) (front block) 32 (withBlock block)).calls.map
    (Call.within FifoManager.g_preprocess_cp_state), ?_⟩
  have read : ReadDataFromFifoOnCPU false places block empty =
      preprocessBlock false places block empty := if_neg (by decide)
  have result : preprocessBlock false places block empty =
      { (Run (preprocessCallback false places) (front block) 32 (withBlock block)).state with
        m_video_buffer_pp_read_ptr := 0 +
          (Run (preprocessCallback false places) (front block) 32 (withBlock block)).size
        m_video_buffer_write_ptr := 32
        preprocessed := (Run (preprocessCallback false places) (front block) 32
          (withBlock block)).calls.map (Call.within FifoManager.g_preprocess_cp_state) } := rfl
  rw [read, result, run.1, run.2]

/-- The GPU thread's turn over the block. -/
theorem turn_first (block : Nat → UInt8) {event : Event} {s : FifoManager}
    (fresh : s.m_video_buffer_read_ptr = 0 ∧ s.m_video_buffer_seen_ptr = 0 ∧
      s.m_video_buffer_write_ptr = 32 ∧ s.m_video_buffer = memcpy (fun _ => 0) 0 block 32)
    (run : (Run (mainCallback false) (front block) 32 s).state =
      ((mainCallback false).on event s).1) :
    ∃ size calls, RunGpuLoop false s = { ((mainCallback false).on event s).1 with
      m_video_buffer_read_ptr := size
      m_video_buffer_seen_ptr := 32
      executed := calls } := by
  obtain ⟨read, seen, write, buffer⟩ := fresh
  unfold RunGpuLoop
  dsimp only
  rw [if_pos (by omega), read, write, buffer, ← run]
  exact ⟨_, _, rfl⟩

/-- A load of the transform unit's matrix index changes the state of the main pass alone. -/
theorem matrix_index_differs : ∃ s,
    Reaches (step false) (fun _ _ => True) empty s ∧ s.failed = false ∧
      s.m_video_buffer_seen_ptr = s.m_video_buffer_write_ptr ∧
      s.g_main_cp_state.matrix_index_a = 1 ∧ s.g_preprocess_cp_state.matrix_index_a = 0 := by
  refine ⟨RunGpuLoop false (ReadDataFromFifoOnCPU false places xfBlock empty),
    (Reaches.refl.tail (a := .block places xfBlock []) trivial rfl).tail (a := .gpu) trivial rfl,
    ?_⟩
  obtain ⟨calls, read⟩ := read_first xfBlock (run_xfBlock _ _)
  obtain ⟨size, calls', turn⟩ := turn_first xfBlock (by rw [read]; exact ⟨rfl, rfl, rfl, rfl⟩)
    (run_xfBlock (mainCallback false) (ReadDataFromFifoOnCPU false places xfBlock empty)).1
  rw [turn, read]
  exact ⟨rfl, rfl, rfl, rfl⟩

/-- A word is loaded from an array, and the GPU thread catches up. -/
theorem passes_in_step_indexed : ∃ s,
    Reaches (step false) (fun _ _ => True) empty s ∧ s.pops = [[0, 1, 2, 3]] ∧
      s.m_fifo_aux_read_ptr = s.m_fifo_aux_write_ptr ∧ s.panicked = false := by
  have reached : Reaches (step false) (fun _ _ => True) empty
      (RunGpuLoop false (ReadDataFromFifoOnCPU false places indexedBlock empty)) :=
    (Reaches.refl.tail (a := .block places indexedBlock []) trivial rfl).tail (a := .gpu) trivial
      rfl
  obtain ⟨calls, read⟩ := read_first indexedBlock (run_indexedBlock _ _)
  obtain ⟨size, calls', turn⟩ := turn_first indexedBlock (by rw [read]; exact ⟨rfl, rfl, rfl, rfl⟩)
    (run_indexedBlock (mainCallback false)
      (ReadDataFromFifoOnCPU false places indexedBlock empty)).1
  have all := passes_in_step false (fun _ => 0) (fun _ => 0) _ reached (by rw [turn, read]; rfl)
  have even := all.2.2.1 (by rw [turn, read]; rfl)
  refine ⟨_, reached, ?_, even.1, all.2.2.2⟩
  rw [even.2.1, turn, read]
  rfl

end Phocoena.DeterministicFifo
