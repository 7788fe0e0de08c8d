import Phocoena.VideoCommon.DeterministicFifo

/-! # The decoder with a tape

Both passes are runs of one decoder, which reads the memory of its loads from a tape. The main
pass is such a run: its tape is what is between the pointers of the auxiliary buffer.
-/

namespace Phocoena.DeterministicFifo

open CPMemory OpcodeDecoder

/-! ## The decoder with a tape -/

/-- The state without the matrix indices, which the transform unit's loads change in one pass. -/
def shape (cp : CPState) : CPState := { cp with matrix_index_a := 0, matrix_index_b := 0 }

theorem shape_loadCPReg (is_wii : Bool) (command value : Nat) (cp : CPState) :
    shape ((shape cp).LoadCPReg is_wii command value) =
      shape (cp.LoadCPReg is_wii command value) := by
  simp only [CPState.LoadCPReg]
  split <;> rfl

structure Reader where
  cp : CPState
  tape : List UInt8
  popped : List (List UInt8)
  /-- the tape was too short -/
  short : Bool

def Reader.pop (size : Nat) (t : Reader) : Reader :=
  { t with
    tape := t.tape.drop size
    popped := t.popped ++ [t.tape.take size]
    short := t.short || decide (t.tape.length < size) }

def onReader (is_wii : Bool) (event : Event) (t : Reader) : Reader :=
  match event with
  | .onCP command value => { t with cp := shape (t.cp.LoadCPReg is_wii command value) }
  | .onIndexedLoad _ _ _ size => t.pop (size * 4)
  | _ => t

def readerListCallback (is_wii : Bool) : Callback Reader where
  on event t := (onReader is_wii event t, [])
  GetVertexSize t := t.cp.GetVertexSize
  in_display_list := true
  on_nop _ _ := rfl
  vertexSize_le t := t.cp.vertexSize_le

def readerCallback (is_wii : Bool) : Callback Reader where
  on event t :=
    match event with
    | .onDisplayList _ size =>
        let result := Run (readerListCallback is_wii) (dataOf (t.tape.take size)) size (t.pop size)
        (result.state, result.calls)
    | _ => (onReader is_wii event t, [])
  GetVertexSize t := t.cp.GetVertexSize
  in_display_list := false
  on_nop _ _ := rfl
  vertexSize_le t := t.cp.vertexSize_le

variable (is_wii : Bool)

theorem onReader_short {event : Event} {t : Reader} (short : t.short = true) :
    (onReader is_wii event t).short = true := by
  cases event <;> simp [onReader, Reader.pop, short]

theorem readerList_short (event : Event) (t : Reader) (short : ¬ t.short = false) :
    ¬ ((readerListCallback is_wii).on event t).1.short = false := by
  simp only [Bool.not_eq_false] at short ⊢
  exact onReader_short is_wii short

theorem reader_short (event : Event) (t : Reader) (short : ¬ t.short = false) :
    ¬ ((readerCallback is_wii).on event t).1.short = false := by
  cases event
  case onDisplayList address size =>
    refine run_keeps (P := fun t : Reader => ¬ t.short = false) (readerList_short is_wii) _ _ ?_
    simp only [Bool.not_eq_false] at short ⊢
    simp [Reader.pop, short]
  all_goals
    simp only [Bool.not_eq_false] at short ⊢
    exact onReader_short is_wii short

/-! ## The main pass reads the tape -/

/-- What the main pass does not change. -/
def OnlyMain (s s' : FifoManager) : Prop :=
  ∃ main aux_read pops, s' = { s with
    g_main_cp_state := main
    m_fifo_aux_read_ptr := aux_read
    pops := pops }

theorem OnlyMain.refl (s : FifoManager) : OnlyMain s s := ⟨_, _, _, rfl⟩

theorem onlyMain_onMain {s₀ s : FifoManager} (event : Event) (only : OnlyMain s₀ s) :
    OnlyMain s₀ (onMain is_wii event s) := by
  obtain ⟨main, aux_read, pops, rfl⟩ := only
  cases event <;> exact ⟨_, _, _, rfl⟩

theorem onlyMain_on {s₀ s : FifoManager} (event : Event) (only : OnlyMain s₀ s) :
    OnlyMain s₀ ((mainCallback is_wii).on event s).1 := by
  have others := onlyMain_onMain is_wii event only
  cases event
  case onDisplayList address size =>
    obtain ⟨main, aux_read, pops, rfl⟩ := only
    exact run_keeps (c := mainListCallback is_wii) (P := OnlyMain s₀)
      (fun event _ only => onlyMain_onMain is_wii event only) _ _ ⟨_, _, _, rfl⟩
  all_goals exact others

/-- What is between the pointers of the auxiliary buffer. -/
def auxBytes (s : FifoManager) : List UInt8 :=
  bytes s.m_fifo_aux_data s.m_fifo_aux_read_ptr (s.m_fifo_aux_write_ptr - s.m_fifo_aux_read_ptr)

structure Follows (s : FifoManager) (t : Reader) : Prop where
  cp : shape s.g_main_cp_state = t.cp
  bound : s.m_fifo_aux_read_ptr ≤ s.m_fifo_aux_write_ptr
  tape : auxBytes s = t.tape
  popped : s.pops = t.popped

theorem length_bytes (data : Nat → UInt8) (start count : Nat) :
    (bytes data start count).length = count := by
  simp [bytes]

theorem take_bytes (data : Nat → UInt8) (start : Nat) {count size : Nat} (le : size ≤ count) :
    (bytes data start count).take size = bytes data start size := by
  obtain ⟨more, rfl⟩ := Nat.exists_eq_add_of_le le
  rw [bytes_append, List.take_append_of_le_length (length_bytes ..).ge, List.take_of_length_le
    (length_bytes ..).le]

theorem drop_bytes (data : Nat → UInt8) (start : Nat) {count size : Nat} (le : size ≤ count) :
    (bytes data start count).drop size = bytes data (start + size) (count - size) := by
  obtain ⟨more, rfl⟩ := Nat.exists_eq_add_of_le le
  rw [bytes_append, List.drop_append_of_le_length (length_bytes ..).ge, List.drop_of_length_le
    (length_bytes ..).le, List.nil_append, Nat.add_sub_cancel_left]

theorem dataOf_bytes (data : Nat → UInt8) (start : Nat) {count i : Nat} (bound : i < count) :
    dataOf (bytes data start count) i = data (start + i) := by
  simp [dataOf, bytes, bound]

theorem Follows.pop {s : FifoManager} {t : Reader} (follows : Follows s t) {size : Nat}
    (enough : (t.pop size).short = false) :
    Follows (PopFifoAuxBuffer size s).2 (t.pop size) ∧
      t.tape.take size = bytes s.m_fifo_aux_data s.m_fifo_aux_read_ptr size := by
  have le : size ≤ s.m_fifo_aux_write_ptr - s.m_fifo_aux_read_ptr := by
    simp only [Reader.pop, Bool.or_eq_false_iff, decide_eq_false_iff_not, ← follows.tape, auxBytes,
      length_bytes, not_lt] at enough
    exact enough.2
  have bound := follows.bound
  have taken : t.tape.take size = bytes s.m_fifo_aux_data s.m_fifo_aux_read_ptr size := by
    rw [← follows.tape, auxBytes, take_bytes _ _ le]
  refine ⟨⟨follows.cp, ?_, ?_, ?_⟩, taken⟩
  · dsimp only [PopFifoAuxBuffer]
    omega
  · simp only [PopFifoAuxBuffer, Reader.pop, auxBytes, ← follows.tape, drop_bytes _ _ le,
      Nat.sub_sub]
  · simp only [PopFifoAuxBuffer, Reader.pop, follows.popped, taken, bytes_shift, Nat.add_zero]

theorem follows_onMain {s : FifoManager} {t : Reader} (event : Event) (follows : Follows s t)
    (enough : (onReader is_wii event t).short = false) :
    Follows (onMain is_wii event s) (onReader is_wii event t) := by
  cases event
  case onCP command value =>
    refine ⟨?_, follows.bound, follows.tape, follows.popped⟩
    dsimp only [onMain, onReader]
    rw [← follows.cp, shape_loadCPReg]
  case onIndexedLoad array index address size => exact (follows.pop enough).1
  all_goals exact ⟨follows.cp, follows.bound, follows.tape, follows.popped⟩

def mainShape : Call FifoManager → Call CPState :=
  Call.within fun s => shape s.g_main_cp_state

theorem mainList_simulates : Simulates Follows (fun t => t.short = false) mainShape
    (Call.within Reader.cp) (mainListCallback is_wii) (readerListCallback is_wii) where
  sizes s t follows := by
    show s.g_main_cp_state.GetVertexSize = t.cp.GetVertexSize
    rw [← follows.cp]
    rfl
  sticky := readerList_short is_wii
  on event s t follows enough := ⟨follows_onMain is_wii event follows enough, rfl⟩
  own event command s t follows := by
    simp only [mainShape, Call.within, follows.cp]
    rfl

theorem main_simulates : Simulates Follows (fun t => t.short = false) mainShape
    (Call.within Reader.cp) (mainCallback is_wii) (readerCallback is_wii) where
  sizes s t follows := by
    show s.g_main_cp_state.GetVertexSize = t.cp.GetVertexSize
    rw [← follows.cp]
    rfl
  sticky := reader_short is_wii
  on event s t follows enough := by
    cases event
    case onDisplayList address size =>
      have popped : (t.pop size).short = false := by
        by_contra short
        exact run_keeps (P := fun t : Reader => ¬ t.short = false) (readerList_short is_wii) _ _
          short enough
      obtain ⟨follows', taken⟩ := follows.pop popped
      have same : Run (readerListCallback is_wii) (dataOf (t.tape.take size)) size (t.pop size) =
          Run (readerListCallback is_wii)
            (fun i => s.m_fifo_aux_data (s.m_fifo_aux_read_ptr + i)) size (t.pop size) := by
        refine run_congr fun i bound => ?_
        rw [taken, dataOf_bytes _ _ bound]
      simp only [readerCallback, same] at enough ⊢
      exact ((mainList_simulates is_wii).run follows' enough).2
    all_goals exact ⟨follows_onMain is_wii _ follows enough, rfl⟩
  own event command s t follows := by
    simp only [mainShape, Call.within, follows.cp]
    rfl

/-! ## What is between the passes -/

/-- A run over the bytes uses up `needed`, whatever comes after it on the tape. -/
def Consumes (data : Nat → UInt8) (available : Nat) (cp cp' : CPState) (needed : List UInt8)
    (pieces : List (List UInt8)) (size : Nat) (calls : List (Call CPState)) : Prop :=
  ∀ extra popped,
    let result := Run (readerCallback is_wii) data available ⟨cp, needed ++ extra, popped, false⟩
    result.size = size ∧ result.state = ⟨cp', extra, popped ++ pieces, false⟩ ∧
      mergeNops (result.calls.map (Call.within Reader.cp)) = mergeNops calls

/-- There is no command yet. -/
def Stopped (data : Nat → UInt8) (available : Nat) (cp : CPState) : Prop :=
  decode (readerCallback is_wii) data available ⟨cp, [], [], false⟩ = none

section
variable {is_wii} {data data' : Nat → UInt8} {available : Nat} {cp cp' : CPState}

theorem Stopped.decode (stopped : Stopped is_wii data available cp) {t : Reader}
    (same : t.cp = cp) :
    OpcodeDecoder.decode (readerCallback is_wii) data available t = none := by
  rw [← stopped]
  refine decode_of_sizes ?_ data available
  show t.cp.GetVertexSize = cp.GetVertexSize
  rw [same]

theorem Stopped.consumes (stopped : Stopped is_wii data available cp) :
    Consumes is_wii data available cp cp [] [] 0 [] := by
  intro extra popped
  dsimp only
  rw [run_none (stopped.decode rfl)]
  exact ⟨rfl, by rw [List.nil_append, List.append_nil], rfl⟩

theorem Stopped.congr (stopped : Stopped is_wii data available cp)
    (same : ∀ i < available, data i = data' i) : Stopped is_wii data' available cp :=
  (decode_congr same).symm.trans stopped

theorem Consumes.congr {needed : List UInt8} {pieces : List (List UInt8)} {size : Nat}
    {calls : List (Call CPState)} (same : ∀ i < available, data i = data' i)
    (consumes : Consumes is_wii data available cp cp' needed pieces size calls) :
    Consumes is_wii data' available cp cp' needed pieces size calls := by
  intro extra popped
  rw [← run_congr same]
  exact consumes extra popped

/-- A run that goes on where another one has stopped. -/
theorem Consumes.trans {cp'' : CPState} {needed needed' : List UInt8}
    {pieces pieces' : List (List UInt8)} {size size' more : Nat}
    {calls calls' : List (Call CPState)}
    (first : Consumes is_wii data available cp cp' needed pieces size calls)
    (second : Consumes is_wii (fun i => data (size + i)) (available + more - size) cp' cp'' needed'
      pieces' size' calls') :
    Consumes is_wii data (available + more) cp cp'' (needed ++ needed') (pieces ++ pieces')
      (size + size') (calls ++ calls') := by
  intro extra popped
  obtain ⟨sizes₁, state₁, calls₁⟩ := first (needed' ++ extra) popped
  obtain ⟨sizes₂, state₂, calls₂⟩ := second extra (popped ++ pieces)
  have cut := @run_cut _ (readerCallback is_wii) data available more
    ⟨cp, needed ++ needed' ++ extra, popped, false⟩
  rw [List.append_assoc] at cut
  rw [sizes₁, state₁] at cut
  dsimp only
  rw [List.append_assoc]
  refine ⟨?_, ?_, ?_⟩
  · rw [cut.size]
    exact congrArg₂ (· + ·) sizes₁ sizes₂
  · rw [cut.state, ← List.append_assoc popped]
    exact state₂
  · have merged := congrArg (List.map (Call.within Reader.cp)) cut.calls
    rw [map_mergeNops, map_mergeNops] at merged
    rw [merged]
    simp only [Result.then, List.map_append]
    exact mergeNops_append_congr calls₁ calls₂

end

/-- The calls without the matrix indices. -/
def shapes (calls : List (Call CPState)) : List (Call CPState) := calls.map (Call.within shape)

/-- The main pass has caught up. -/
structure Even (cp : CPState) (pushes : List (List UInt8)) (calls : List (Call CPState))
    (new : List UInt8) (s : FifoManager) : Prop where
  read_eq : s.m_video_buffer_read_ptr = s.m_video_buffer_pp_read_ptr
  pp_read_le : s.m_video_buffer_pp_read_ptr ≤ s.m_video_buffer_write_ptr
  seen_eq : s.m_video_buffer_seen_ptr = s.m_video_buffer_write_ptr
  aux_le : s.m_fifo_aux_read_ptr ≤ s.m_fifo_aux_write_ptr
  aux : auxBytes s = new
  cp_eq : shape s.g_main_cp_state = cp
  pops : s.pops = pushes
  executed : mergeNops (shapes s.executed) = mergeNops calls
  stopped : Stopped is_wii (fun i => s.m_video_buffer (s.m_video_buffer_pp_read_ptr + i))
    (s.m_video_buffer_write_ptr - s.m_video_buffer_pp_read_ptr) cp
  calm : s.panicked = false

/-- The main pass has what the preprocess pass had before it, and then pushed `new`: what is left
of the bytes needs the tape up to `new`. -/
structure Behind (cp : CPState) (pushes : List (List UInt8)) (calls : List (Call CPState))
    (new : List UInt8) (s : FifoManager) : Prop where
  read_le : s.m_video_buffer_read_ptr ≤ s.m_video_buffer_pp_read_ptr
  pp_read_le : s.m_video_buffer_pp_read_ptr ≤ s.m_video_buffer_write_ptr
  seen_le : s.m_video_buffer_seen_ptr ≤ s.m_video_buffer_write_ptr
  aux_le : s.m_fifo_aux_read_ptr ≤ s.m_fifo_aux_write_ptr
  left : ∃ needed pieces rest, auxBytes s = needed ++ new ∧
    Consumes is_wii (fun i => s.m_video_buffer (s.m_video_buffer_read_ptr + i))
      (s.m_video_buffer_write_ptr - s.m_video_buffer_read_ptr) (shape s.g_main_cp_state) cp needed
      pieces (s.m_video_buffer_pp_read_ptr - s.m_video_buffer_read_ptr) rest ∧
    s.pops ++ pieces = pushes ∧ mergeNops (shapes s.executed ++ rest) = mergeNops calls
  stopped : Stopped is_wii (fun i => s.m_video_buffer (s.m_video_buffer_pp_read_ptr + i))
    (s.m_video_buffer_write_ptr - s.m_video_buffer_pp_read_ptr) cp
  idle : s.m_video_buffer_seen_ptr = s.m_video_buffer_write_ptr →
    Even is_wii cp pushes calls new s
  calm : s.panicked = false

section
variable {is_wii} {cp : CPState} {pushes : List (List UInt8)} {calls : List (Call CPState)}
  {new : List UInt8} {s : FifoManager}

theorem Even.behind (even : Even is_wii cp pushes calls new s) :
    Behind is_wii cp pushes calls new s where
  read_le := even.read_eq.le
  pp_read_le := even.pp_read_le
  seen_le := even.seen_eq.le
  aux_le := even.aux_le
  left := by
    refine ⟨[], [], [], even.aux, ?_, ?_, ?_⟩
    · rw [even.read_eq, even.cp_eq, Nat.sub_self]
      exact even.stopped.consumes
    · rw [List.append_nil, even.pops]
    · rw [List.append_nil, even.executed]
  stopped := even.stopped
  idle _ := even
  calm := even.calm

/-- The GPU thread catches up in one turn. -/
theorem Behind.runGpuLoop (behind : Behind is_wii cp pushes calls new s) :
    Even is_wii cp pushes calls new (RunGpuLoop is_wii s) := by
  obtain ⟨needed, pieces, rest, aux, consumes, popped, executed⟩ := behind.left
  obtain ⟨sizes, state, called⟩ := consumes new s.pops
  unfold RunGpuLoop
  dsimp only
  split
  · rename_i unseen
    have follows : Follows s ⟨shape s.g_main_cp_state, needed ++ new, s.pops, false⟩ :=
      ⟨rfl, behind.aux_le, aux, rfl⟩
    obtain ⟨sizes', follows', calls'⟩ :=
      (main_simulates is_wii).run follows (by rw [state])
    obtain ⟨main, aux_read, pops, only⟩ := run_keeps (c := mainCallback is_wii) (P := OnlyMain s)
      (fun event _ only => onlyMain_on is_wii event only)
      (fun i => s.m_video_buffer (s.m_video_buffer_read_ptr + i))
      (s.m_video_buffer_write_ptr - s.m_video_buffer_read_ptr) (.refl s)
    have read_le := behind.read_le
    have read_eq : s.m_video_buffer_read_ptr + (Run (mainCallback is_wii)
        (fun i => s.m_video_buffer (s.m_video_buffer_read_ptr + i))
        (s.m_video_buffer_write_ptr - s.m_video_buffer_read_ptr) s).size =
          s.m_video_buffer_pp_read_ptr := by
      rw [sizes', sizes]
      omega
    rw [state] at follows'
    rw [read_eq]
    generalize Run (mainCallback is_wii) _ _ s = result at *
    obtain ⟨size, final, made⟩ := result
    subst only
    exact {
      read_eq := rfl
      pp_read_le := behind.pp_read_le
      seen_eq := rfl
      aux_le := follows'.bound
      aux := follows'.tape
      cp_eq := follows'.cp
      pops := follows'.popped.trans popped
      executed := by
        rw [← executed]
        simp only [shapes, List.map_append, List.map_map]
        refine mergeNops_append_congr rfl ?_
        rw [← called, ← calls']
        rfl
      stopped := behind.stopped
      calm := behind.calm }
  · rename_i seen
    have seen_le := behind.seen_le
    exact behind.idle (by omega)

end

end Phocoena.DeterministicFifo
