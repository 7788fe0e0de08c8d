import Phocoena.DiscIO.PurgeCompression
import Phocoena.Lib.SparseRuns

/-! # What the Purge compressor writes

The segments are the runs of a sparse sequence: a run of more than eight zeros ends a segment, so
that the eight bytes before each segment but the first are paid for, and the buffer is enough.
-/

namespace Phocoena.DiscIO

/-! ## Segments -/

/-- The bytes from `start` up to `stop`. -/
def slice (data : List Byte) (start stop : Nat) : List Byte := (data.drop start).take (stop - start)

/-- The header of the segment for a run. -/
def segmentHeader (run : Nat × Nat) : List Byte :=
  PurgeSegment.codec.encode ⟨BitVec.ofNat 32 run.1, BitVec.ofNat 32 (run.2 - run.1)⟩

def encodeRuns (data : List Byte) (runs : List (Nat × Nat)) : List Byte :=
  runs.flatMap fun run => segmentHeader run ++ slice data run.1 run.2

@[simp] theorem encodeRuns_nil (data : List Byte) : encodeRuns data [] = [] := rfl

@[simp] theorem encodeRuns_cons (data : List Byte) (run : Nat × Nat) (runs : List (Nat × Nat)) :
    encodeRuns data (run :: runs) =
      segmentHeader run ++ slice data run.1 run.2 ++ encodeRuns data runs := by
  simp [encodeRuns]

@[simp] theorem length_segmentHeader (run : Nat × Nat) : (segmentHeader run).length = 8 :=
  PurgeSegment.codec.length_encode _

theorem length_slice {data : List Byte} {start stop : Nat} (inside : stop ≤ data.length) :
    (slice data start stop).length = stop - start := by
  rw [slice, List.length_take, List.length_drop]
  omega

theorem length_encodeRuns {data : List Byte} {runs : List (Nat × Nat)}
    (inside : ∀ run ∈ runs, run.2 ≤ data.length) :
    (encodeRuns data runs).length = runsSize 8 runs := by
  induction runs with
  | nil => rfl
  | cons run runs ih =>
      have rest := ih fun next mem => inside next (List.mem_cons_of_mem run mem)
      rw [encodeRuns_cons, List.length_append, List.length_append, length_segmentHeader,
        length_slice (inside run List.mem_cons_self), rest, runsSize]

theorem length_encodeRuns_le {data : List Byte} {runs : List (Nat × Nat)}
    (sparse : SparseFrom 8 data 0 runs) : (encodeRuns data runs).length ≤ data.length + 8 := by
  rw [length_encodeRuns fun run mem => (sparse.of_mem run mem).2]
  exact sparse.size_le (Nat.le_refl 8)

/-! ## Buffers -/

theorem length_copyTo {buffer bytes : List Byte} {position : Nat}
    (room : position + bytes.length ≤ buffer.length) :
    (copyTo buffer position bytes).length = buffer.length := by
  simp only [copyTo, List.length_append, List.length_take, List.length_drop]
  omega

theorem take_copyTo {buffer bytes : List Byte} {position : Nat}
    (room : position + bytes.length ≤ buffer.length) :
    (copyTo buffer position bytes).take (position + bytes.length) =
      buffer.take position ++ bytes := by
  have length : (buffer.take position ++ bytes).length = position + bytes.length := by
    rw [List.length_append, List.length_take]
    omega
  rw [copyTo, ← length, List.take_left']
  rfl

namespace PurgeCompressor

variable {sha : SHA1}

/-- `bytes` were written. -/
structure Extends (c c' : PurgeCompressor sha) (bytes : List Byte) : Prop where
  output : c'.output = c.output ++ bytes
  written : c'.m_bytes_written = c.m_bytes_written + bytes.length
  buffer : c'.m_buffer.length = c.m_buffer.length
  context : c'.m_sha1_context = c.m_sha1_context

theorem Extends.trans {c c' c'' : PurgeCompressor sha} {bytes more : List Byte}
    (first : Extends c c' bytes) (second : Extends c' c'' more) :
    Extends c c'' (bytes ++ more) where
  output := by rw [second.output, first.output, List.append_assoc]
  written := by rw [second.written, first.written, List.length_append, Nat.add_assoc]
  buffer := by rw [second.buffer, first.buffer]
  context := by rw [second.context, first.context]

theorem write_spec {c : PurgeCompressor sha} {bytes : List Byte}
    (room : c.m_bytes_written + bytes.length ≤ c.m_buffer.length) :
    ∃ c', c.write bytes = some c' ∧ Extends c c' bytes := by
  refine ⟨_, if_pos room, ?_⟩
  exact {
    output := take_copyTo room
    written := rfl
    buffer := length_copyTo room
    context := rfl }

/-! ## Finding the segments -/

theorem firstNonZero_spec {data : List Byte} {bytes_read : Nat}
    (inside : bytes_read ≤ data.length) :
    bytes_read ≤ firstNonZero data bytes_read ∧ firstNonZero data bytes_read ≤ data.length ∧
      ZerosBetween data bytes_read (firstNonZero data bytes_read) ∧
      ∀ lt : firstNonZero data bytes_read < data.length, data[firstNonZero data bytes_read] ≠ 0 := by
  have bound : (data.drop bytes_read).findIdx (· != 0) ≤ (data.drop bytes_read).length :=
    List.findIdx_le_length
  rw [List.length_drop] at bound
  refine ⟨Nat.le_add_right _ _, by rw [firstNonZero]; omega, ?_, ?_⟩
  · intro i first last lt
    rw [firstNonZero] at last
    have before : i - bytes_read < (data.drop bytes_read).findIdx (· != 0) := by omega
    have not := List.not_of_lt_findIdx before
    have index : bytes_read + (i - bytes_read) = i := by omega
    simpa [List.getElem_drop, index] using not
  · intro lt
    have found : (data.drop bytes_read).findIdx (· != 0) < (data.drop bytes_read).length := by
      rw [List.length_drop]
      rw [firstNonZero] at lt
      omega
    have holds := @List.findIdx_getElem _ (· != 0) (data.drop bytes_read) found
    simpa [List.getElem_drop, firstNonZero] using holds

/-- Where a segment ends the data does, but for zeros, or more than eight zeros follow. -/
theorem nonZeroDataEnd_spec {data rest : List Byte} {i stop sequence : Nat}
    (here : rest = data.drop i) (inside : i ≤ data.length) (zeros : ZerosBetween data stop i)
    (count : stop + sequence = i) (few : sequence ≤ 8) :
    stop ≤ nonZeroDataEnd rest i stop sequence ∧
      nonZeroDataEnd rest i stop sequence ≤ data.length ∧
      (ZerosBetween data (nonZeroDataEnd rest i stop sequence) data.length ∨
        ZerosBetween data (nonZeroDataEnd rest i stop sequence)
          (nonZeroDataEnd rest i stop sequence + 9)) := by
  induction rest generalizing i stop sequence with
  | nil =>
      have last : i = data.length := by
        have := congrArg List.length here
        rw [List.length_drop, List.length_nil] at this
        omega
      rw [nonZeroDataEnd]
      exact ⟨Nat.le_refl _, by omega, .inl (last ▸ zeros)⟩
  | cons x rest ih =>
      have lt : i < data.length := by
        have := congrArg List.length here
        rw [List.length_drop, List.length_cons] at this
        omega
      rw [List.drop_eq_getElem_cons lt] at here
      injection here with element next
      rw [nonZeroDataEnd]
      split
      · next zero =>
          have further : ZerosBetween data stop (i + 1) := by
            intro k first below within
            rcases Nat.lt_succ_iff_lt_or_eq.mp below with before | rfl
            · exact zeros k first before within
            · rw [← element, zero]
          split
          · next many =>
              rw [PurgeSegment.SIZE] at many
              have nine : stop + 9 = i + 1 := by omega
              exact ⟨Nat.le_refl _, by omega, .inr (nine ▸ further)⟩
          · next notYet =>
              rw [PurgeSegment.SIZE] at notYet
              exact ih next lt further (by omega) (by omega)
      · have nothing : ZerosBetween data (i + 1) (i + 1) :=
          fun k first below _ => absurd first (Nat.not_le_of_lt below)
        obtain ⟨above, within, ends⟩ := ih next lt nothing rfl (Nat.zero_le 8)
        exact ⟨by omega, within, ends⟩

theorem lt_nonZeroDataEnd {data : List Byte} {start : Nat} (lt : start < data.length)
    (nonzero : data[start] ≠ 0) :
    start < nonZeroDataEnd (data.drop start) start start 0 := by
  rw [List.drop_eq_getElem_cons lt, nonZeroDataEnd, if_neg nonzero]
  have nothing : ZerosBetween data (start + 1) (start + 1) :=
    fun k first below _ => absurd first (Nat.not_le_of_lt below)
  exact (nonZeroDataEnd_spec rfl lt nothing rfl (Nat.zero_le 8)).1

/-! ## The loop -/

/-- The segments written from `bytes_read` on. -/
theorem compressLoop_spec {data : List Byte} (small : data.length < 2 ^ 32) {fuel bytes_read : Nat}
    (inside : bytes_read ≤ data.length) (enough : data.length - bytes_read < fuel) :
    ∃ runs, SparseFrom 8 data bytes_read runs ∧
      (∀ next ∈ runs.head?, next.1 = firstNonZero data bytes_read) ∧
      ∀ c : PurgeCompressor sha,
        c.m_bytes_written + (encodeRuns data runs).length ≤ c.m_buffer.length →
        ∃ c', compressLoop data fuel bytes_read c = some c' ∧
          Extends c c' (encodeRuns data runs) := by
  induction fuel generalizing bytes_read with
  | zero => omega
  | succ fuel ih =>
      obtain ⟨after, within, zeros, nonzero⟩ := firstNonZero_spec inside
      have start_eq : u32 (firstNonZero data bytes_read) = firstNonZero data bytes_read := by
        rw [u32]
        omega
      by_cases last : firstNonZero data bytes_read = data.length
      · refine ⟨[], .nil (last ▸ zeros), (fun next mem => absurd mem (by simp)), fun c _ =>
          ⟨c, ?_, ?_⟩⟩
        · rw [compressLoop, start_eq]
          exact if_pos last
        · exact ⟨by simp, by simp, rfl, rfl⟩
      · have lt : firstNonZero data bytes_read < data.length := by omega
        generalize start_def : firstNonZero data bytes_read = start at *
        generalize stop_def : nonZeroDataEnd (data.drop start) start start 0 = stop
        have nonempty : start < stop := stop_def ▸ lt_nonZeroDataEnd lt (nonzero lt)
        have nothing : ZerosBetween data start start :=
          fun k first below _ => absurd first (Nat.not_le_of_lt below)
        obtain ⟨-, stop_le, ends⟩ :=
          nonZeroDataEnd_spec rfl within nothing rfl (Nat.zero_le 8)
        rw [stop_def] at stop_le ends
        obtain ⟨runs, sparse, head, writes⟩ := ih stop_le (by omega)
        have apart : ∀ next ∈ runs.head?, stop + 8 < next.1 := by
          intro next mem
          obtain ⟨first, -, -, found⟩ := firstNonZero_spec stop_le
          have inside_next := sparse.of_mem next (List.mem_of_mem_head? mem)
          rw [head next mem] at inside_next ⊢
          have next_lt : firstNonZero data stop < data.length := by omega
          by_contra near
          have far : firstNonZero data stop < stop + 9 := by omega
          rcases ends with ends | ends
          · exact found next_lt (ends _ first next_lt next_lt)
          · exact found next_lt (ends _ first far next_lt)
        refine ⟨(start, stop) :: runs, .cons after nonempty stop_le zeros apart sparse, ?_, ?_⟩
        · intro next mem
          cases mem
          rfl
        · intro c room
          have length_eq : u32 (stop - start) = stop - start := by
            rw [u32]
            omega
          have part : (slice data start stop).length = stop - start := length_slice stop_le
          rw [encodeRuns_cons, List.length_append, List.length_append, length_segmentHeader] at room
          obtain ⟨c₁, header, wrote₁⟩ := @write_spec sha c (segmentHeader (start, stop))
            (by rw [length_segmentHeader]; omega)
          have at₁ := wrote₁.written
          have buffer₁ := wrote₁.buffer
          rw [length_segmentHeader] at at₁
          obtain ⟨c₂, content, wrote₂⟩ := @write_spec sha c₁ (slice data start stop)
            (by dsimp only at room; omega)
          have at₂ := wrote₂.written
          have buffer₂ := wrote₂.buffer
          obtain ⟨c₃, others, wrote₃⟩ := writes c₂ (by dsimp only at room; omega)
          refine ⟨c₃, ?_, ?_⟩
          · rw [compressLoop, start_def, start_eq]
            dsimp only
            rw [if_neg last, stop_def, length_eq]
            simp only [segmentHeader] at header
            simp only [slice] at content
            rw [header, Option.bind_some, content, Option.bind_some, others]
          · rw [encodeRuns_cons]
            exact (wrote₁.trans wrote₂).trans wrote₃

/-! ## The whole output -/

/-- What the compressor writes, and that it fits into the buffer. -/
theorem run_spec (preceding : List Byte) {data : List Byte} (small : data.length < 2 ^ 32) :
    ∃ runs c, SparseFrom 8 data 0 runs ∧ run sha preceding data = some c ∧
      c.m_bytes_written ≤ c.m_buffer.length ∧
      c.output = encodeRuns data runs ++
        (sha.Finish (sha.Update sha.CreateContext (preceding ++ encodeRuns data runs))).1 := by
  obtain ⟨runs, sparse, -, writes⟩ :=
    @compressLoop_spec sha data small (data.length + 1) 0 (Nat.zero_le _) (by omega)
  have size := length_encodeRuns_le sparse
  let started := AddPrecedingDataOnlyForPurgeHashing preceding (Start sha)
  have room : (resize started.m_buffer (data.length + 8 + 20)).length = data.length + 8 + 20 := by
    simp [resize, started, AddPrecedingDataOnlyForPurgeHashing, Start]
  obtain ⟨c, compressed, wrote⟩ := writes { started with
    m_buffer := resize started.m_buffer (data.length + 8 + 20) } (by
      change 0 + _ ≤ List.length (resize started.m_buffer (data.length + 8 + 20))
      omega)
  have empty : c.output = encodeRuns data runs := by
    rw [wrote.output]
    rfl
  have written : c.m_bytes_written = (encodeRuns data runs).length := by
    rw [wrote.written]
    exact Nat.zero_add _
  have buffer : c.m_buffer.length = data.length + 8 + 20 := wrote.buffer.trans room
  let context := sha.Update c.m_sha1_context (c.m_buffer.take c.m_bytes_written)
  have digest : (sha.Finish context).1.length = 20 := (sha.Finish context).2
  obtain ⟨c', ended, final⟩ :=
    @write_spec sha { c with m_sha1_context := context } (sha.Finish context).1 (by
      change c.m_bytes_written + _ ≤ c.m_buffer.length
      omega)
  refine ⟨runs, c', sparse, ?_, ?_, ?_⟩
  · have compress : Compress data started = some c := (if_pos rfl).trans compressed
    exact (congrArg (·.bind End) compress).trans ended
  · have at_end := final.written
    have same := final.buffer
    dsimp only at at_end same
    omega
  · have hashed : context =
        sha.Update sha.CreateContext (preceding ++ encodeRuns data runs) := by
      change sha.Update c.m_sha1_context c.output = _
      rw [wrote.context, empty]
      exact sha.update_append _ _ _
    rw [final.output, ← hashed]
    exact congrArg (· ++ (sha.Finish context).1) empty

end PurgeCompressor

end Phocoena.DiscIO
