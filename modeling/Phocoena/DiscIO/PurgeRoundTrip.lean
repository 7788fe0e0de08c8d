import Phocoena.DiscIO.PurgeSegments

/-! # Purge decompression undoes the compression

Between two rounds of its loop the decompressor is in the header of a segment or in its data. What
is left of the input, without the digest, then is the rest of that segment and the segments that
follow, whatever pieces the input has come in and however much room the output has.
-/

namespace Phocoena.DiscIO

variable {sha : SHA1} {array full : List Byte} {digest : Digest} {input : DecompressionBuffer}
  {start stop : Nat} {runs : List (Nat × Nat)} {p q : PurgeProgress sha} {unread : List Byte}

/-! ## The input -/

/-- An input buffer for `full`, of which some bytes are there. -/
structure Feeds (full : List Byte) (input : DecompressionBuffer) : Prop where
  length : input.data.length = full.length
  agree : input.data.take input.bytes_written = full.take input.bytes_written
  within : input.bytes_written ≤ full.length

/-- Offsets and sizes are words. -/
def Short (array : List Byte) : Prop := array.length < 2 ^ 32

namespace PurgeProgress

theorem take_full (feeds : Feeds full input) {count : Nat} (there : count ≤ input.bytes_written) :
    input.data.take count = full.take count := by
  have prefixes := congrArg (List.take count) feeds.agree
  rwa [List.take_take, List.take_take, Nat.min_eq_left there] at prefixes

theorem peek_full (feeds : Feeds full input) {count : Nat}
    (there : p.in_bytes_read + count ≤ input.bytes_written) :
    p.peek input count = (full.drop p.in_bytes_read).take count := by
  have same := congrArg (List.drop p.in_bytes_read) (take_full feeds there)
  rwa [List.drop_take, List.drop_take, Nat.add_sub_cancel_left] at same

/-! ## What holds wherever the decompressor is -/

/-- The output is a prefix of the array. -/
structure Produced (array : List Byte) (p : PurgeProgress sha) : Prop where
  size : p.self.m_decompressed_size = array.length
  written : p.out.bytes_written = p.self.m_out_bytes_written
  output : p.out.data.take p.self.m_out_bytes_written = array.take p.self.m_out_bytes_written
  within : p.self.m_out_bytes_written ≤ array.length
  fits : p.self.m_out_bytes_written ≤ p.out.data.length

/-- `unread` is left of the input, before the digest. -/
structure Ready (array full : List Byte) (digest : Digest) (unread : List Byte)
    (p : PurgeProgress sha) : Prop where
  produced : Produced array p
  going : p.self.m_done = false
  rest : full.drop p.in_bytes_read = unread ++ digest.1
  hashed : p.self.m_started = true →
    p.self.m_sha1_context = sha.Update sha.CreateContext (full.take p.in_bytes_read)

theorem Ready.length (ready : Ready array full digest unread p) :
    p.in_bytes_read + unread.length + 20 = full.length := by
  have lengths := congrArg List.length ready.rest
  rw [List.length_drop, List.length_append, digest.2] at lengths
  omega

theorem Ready.peek (ready : Ready array full digest unread p) (feeds : Feeds full input)
    {count : Nat} (there : p.in_bytes_read + count ≤ input.bytes_written)
    (left : count ≤ unread.length) : p.peek input count = unread.take count := by
  rw [peek_full feeds there, ready.rest, List.take_append_of_le_length left]

theorem Ready.consume (ready : Ready array full digest unread p) (feeds : Feeds full input)
    {count : Nat} (there : p.in_bytes_read + count ≤ input.bytes_written)
    (left : count ≤ unread.length) :
    Ready array full digest (unread.drop count) (p.consume input count) where
  produced := { ready.produced with }
  going := ready.going
  rest := by
    change full.drop (p.in_bytes_read + count) = _
    rw [← List.drop_drop, ready.rest, List.drop_append_of_le_length left]
  hashed := by
    intro started
    change sha.Update p.self.m_sha1_context (p.peek input count) =
      sha.Update sha.CreateContext (full.take (p.in_bytes_read + count))
    rw [ready.hashed started, sha.update_append, peek_full feeds there, List.take_add]

theorem Produced.space (produced : Produced array p) :
    p.out.space = p.out.data.length - p.self.m_out_bytes_written := by
  rw [DecompressionBuffer.space, produced.written]

theorem Produced.put (produced : Produced array p) {bytes : List Byte}
    (next : array.take (p.self.m_out_bytes_written + bytes.length) =
      array.take p.self.m_out_bytes_written ++ bytes)
    (within : p.self.m_out_bytes_written + bytes.length ≤ array.length)
    (room : bytes.length ≤ p.out.space) : Produced array (p.put bytes) := by
  have fits := produced.fits
  rw [produced.space] at room
  have inside : p.out.bytes_written + bytes.length ≤ p.out.data.length := by
    rw [produced.written]
    omega
  exact {
    size := produced.size
    written := congrArg (· + bytes.length) produced.written
    output := by
      change (copyTo p.out.data p.out.bytes_written bytes).take
        (p.self.m_out_bytes_written + bytes.length) =
          array.take (p.self.m_out_bytes_written + bytes.length)
      rw [next, ← produced.output, ← produced.written, take_copyTo inside]
    within := within
    fits := by
      change p.self.m_out_bytes_written + bytes.length ≤
        (copyTo p.out.data p.out.bytes_written bytes).length
      rw [length_copyTo inside]
      omega }

theorem Ready.put (ready : Ready array full digest unread p) {bytes : List Byte}
    (next : array.take (p.self.m_out_bytes_written + bytes.length) =
      array.take p.self.m_out_bytes_written ++ bytes)
    (within : p.self.m_out_bytes_written + bytes.length ≤ array.length)
    (room : bytes.length ≤ p.out.space) : Ready array full digest unread (p.put bytes) :=
  ⟨ready.produced.put next within room, ready.going, ready.rest, ready.hashed⟩

theorem Ready.putZeros (ready : Ready array full digest unread p) {count : Nat}
    (zeros : ZerosBetween array p.self.m_out_bytes_written (p.self.m_out_bytes_written + count))
    (within : p.self.m_out_bytes_written + count ≤ array.length) (room : count ≤ p.out.space) :
    Ready array full digest unread (p.put (List.replicate count 0)) := by
  have length : (List.replicate count (0 : Byte)).length = count := List.length_replicate
  apply ready.put
  · rw [length]
    exact take_zeros zeros within
  · rwa [length]
  · rwa [length]

/-- Nothing is taken back. -/
structure Advances (p q : PurgeProgress sha) : Prop where
  length : q.out.data.length = p.out.data.length
  read : p.in_bytes_read ≤ q.in_bytes_read
  written : p.self.m_out_bytes_written ≤ q.self.m_out_bytes_written
  started : q.self.m_started = p.self.m_started

theorem Advances.refl (p : PurgeProgress sha) : Advances p p :=
  ⟨rfl, Nat.le_refl _, Nat.le_refl _, rfl⟩

theorem Advances.trans {r : PurgeProgress sha} (first : Advances p q) (second : Advances q r) :
    Advances p r where
  length := second.length.trans first.length
  read := Nat.le_trans first.read second.read
  written := Nat.le_trans first.written second.written
  started := second.started.trans first.started

theorem advances_put (produced : Produced array p) {bytes : List Byte}
    (room : bytes.length ≤ p.out.space) : Advances p (p.put bytes) := by
  have fits := produced.fits
  rw [produced.space] at room
  have inside : p.out.bytes_written + bytes.length ≤ p.out.data.length := by
    rw [produced.written]
    omega
  exact ⟨length_copyTo inside, Nat.le_refl _, Nat.le_add_right _ _, rfl⟩

/-! ## In a segment -/

structure InHeader (array full : List Byte) (digest : Digest) (runs : List (Nat × Nat))
    (unread : List Byte) (p : PurgeProgress sha) : Prop where
  ready : Ready array full digest unread p
  few : p.self.m_segment_bytes_written < 8
  length : p.self.m_segment.length = 8
  bytes : p.self.m_segment.take p.self.m_segment_bytes_written ++ unread = encodeRuns array runs
  sparse : SparseFrom 8 array p.self.m_out_bytes_written runs

structure InData (array full : List Byte) (digest : Digest) (start stop : Nat)
    (runs : List (Nat × Nat)) (p : PurgeProgress sha) : Prop where
  ready : Ready array full digest
    (slice array (max start p.self.m_out_bytes_written) stop ++ encodeRuns array runs) p
  complete : p.self.m_segment_bytes_written = 8
  header : p.self.m_segment = segmentHeader (start, stop)
  nonempty : start < stop
  inside : stop ≤ array.length
  before : p.self.m_out_bytes_written ≤ stop
  zeros : ZerosBetween array p.self.m_out_bytes_written start
  rest : SparseFrom 8 array stop runs

/-- Between two rounds of the loop. -/
inductive Open (array full : List Byte) (digest : Digest) (p : PurgeProgress sha) : Prop where
  | header {runs : List (Nat × Nat)} {unread : List Byte}
      (reading : InHeader array full digest runs unread p)
  | data {start stop : Nat} {runs : List (Nat × Nat)}
      (reading : InData array full digest start stop runs p)
      (unfinished : p.self.m_out_bytes_written < stop)

theorem Open.ready (between : Open array full digest p) :
    ∃ unread, Ready array full digest unread p := by
  cases between with
  | header reading => exact ⟨_, reading.ready⟩
  | data reading => exact ⟨_, reading.ready⟩

theorem InData.segment (reading : InData array full digest start stop runs p)
    (small : Short array) :
    p.segment.offset.toNat = start ∧ p.segment.size.toNat = stop - start := by
  have nonempty := reading.nonempty
  have inside := reading.inside
  rw [Short] at small
  have decoded : p.segment = ⟨BitVec.ofNat 32 start, BitVec.ofNat 32 (stop - start)⟩ := by
    rw [PurgeProgress.segment, reading.header, segmentHeader,
      ← List.append_nil (PurgeSegment.codec.encode _), PurgeSegment.codec.decode_encode]
    rfl
  rw [decoded]
  simp only [BitVec.toNat_ofNat]
  exact ⟨Nat.mod_eq_of_lt (by omega), Nat.mod_eq_of_lt (by omega)⟩

/-- Some of the header is read: all that is there, or all of it. -/
theorem InHeader.readSegment (reading : InHeader array full digest runs unread p)
    (feeds : Feeds full input) (there : p.in_bytes_read < input.bytes_written)
    (notEnd : p.atEnd input = false) :
    Advances p (p.readSegment input) ∧ p.in_bytes_read < (p.readSegment input).in_bytes_read ∧
      (p.readSegment input).in_bytes_read ≤ input.bytes_written ∧
      (((p.readSegment input).self.m_segment_bytes_written < 8 ∧
        (p.readSegment input).in_bytes_read = input.bytes_written ∧
        Open array full digest (p.readSegment input)) ∨
      ∃ start stop rest, (p.readSegment input).self.m_out_bytes_written ≤ start ∧
        InData array full digest start stop rest (p.readSegment input)) := by
  have few := reading.few
  have length := reading.length
  have all := reading.ready.length
  have lengths := congrArg List.length reading.bytes
  rw [List.length_append, List.length_take] at lengths
  cases runs with
  | nil =>
      exfalso
      rw [encodeRuns_nil, List.length_nil] at lengths
      have ended : p.atEnd input = true := by
        rw [atEnd, SHA1.DIGEST_LEN, feeds.length, decide_eq_true_iff]
        omega
      rw [ended] at notEnd
      cases notEnd
  | cons run runs =>
      obtain ⟨start, stop⟩ := run
      rw [encodeRuns_cons, List.length_append, List.length_append, length_segmentHeader] at lengths
      generalize count_def : min (input.bytes_written - p.in_bytes_read)
        (8 - p.self.m_segment_bytes_written) = count
      have left : count ≤ unread.length := by omega
      have fits : p.in_bytes_read + count ≤ input.bytes_written := by omega
      have peeked := reading.ready.peek feeds fits left
      have consumed := reading.ready.consume feeds fits left
      have result : p.readSegment input = { p.consume input count with
          self := { (p.consume input count).self with
            m_segment := copyTo p.self.m_segment p.self.m_segment_bytes_written
              (p.peek input count)
            m_segment_bytes_written := p.self.m_segment_bytes_written + count } } := by
        rw [readSegment, PurgeSegment.SIZE, if_pos few, count_def]
      rw [result]
      have took : (p.peek input count).length = count := by
        rw [peeked, List.length_take]
        omega
      have room : p.self.m_segment_bytes_written + (p.peek input count).length ≤
          p.self.m_segment.length := by
        rw [took, length]
        omega
      have segment_length : (copyTo p.self.m_segment p.self.m_segment_bytes_written
          (p.peek input count)).length = 8 := (length_copyTo room).trans length
      have segment_bytes : (copyTo p.self.m_segment p.self.m_segment_bytes_written
          (p.peek input count)).take (p.self.m_segment_bytes_written + count) ++
            unread.drop count = encodeRuns array ((start, stop) :: runs) := by
        have taken := take_copyTo room
        rw [took] at taken
        rw [taken, peeked, List.append_assoc, List.take_append_drop, reading.bytes]
      refine ⟨⟨rfl, Nat.le_add_right _ _, Nat.le_refl _, rfl⟩, ?_, fits, ?_⟩
      · change p.in_bytes_read < p.in_bytes_read + count
        omega
      · by_cases partly : p.self.m_segment_bytes_written + count < 8
        · refine .inl ⟨partly, ?_, .header ⟨⟨{ consumed.produced with }, consumed.going,
            consumed.rest, consumed.hashed⟩, partly, segment_length, segment_bytes,
            reading.sparse⟩⟩
          change p.in_bytes_read + count = input.bytes_written
          omega
        · have whole : p.self.m_segment_bytes_written + count = 8 := by omega
          rw [whole, List.take_of_length_le (Nat.le_of_eq segment_length), encodeRuns_cons,
            List.append_assoc] at segment_bytes
          obtain ⟨header, others⟩ := List.append_inj segment_bytes (by
            rw [segment_length, length_segmentHeader])
          obtain ⟨⟩ | ⟨after, nonempty, inside, zeros, apart, rest⟩ := reading.sparse
          refine .inr ⟨start, stop, runs, after, ⟨⟨{ consumed.produced with }, consumed.going,
            ?_, consumed.hashed⟩, whole, header, nonempty, inside, ?_, zeros, rest⟩⟩
          · have same : max start p.self.m_out_bytes_written = start := Nat.max_eq_left after
            change full.drop (p.in_bytes_read + count) =
              (slice array (max start p.self.m_out_bytes_written) stop ++ encodeRuns array runs) ++
                digest.1
            rw [same, ← others]
            exact consumed.rest
          · change p.self.m_out_bytes_written ≤ stop
            omega

theorem InData.writeZeroes (reading : InData array full digest start stop runs p) :
    Advances p (p.writeZeroes start) ∧
      (p.writeZeroes start).in_bytes_read = p.in_bytes_read ∧
      InData array full digest start stop runs (p.writeZeroes start) ∧
      ((p.writeZeroes start).self.m_out_bytes_written < start →
        (p.writeZeroes start).out.space = 0) ∧
      (p.self.m_out_bytes_written < start → 0 < p.out.space →
        p.self.m_out_bytes_written < (p.writeZeroes start).self.m_out_bytes_written) := by
  have nonempty := reading.nonempty
  have inside := reading.inside
  have fits := reading.ready.produced.fits
  by_cases gap : p.self.m_out_bytes_written < start
  · generalize count_def : min (start - p.self.m_out_bytes_written) p.out.space = count
    have result : p.writeZeroes start = p.put (List.replicate count 0) := by
      rw [PurgeProgress.writeZeroes, if_pos gap, count_def]
    have room : (List.replicate count (0 : Byte)).length ≤ p.out.space := by
      rw [List.length_replicate]
      omega
    have advances := advances_put reading.ready.produced room
    have put := reading.ready.putZeros
      (reading.zeros.mono (Nat.le_refl _) (by omega)) (by omega) (by omega : count ≤ p.out.space)
    have position : (p.put (List.replicate count 0)).self.m_out_bytes_written =
        p.self.m_out_bytes_written + count :=
      congrArg (p.self.m_out_bytes_written + ·) List.length_replicate
    have space := put.produced.space
    have space_before := reading.ready.produced.space
    rw [position, advances.length] at space
    rw [result]
    refine ⟨advances, rfl, ⟨?_, reading.complete, reading.header, nonempty, inside, ?_, ?_,
      reading.rest⟩, ?_, ?_⟩
    · have start_max : max start (p.put (List.replicate count 0)).self.m_out_bytes_written =
          max start p.self.m_out_bytes_written := by omega
      rw [start_max]
      exact put
    · omega
    · exact reading.zeros.mono (by omega) (Nat.le_refl _)
    · intro short
      omega
    · intro _ some
      omega
  · have result : p.writeZeroes start = p := if_neg gap
    rw [result]
    exact ⟨.refl p, rfl, reading, fun before => absurd before gap, fun before => absurd before gap⟩

theorem drop_slice (data : List Byte) (i j count : Nat) :
    (slice data i j).drop count = slice data (i + count) j := by
  rw [slice, slice, List.drop_take, List.drop_drop]
  congr 1
  omega

theorem InData.copyData (reading : InData array full digest start stop runs p)
    (feeds : Feeds full input) (there : p.in_bytes_read ≤ input.bytes_written)
    (filled : p.self.m_out_bytes_written < start → p.out.space = 0) :
    Advances p (p.copyData input start (stop - start)) ∧
      (p.copyData input start (stop - start)).in_bytes_read ≤ input.bytes_written ∧
      InData array full digest start stop runs (p.copyData input start (stop - start)) ∧
      (p.self.m_out_bytes_written < stop → 0 < p.out.space →
        p.in_bytes_read < input.bytes_written →
        p.self.m_out_bytes_written <
          (p.copyData input start (stop - start)).self.m_out_bytes_written) := by
  have nonempty := reading.nonempty
  have inside := reading.inside
  have end_eq : start + (stop - start) = stop := by omega
  by_cases within : start ≤ p.self.m_out_bytes_written ∧ p.self.m_out_bytes_written < stop
  · generalize count_def : min (min (stop - p.self.m_out_bytes_written) p.out.space)
      (input.bytes_written - p.in_bytes_read) = count
    have result : p.copyData input start (stop - start) =
        (p.put (p.peek input count)).consume input count := by
      rw [PurgeProgress.copyData, end_eq, if_pos within, count_def]
    have here : max start p.self.m_out_bytes_written = p.self.m_out_bytes_written :=
      Nat.max_eq_right within.1
    have ready := reading.ready
    rw [here] at ready
    have part : (slice array p.self.m_out_bytes_written stop).length =
        stop - p.self.m_out_bytes_written := length_slice inside
    have left : count ≤
        (slice array p.self.m_out_bytes_written stop ++ encodeRuns array runs).length := by
      rw [List.length_append]
      omega
    have fits : p.in_bytes_read + count ≤ input.bytes_written := by omega
    have peeked : p.peek input count = (array.drop p.self.m_out_bytes_written).take count := by
      rw [ready.peek feeds fits left, List.take_append_of_le_length (by omega), slice,
        List.take_take]
      congr 1
      omega
    have took : (p.peek input count).length = count := by
      rw [peeked, List.length_take, List.length_drop]
      omega
    have put : Ready array full digest _ (p.put (p.peek input count)) := ready.put
      (by rw [took, peeked, List.take_add]) (by omega) (by omega)
    have consumed := put.consume feeds fits left
    have position : ((p.put (p.peek input count)).consume input count).self.m_out_bytes_written =
        p.self.m_out_bytes_written + count := congrArg (p.self.m_out_bytes_written + ·) took
    have advances := advances_put ready.produced (by omega : (p.peek input count).length ≤ _)
    rw [result]
    refine ⟨⟨advances.length, Nat.le_add_right _ _, by omega, rfl⟩, fits,
      ⟨?_, reading.complete, reading.header, nonempty, inside, by omega, ?_, reading.rest⟩, ?_⟩
    · have next : max start ((p.put (p.peek input count)).consume input
          count).self.m_out_bytes_written = p.self.m_out_bytes_written + count := by omega
      rw [List.drop_append_of_le_length (by omega), drop_slice] at consumed
      rw [next]
      exact consumed
    · exact fun i first last _ => absurd (Nat.le_trans within.1 (by omega)) (Nat.not_le_of_lt last)
    · intro _ room some
      omega
  · have result : p.copyData input start (stop - start) = p := by
      rw [PurgeProgress.copyData, end_eq, if_neg within]
    rw [result]
    refine ⟨.refl p, there, reading, fun before room _ => ?_⟩
    have early : p.self.m_out_bytes_written < start := by omega
    have := filled early
    omega

theorem InData.endSegment (reading : InData array full digest start stop runs p) :
    Advances p (p.endSegment start (stop - start)) ∧
      (p.endSegment start (stop - start)).in_bytes_read = p.in_bytes_read ∧
      Open array full digest (p.endSegment start (stop - start)) := by
  have nonempty := reading.nonempty
  have before := reading.before
  have end_eq : start + (stop - start) = stop := by omega
  by_cases ended : stop ≤ p.self.m_out_bytes_written
  · have position : p.self.m_out_bytes_written = stop := by omega
    have result : p.endSegment start (stop - start) =
        { p with self := { p.self with m_segment_bytes_written := 0 } } := by
      rw [PurgeProgress.endSegment, end_eq, if_pos ended]
    have empty : slice array (max start p.self.m_out_bytes_written) stop = [] := by
      rw [slice, position, Nat.max_eq_right (Nat.le_of_lt nonempty), Nat.sub_self, List.take_zero]
    have ready := reading.ready
    rw [empty, List.nil_append] at ready
    have next : InHeader array full digest runs (encodeRuns array runs)
        { p with self := { p.self with m_segment_bytes_written := 0 } } := {
      ready := ⟨{ ready.produced with }, ready.going, ready.rest, ready.hashed⟩
      few := Nat.succ_pos 7
      length := (congrArg List.length reading.header).trans (length_segmentHeader _)
      bytes := rfl
      sparse := position ▸ reading.rest }
    rw [result]
    exact ⟨⟨rfl, Nat.le_refl _, Nat.le_refl _, rfl⟩, rfl, .header next⟩
  · have result : p.endSegment start (stop - start) = p := by
      rw [PurgeProgress.endSegment, end_eq, if_neg ended]
    rw [result]
    exact ⟨.refl p, rfl, .data reading (Nat.lt_of_not_le ended)⟩

/-! ## The end of the data -/

structure Finished (array full : List Byte) (p : PurgeProgress sha) : Prop where
  produced : Produced array p
  done : p.self.m_done = true
  read : p.in_bytes_read = full.length
  written : p.self.m_out_bytes_written = array.length

/-- The zeros after the last segment, and the digest when all of it is there. -/
theorem InHeader.finish (reading : InHeader array full digest runs unread p)
    (feeds : Feeds full input) (small : Short array)
    (closed : digest = sha.Finish (sha.Update sha.CreateContext (full.take (full.length - 20))))
    (started : p.self.m_started = true) (ended : p.atEnd input = true) :
    ∃ q, p.finish input = (true, q) ∧ Advances p q ∧
      ((Finished array full q ∧ input.bytes_written = full.length) ∨
        q.in_bytes_read = p.in_bytes_read ∧ Open array full digest q ∧
        (input.bytes_written < full.length ∨ q.out.data.length < array.length)) := by
  rw [atEnd, SHA1.DIGEST_LEN, feeds.length, decide_eq_true_iff] at ended
  have within := reading.ready.produced.within
  have fits := reading.ready.produced.fits
  have all := reading.ready.length
  have nothing : unread = [] := List.eq_nil_of_length_eq_zero (by omega)
  subst nothing
  have header := reading.bytes
  rw [ended.1, List.take_zero, List.nil_append] at header
  have zeros : ZerosBetween array p.self.m_out_bytes_written array.length := by
    obtain ⟨zeros⟩ | ⟨_, _, inside⟩ := reading.sparse
    · exact zeros
    · rw [encodeRuns_cons] at header
      have := congrArg List.length header
      rw [List.length_append, List.length_append, length_segmentHeader, List.length_nil] at this
      omega
  have left : sub64 p.self.m_decompressed_size p.self.m_out_bytes_written =
      array.length - p.self.m_out_bytes_written := by
    rw [reading.ready.produced.size]
    exact sub64_of_le within (Nat.lt_trans small (by decide))
  generalize count_def : min (array.length - p.self.m_out_bytes_written) p.out.space = count
  have room : (List.replicate count (0 : Byte)).length ≤ p.out.space := by
    rw [List.length_replicate]
    omega
  have advances := advances_put reading.ready.produced room
  have put := reading.ready.putZeros
    (zeros.mono (Nat.le_refl _) (by omega)) (by omega) (by omega : count ≤ p.out.space)
  have position : (p.put (List.replicate count 0)).self.m_out_bytes_written =
      p.self.m_out_bytes_written + count :=
    congrArg (p.self.m_out_bytes_written + ·) List.length_replicate
  have space := reading.ready.produced.space
  generalize q_def : p.put (List.replicate count 0) = q at *
  by_cases complete : q.self.m_out_bytes_written = q.self.m_decompressed_size ∧
      input.bytes_written = input.data.length
  · have result : p.finish input = (decide ((sha.Finish q.self.m_sha1_context).1 =
        q.peek input SHA1.DIGEST_LEN), { q with
          self := { q.self with m_done := true }
          in_bytes_read := q.in_bytes_read + SHA1.DIGEST_LEN }) := by
      rw [PurgeProgress.finish, left, count_def, q_def]
      exact if_pos complete
    have q_read : q.in_bytes_read + 20 = full.length := by
      have := put.length
      rw [List.length_nil] at this
      omega
    have expected : q.peek input SHA1.DIGEST_LEN = digest.1 := by
      rw [peek_full feeds (by rw [SHA1.DIGEST_LEN, complete.2, feeds.length]; omega), put.rest,
        List.nil_append, SHA1.DIGEST_LEN, List.take_of_length_le (Nat.le_of_eq digest.2)]
    have actual : sha.Finish q.self.m_sha1_context = digest := by
      rw [put.hashed (advances.started.trans started), closed]
      congr 4
      omega
    rw [result, expected, actual]
    refine ⟨_, congrArg (·, _) (decide_eq_true rfl),
      ⟨advances.length, ?_, advances.written, advances.started⟩,
      .inl ⟨⟨{ put.produced with }, rfl, q_read, ?_⟩, complete.2.trans feeds.length⟩⟩
    · exact Nat.le_trans advances.read (Nat.le_add_right _ _)
    · exact complete.1.trans put.produced.size
  · have result : p.finish input = (true, q) := by
      rw [PurgeProgress.finish, left, count_def, q_def]
      exact if_neg complete
    have same : q.in_bytes_read = p.in_bytes_read := by rw [← q_def]; rfl
    have open_q : InHeader array full digest [] [] q := {
      ready := put
      few := by rw [← q_def]; exact reading.few
      length := by rw [← q_def]; exact reading.length
      bytes := by
        have seg : q.self.m_segment_bytes_written = 0 := by rw [← q_def]; exact ended.1
        rw [seg]
        rfl
      sparse := .nil (zeros.mono (by omega) (Nat.le_refl _)) }
    rw [result]
    refine ⟨q, rfl, advances, .inr ⟨same, .header open_q, ?_⟩⟩
    have size := put.produced.size
    have length := advances.length
    have limit := feeds.within
    rw [feeds.length, size] at complete
    omega

/-! ## The loop -/

/-- The rest of a round, once the header is there. -/
theorem InData.round (reading : InData array full digest start stop runs p)
    (feeds : Feeds full input) (small : Short array)
    (there : p.in_bytes_read ≤ input.bytes_written) :
    ∃ q, ((p.writeZeroes p.segment.offset.toNat).copyData input p.segment.offset.toNat
        p.segment.size.toNat).endSegment p.segment.offset.toNat p.segment.size.toNat = q ∧
      Advances p q ∧ q.in_bytes_read ≤ input.bytes_written ∧ Open array full digest q ∧
      (p.self.m_out_bytes_written < stop → 0 < p.out.space →
        p.in_bytes_read < input.bytes_written →
        p.self.m_out_bytes_written < q.self.m_out_bytes_written) := by
  obtain ⟨offset, size⟩ := reading.segment small
  rw [offset, size]
  obtain ⟨zeroed, same, reading₁, filled, progress₁⟩ := reading.writeZeroes
  obtain ⟨copied, there₂, reading₂, progress₂⟩ :=
    reading₁.copyData feeds (same ▸ there) filled
  obtain ⟨ended, same₃, next⟩ := reading₂.endSegment
  refine ⟨_, rfl, (zeroed.trans copied).trans ended, same₃ ▸ there₂, next, ?_⟩
  intro unfinished room some
  have written₁ := zeroed.written
  have written₂ := copied.written
  have written₃ := ended.written
  by_cases gap : p.self.m_out_bytes_written < start
  · have := progress₁ gap room
    omega
  · have unchanged : p.writeZeroes start = p := if_neg gap
    rw [unchanged] at progress₂ written₂ written₃ ⊢
    have := progress₂ unfinished room some
    omega

/-- All was taken that could be. -/
def Stalled (array full : List Byte) (input : DecompressionBuffer) (p : PurgeProgress sha) : Prop :=
  input.bytes_written < full.length ∨ p.out.data.length < array.length

theorem running_iff : p.running input = true ↔ p.self.m_done = false ∧
    input.bytes_written ≠ p.in_bytes_read ∧
    (p.self.m_segment_bytes_written < 8 ∨ p.out.data.length ≠ p.out.bytes_written) := by
  simp [running, PurgeSegment.SIZE]

theorem Open.stalled (between : Open array full digest p) (feeds : Feeds full input)
    (waiting : ¬ p.running input = true) : Stalled array full input p := by
  obtain ⟨unread, ready⟩ := between.ready
  have all := ready.length
  have limit := feeds.within
  by_cases consumed : input.bytes_written = p.in_bytes_read
  · exact .inl (by omega)
  · have full_out : ¬ (p.self.m_segment_bytes_written < 8 ∨
        p.out.data.length ≠ p.out.bytes_written) := by
      intro more
      exact waiting (running_iff.mpr ⟨ready.going, consumed, more⟩)
    cases between with
    | header reading => exact absurd (.inl reading.few) full_out
    | data reading unfinished =>
        have inside := reading.inside
        have written := ready.produced.written
        exact .inr (by omega)

theorem loop_spec (feeds : Feeds full input) (small : Short array)
    (closed : digest = sha.Finish (sha.Update sha.CreateContext (full.take (full.length - 20))))
    {fuel : Nat} (between : Open array full digest p) (started : p.self.m_started = true)
    (there : p.in_bytes_read ≤ input.bytes_written)
    (enough : input.bytes_written - p.in_bytes_read +
      (p.out.data.length - p.self.m_out_bytes_written) < fuel) :
    ∃ q, loop input fuel p = some (true, q) ∧ Advances p q ∧
      q.in_bytes_read ≤ input.bytes_written ∧
      (Finished array full q ∨ Open array full digest q ∧ Stalled array full input q) := by
  induction fuel generalizing p with
  | zero => omega
  | succ fuel ih =>
      rw [loop]
      by_cases runs_on : p.running input = true
      · obtain ⟨unread, ready⟩ := between.ready
        obtain ⟨-, some, more⟩ := running_iff.mp runs_on
        rw [if_pos runs_on]
        by_cases ended : p.atEnd input = true
        · rw [if_pos ended]
          cases between with
          | header reading =>
              obtain ⟨q, result, advances, ends⟩ := reading.finish feeds small closed started ended
              refine ⟨q, congrArg Option.some result, advances, ?_⟩
              rcases ends with ⟨finished, whole⟩ | ⟨same, next, stalled⟩
              · exact ⟨by rw [finished.read, whole], .inl finished⟩
              · exact ⟨by rw [same]; exact there, .inr ⟨next, stalled⟩⟩
          | data reading =>
              rw [atEnd, decide_eq_true_iff, reading.complete] at ended
              omega
        · rw [if_neg ended]
          have notEnd : p.atEnd input = false := Bool.eq_false_iff.mpr ended
          cases between with
          | header reading =>
              obtain ⟨advances, took, there₁, ends⟩ :=
                reading.readSegment feeds (by omega) notEnd
              rcases ends with ⟨partly, all, next⟩ | ⟨start, stop, rest, before, reading₁⟩
              · refine ⟨_, if_pos partly, advances, there₁, .inr ⟨next, .inl ?_⟩⟩
                obtain ⟨_, ready₁⟩ := next.ready
                have := ready₁.length
                omega
              · have complete := reading₁.complete
                have length := advances.length
                have written := advances.written
                dsimp only
                rw [complete, PurgeSegment.SIZE, if_neg (Nat.lt_irrefl 8)]
                obtain ⟨q, result, advances₁, there₂, next, -⟩ :=
                  reading₁.round feeds small there₁
                have length₁ := advances₁.length
                have read₁ := advances₁.read
                have written₁ := advances₁.written
                obtain ⟨r, ends, further, there₃, final⟩ := ih next
                  ((advances₁.started.trans advances.started).trans started) there₂ (by omega)
                rw [result]
                exact ⟨r, ends, (advances.trans advances₁).trans further, there₃, final⟩
          | data reading unfinished =>
              have complete := reading.complete
              have unchanged : p.readSegment input = p := by
                rw [readSegment, PurgeSegment.SIZE, complete, if_neg (Nat.lt_irrefl 8)]
              rw [unchanged]
              dsimp only
              rw [complete, PurgeSegment.SIZE, if_neg (Nat.lt_irrefl 8)]
              obtain ⟨q, result, advances, there₁, next, progress⟩ :=
                reading.round feeds small there
              have length := advances.length
              have read := advances.read
              have space := ready.produced.space
              have fits := ready.produced.fits
              have written := ready.produced.written
              rw [complete] at more
              have gained := progress unfinished (by omega) (by omega)
              obtain ⟨r, ends, further, there₂, final⟩ := ih next
                (advances.started.trans started) there₁ (by omega)
              rw [result]
              exact ⟨r, ends, advances.trans further, there₂, final⟩
      · rw [if_neg runs_on]
        exact ⟨p, rfl, .refl p, there,
          .inr ⟨between, between.stalled feeds runs_on⟩⟩

/-! ## Calls -/

theorem start_of_open (feeds : Feeds full input) (there : p.in_bytes_read ≤ input.bytes_written)
    (between : Open array full digest p) :
    Open array full digest (p.start input) ∧ (p.start input).self.m_started = true ∧
      (p.start input).in_bytes_read = p.in_bytes_read ∧ (p.start input).out = p.out ∧
      (p.start input).self.m_out_bytes_written = p.self.m_out_bytes_written := by
  by_cases started : p.self.m_started = true
  · rw [start, if_pos started]
    exact ⟨between, started, rfl, rfl, rfl⟩
  · rw [start, if_neg started, take_full feeds there]
    refine ⟨?_, rfl, rfl, rfl, rfl⟩
    have hashed {unread : List Byte} (ready : Ready array full digest unread p) :
        Ready array full digest unread { p with self := { p.self with
          m_sha1_context := sha.Update sha.CreateContext (full.take p.in_bytes_read)
          m_started := true } } :=
      ⟨{ ready.produced with }, ready.going, ready.rest, fun _ => rfl⟩
    cases between with
    | header reading => exact .header { reading with ready := hashed reading.ready }
    | data reading unfinished =>
        exact .data { reading with ready := hashed reading.ready } unfinished

/-- The output buffer has grown. -/
def grow (more : List Byte) (p : PurgeProgress sha) : PurgeProgress sha :=
  { p with out := { p.out with data := p.out.data ++ more } }

theorem Produced.grow (produced : Produced array p) (more : List Byte) :
    Produced array (p.grow more) where
  size := produced.size
  written := produced.written
  output := by
    change (p.out.data ++ more).take p.self.m_out_bytes_written = _
    rw [List.take_append_of_le_length produced.fits]
    exact produced.output
  within := produced.within
  fits := by
    change p.self.m_out_bytes_written ≤ (p.out.data ++ more).length
    rw [List.length_append]
    exact Nat.le_trans produced.fits (Nat.le_add_right _ _)

theorem Open.grow (between : Open array full digest p) (more : List Byte) :
    Open array full digest (p.grow more) := by
  have ready {unread : List Byte} (ready : Ready array full digest unread p) :
      Ready array full digest unread (p.grow more) :=
    ⟨ready.produced.grow more, ready.going, ready.rest, ready.hashed⟩
  cases between with
  | header reading => exact .header { reading with ready := ready reading.ready }
  | data reading unfinished => exact .data { reading with ready := ready reading.ready } unfinished

/-- Between two calls. -/
def Between (array full : List Byte) (digest : Digest) (p : PurgeProgress sha) : Prop :=
  Finished array full p ∨ Open array full digest p

/-- Nothing more could be done in a call with this input. -/
def Settled (array full : List Byte) (input : DecompressionBuffer) (p : PurgeProgress sha) : Prop :=
  p.self.m_done = true ∨ Stalled array full input p

theorem Decompress_spec (feeds : Feeds full input) (small : Short array)
    (closed : digest = sha.Finish (sha.Update sha.CreateContext (full.take (full.length - 20))))
    (between : Between array full digest p) (there : p.in_bytes_read ≤ input.bytes_written) :
    ∃ q, Decompress input p = some (true, q) ∧ Between array full digest q ∧
      q.in_bytes_read ≤ input.bytes_written ∧ Settled array full input q := by
  rcases between with finished | between
  · have done : (p.start input).self.m_done = true := by
      rw [start]
      split
      · exact finished.done
      · exact finished.done
    have ended : ¬ (p.start input).running input = true := by
      intro running
      rw [(running_iff.mp running).1] at done
      cases done
    have same : Finished array full (p.start input) := by
      rw [start]
      split
      · exact finished
      · exact ⟨{ finished.produced with }, finished.done, finished.read, finished.written⟩
    refine ⟨p.start input, if_neg ended, .inl same, ?_, .inl done⟩
    rw [same.read, ← finished.read]
    exact there
  · obtain ⟨open_start, started, read, out, written⟩ := start_of_open feeds there between
    obtain ⟨unread, ready⟩ := between.ready
    have space := ready.produced.space
    obtain ⟨q, result, -, read_q, final⟩ := loop_spec feeds small closed open_start started
      (read.symm ▸ there)
      (by rw [read, out, written, ← space]; exact Nat.lt_succ_self _)
    refine ⟨q, result, ?_, read_q, ?_⟩
    · rcases final with finished | ⟨next, -⟩
      · exact .inl finished
      · exact .inr next
    · rcases final with finished | ⟨-, stalled⟩
      · exact .inl finished.done
      · exact .inr stalled

end PurgeProgress

namespace PurgeCall

open PurgeProgress

/-- The input buffers hold growing prefixes of `full`, from the first `count` bytes on. -/
def Growing (full : List Byte) : Nat → List PurgeCall → Prop
  | _, [] => True
  | count, call :: calls => Feeds full call.input ∧ count ≤ call.input.bytes_written ∧
      Growing full call.input.bytes_written calls

theorem runAll_spec (small : Short array)
    (closed : digest = sha.Finish (sha.Update sha.CreateContext (full.take (full.length - 20))))
    {count : Nat} {calls : List PurgeCall} (growing : Growing full count calls)
    (between : Between array full digest p) (there : p.in_bytes_read ≤ count) :
    ∃ q, runAll calls p = some (true, q) ∧ Between array full digest q ∧
      ((∃ call ∈ calls, call.input.bytes_written = full.length) →
        array.length ≤ q.out.data.length → q.self.m_done = true) := by
  induction calls generalizing count p with
  | nil => exact ⟨p, rfl, between, fun ⟨_, mem, _⟩ => absurd mem List.not_mem_nil⟩
  | cons call calls ih =>
      obtain ⟨feeds, more, growing⟩ := growing
      have grown : Between array full digest (p.grow call.more) := by
        rcases between with finished | between
        · exact .inl ⟨finished.produced.grow call.more, finished.done, finished.read,
            finished.written⟩
        · exact .inr (between.grow call.more)
      obtain ⟨q, first, between_q, read_q, settled⟩ :=
        Decompress_spec feeds small closed grown (Nat.le_trans there more)
      obtain ⟨r, rest, between_r, ends⟩ := ih growing between_q read_q
      refine ⟨r, ?_, between_r, ?_⟩
      · have ran : call.run p = some (true, q) := first
        rw [runAll, ran, Option.bind_some]
        exact congrArg (Option.map _) rest
      · intro whole room
        cases calls with
        | nil =>
            cases rest
            obtain ⟨last, mem, all⟩ := whole
            cases List.mem_singleton.mp mem
            rcases settled with done | short | small_out
            · exact done
            · omega
            · omega
        | cons next calls =>
            refine ends ?_ room
            obtain ⟨feeds_next, further, -⟩ := growing
            obtain ⟨some, mem, all⟩ := whole
            rcases List.mem_cons.mp mem with rfl | later
            · have limit := feeds_next.within
              exact ⟨next, List.mem_cons_self, by omega⟩
            · exact ⟨some, later, all⟩

end PurgeCall

/-! ## The round trip -/

theorem open_init (sha : SHA1) {preceding body : List Byte} (sparse : SparseFrom 8 array 0 runs)
    (encoded : body = encodeRuns array runs) :
    PurgeProgress.Open array (preceding ++ (body ++ digest.1)) digest
      (PurgeProgress.init sha preceding array.length) := by
  have start : PurgeProgress.InHeader array (preceding ++ (body ++ digest.1)) digest runs body
      (PurgeProgress.init sha preceding array.length) := {
    ready := {
      produced := ⟨rfl, rfl, rfl, Nat.zero_le _, Nat.zero_le _⟩
      going := rfl
      rest := List.drop_left
      hashed := fun started => absurd started Bool.false_ne_true }
    few := Nat.succ_pos 7
    length := rfl
    bytes := encoded
    sparse := sparse }
  exact .header start

/-- The compressor keeps to its buffer. Fed its output after the same preceding data, in growing
prefixes and with growing output buffers, every call of the decompressor succeeds, the output is a
prefix of the array, and the decompressor is done when it has taken all of the input and has
produced all of the array, which it does as soon as it can. -/
theorem purge_round_trip (sha : SHA1) (preceding array : List Byte)
    (small : array.length < 2 ^ 32) :
    ∃ c, PurgeCompressor.run sha preceding array = some c ∧
      c.m_bytes_written ≤ c.m_buffer.length ∧
      ∀ calls, PurgeCall.Growing (preceding ++ c.output) preceding.length calls →
        ∃ p, PurgeCall.runAll calls (PurgeProgress.init sha preceding array.length) =
            some (true, p) ∧
          p.out.data.take p.out.bytes_written = array.take p.out.bytes_written ∧
          (p.self.m_done = true ↔ p.in_bytes_read = (preceding ++ c.output).length ∧
            p.out.bytes_written = array.length) ∧
          ((∃ call ∈ calls, call.input.bytes_written = (preceding ++ c.output).length) →
            array.length ≤ p.out.data.length → p.self.m_done = true) := by
  obtain ⟨runs, c, sparse, compressed, fits, output⟩ :=
    @PurgeCompressor.run_spec sha preceding array small
  generalize digest_def : sha.Finish
    (sha.Update sha.CreateContext (preceding ++ encodeRuns array runs)) = digest at output
  have closed : digest = sha.Finish (sha.Update sha.CreateContext
      ((preceding ++ c.output).take ((preceding ++ c.output).length - 20))) := by
    have body : (preceding ++ c.output).take ((preceding ++ c.output).length - 20) =
        preceding ++ encodeRuns array runs := by
      rw [output, ← List.append_assoc]
      apply List.take_left'
      simp only [List.length_append, digest.2]
      omega
    rw [body, digest_def]
  refine ⟨c, compressed, fits, fun calls growing => ?_⟩
  have first : PurgeProgress.Open array (preceding ++ c.output) digest
      (PurgeProgress.init sha preceding array.length) := by
    rw [output]
    exact open_init sha sparse rfl
  obtain ⟨p, ran, between, ends⟩ :=
    PurgeCall.runAll_spec small closed growing (.inr first) (Nat.le_refl _)
  refine ⟨p, ran, ?_, ?_, ends⟩
  · rcases between with finished | between
    · rw [finished.produced.written]
      exact finished.produced.output
    · obtain ⟨unread, ready⟩ := between.ready
      rw [ready.produced.written]
      exact ready.produced.output
  · rcases between with finished | between
    · refine ⟨fun _ => ⟨finished.read, ?_⟩, fun _ => finished.done⟩
      rw [finished.produced.written, finished.written]
    · obtain ⟨unread, ready⟩ := between.ready
      have left := ready.length
      constructor
      · intro done
        rw [ready.going] at done
        cases done
      · intro taken
        omega

/-- A byte, ten zeros and a byte, after four bytes of exception lists. -/
def gapData : List Byte := 1 :: (List.replicate 10 0 ++ [2])

/-- SHA-1 as far as `gapData` needs it. -/
def gapSHA1 : SHA1 where
  Context := List Byte
  CreateContext := []
  Update context bytes := context ++ bytes
  Finish bytes :=
    if bytes = [0, 0, 0, 0] ++ encodeRuns gapData [(0, 1), (11, 12)] then
      ⟨[0xA5, 0xB1, 0xC9, 0x2B, 0x9F, 0x27, 0xA7, 0x73, 0xD6, 0x7E,
        0x4F, 0xBF, 0x2E, 0x6D, 0x92, 0x7C, 0x22, 0x99, 0xB0, 0x34], rfl⟩
    else ⟨List.replicate 20 0, List.length_replicate⟩
  update_append := List.append_assoc

theorem purge_round_trip_gap :
    ∃ c, PurgeCompressor.run gapSHA1 [0, 0, 0, 0] gapData = some c ∧
      ∀ calls, PurgeCall.Growing ([0, 0, 0, 0] ++ c.output) 4 calls →
        ∃ p, PurgeCall.runAll calls (PurgeProgress.init gapSHA1 [0, 0, 0, 0] 12) =
          some (true, p) := by
  obtain ⟨c, compressed, -, feeds⟩ := purge_round_trip gapSHA1 [0, 0, 0, 0] gapData (by decide)
  refine ⟨c, compressed, fun calls growing => ?_⟩
  obtain ⟨p, ran, -⟩ := feeds calls growing
  exact ⟨p, ran⟩

end Phocoena.DiscIO
