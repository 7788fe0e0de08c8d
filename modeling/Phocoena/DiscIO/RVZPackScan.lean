import Phocoena.DiscIO.JunkData
import Phocoena.DiscIO.RVZPack
import Phocoena.Lib.Runs
import Mathlib.Data.List.TakeWhile

/-! # The scan of RVZ packing

Every junk run that the scan notes is one that its seed generates, also from any later place
in it, which is what a chunk that starts inside the run needs.
-/

namespace Phocoena.DiscIO.RVZPack

open LaggedFibonacciGenerator

/-- Inputs as the callers have them: they fit into memory, and start at a whole word. -/
structure Input.WellFormed (input : Input) : Prop where
  aligned : input.data_offset % 4 = 0
  fits : input.total_size < 2 ^ 64

variable {input : Input} {s t : Scan}

/-! ## Junk runs -/

/-- From any byte of the run on, the seed generates the input up to the end of the run. -/
def Generated (input : Input) (key : Nat) (info : JunkInfo) : Prop :=
  ∀ o j, info.start_offset ≤ o → o + j < key →
    input.data[o + j]? = some (junk info.seed ((input.data_offset + o) % BLOCK_TOTAL_SIZE + j))

def AllGenerated (input : Input) (junk_info : JunkMap) : Prop :=
  ∀ entry ∈ junk_info, Generated input entry.1 entry.2

theorem mem_emplace {key : Nat} {info : JunkInfo} {map : JunkMap} {entry : Nat × JunkInfo}
    (h : entry ∈ map.emplace key info) : entry = (key, info) ∨ entry ∈ map := by
  induction map with
  | nil => exact .inl (List.mem_singleton.mp h)
  | cons e map ih =>
      unfold JunkMap.emplace at h
      split at h
      · exact List.mem_cons.mp h
      · split at h
        · exact .inr h
        · cases List.mem_cons.mp h with
          | inl same => exact .inr (List.mem_cons.mpr (.inl same))
          | inr rest =>
              cases ih rest with
              | inl new => exact .inl new
              | inr old => exact .inr (List.mem_cons_of_mem _ old)

theorem AllGenerated.emplace {junk_info : JunkMap} (h : AllGenerated input junk_info) {key : Nat}
    {info : JunkInfo} (new : Generated input key info) :
    AllGenerated input (junk_info.emplace key info) := by
  intro entry mem
  cases mem_emplace mem with
  | inl same => exact same ▸ new
  | inr old => exact h entry old

/-! ## Zero bytes -/

theorem zeroes_le (input : Input) {position : Nat} (le : position ≤ input.total_size) :
    position + zeroes input position ≤ input.total_size := by
  have front := List.takeWhile_prefix (fun x => decide (x = (0 : Byte)))
    (l := input.data.drop position)
  have := front.length_le
  rw [List.length_drop] at this
  unfold zeroes Input.total_size at *
  omega

theorem zero_of_lt_zeroes {position j : Nat} (lt : j < zeroes input position) :
    input.data[position + j]? = some 0 := by
  have front := List.takeWhile_prefix (fun x => decide (x = (0 : Byte)))
    (l := input.data.drop position)
  have zero := List.mem_takeWhile_imp (List.getElem_mem lt)
  rw [← List.getElem?_drop, List.getElem?_eq_getElem (Nat.lt_of_lt_of_le lt front.length_le),
    ← front.getElem lt]
  exact congrArg some (of_decide_eq_true zero)

/-- A run of zero bytes is generated by the zero seed. -/
theorem generated_zeroes (position : Nat) :
    Generated input (position + zeroes input position) ⟨position, zeroSeed⟩ := by
  intro o j start lt
  rw [show zeroSeed = Vector.replicate SEED_SIZE 0 from rfl, junk_zero]
  have := @zero_of_lt_zeroes input position (o - position + j) (by simp only at start; omega)
  rw [← this]
  congr 1
  simp only at start
  omega

/-! ## One iteration -/

/-- The offset belongs to the position. -/
structure At (input : Input) (s : Scan) : Prop where
  inside : s.position ≤ input.total_size
  offset : s.data_offset = input.data_offset + s.position

theorem At.skipZeroes (h : At input s) : At input (skipZeroes input s) where
  inside := zeroes_le input h.inside
  offset := by
    simp only [RVZPack.skipZeroes, h.offset]
    omega

theorem AllGenerated.skipZeroes (h : AllGenerated input s.junk_info) :
    AllGenerated input (skipZeroes input s).junk_info := by
  unfold RVZPack.skipZeroes
  dsimp only
  split
  · exact h.emplace (generated_zeroes s.position)
  · exact h

theorem bytesToRead_le (h : At input s) : s.position + bytesToRead input s ≤ input.total_size := by
  have := h.inside
  unfold bytesToRead
  omega

/-- `GetSeed` is asked about bytes of one block. -/
theorem bytesToRead_in_block (input : Input) (s : Scan) :
    s.data_offset % BLOCK_TOTAL_SIZE + bytesToRead input s ≤ BLOCK_TOTAL_SIZE := by
  unfold bytesToRead alignUp BLOCK_TOTAL_SIZE
  omega

theorem bytesToRead_pos (h : s.position < input.total_size) : 0 < bytesToRead input s := by
  unfold bytesToRead alignUp BLOCK_TOTAL_SIZE
  omega

/-- The bytes that `GetSeed` skips to come to a whole word. -/
def bytesToSkip (s : Scan) : Nat :=
  alignUp (s.data_offset % BLOCK_TOTAL_SIZE) 4 - s.data_offset % BLOCK_TOTAL_SIZE

/-- The bytes that `GetSeed` counts are generated by the seed that it returns. -/
def Honest (input : Input) (s : Scan) : Prop :=
  ∀ n seed, seedAt input s = .ok (n, some seed) → ∀ j < n,
    input.data[s.position + j]? = some (junk seed (s.data_offset % BLOCK_TOTAL_SIZE + j))

theorem honest_of_sameGroup (group : SameGroup (s.data_offset % BLOCK_TOTAL_SIZE)) :
    Honest input s := by
  intro n seed asked j lt
  obtain ⟨seed', same, generated⟩ := getSeed_generates asked group (by omega)
  cases same
  exact generated j lt

theorem generated_of_honest (h : At input s) (honest : Honest input s) {n : Nat} {seed : Seed}
    (asked : seedAt input s = .ok (n, some seed)) :
    Generated input (s.position + n) ⟨s.position, seed⟩ := by
  intro o j start lt
  have le := getSeed_le asked
  have block := bytesToRead_in_block input s
  have := honest n seed asked (o - s.position + j) (by simp only at start; omega)
  simp only at start
  rw [show s.position + (o - s.position + j) = o + j by omega] at this
  rw [this, h.offset]
  rw [h.offset] at block
  congr 2
  unfold BLOCK_TOTAL_SIZE at block ⊢
  omega

theorem AllGenerated.storeJunk (h : AllGenerated input s.junk_info) (place : At input s)
    (honest : Honest input s) {found : Nat × Option Seed} (asked : seedAt input s = .ok found) :
    AllGenerated input (RVZPack.storeJunk s found) := by
  unfold RVZPack.storeJunk
  split
  · split
    · exact h.emplace (generated_of_honest place honest asked)
    · exact h
  · exact h

/-- Where the scan goes on. -/
theorem advance_position (input : Input) (s : Scan) (found : Nat × Option Seed) :
    ∃ n ≤ bytesToRead input s, (0 < bytesToRead input s → 0 < n) ∧ advance input s found =
      ⟨s.position + n, s.data_offset + n, storeJunk s found⟩ := by
  unfold advance
  dsimp only
  split
  · exact ⟨_, Nat.le_refl _, id, rfl⟩
  · next file_info lookup =>
    obtain ⟨fs, -, found_file⟩ := Option.bind_eq_some_iff.mp lookup
    have contains := fs.contains _ _ found_file
    split
    · next short =>
      refine ⟨file_info.offset + file_info.size - s.data_offset, by omega, fun _ => by omega, ?_⟩
      rw [show s.data_offset + (file_info.offset + file_info.size - s.data_offset) =
        file_info.offset + file_info.size by omega]
    · exact ⟨_, Nat.le_refl _, id, rfl⟩

/-- `GetSeed` is asked about at least the bytes that it skips. -/
def Enough (input : Input) (s : Scan) : Prop := bytesToSkip s ≤ bytesToRead input s

instance : Decidable (Enough input s) := inferInstanceAs (Decidable (_ ≤ _))

theorem seedAt_total (wellFormed : input.WellFormed) (h : At input s) (enough : Enough input s) :
    ∃ found, seedAt input s = .ok found := by
  have le := bytesToRead_le h
  have fits := wellFormed.fits
  exact getSeed_total enough le (by omega)

/-- Only the end of the input can be so near: a block ends with a whole word. -/
theorem seedAt_error (wellFormed : input.WellFormed) (h : At input s)
    (short : ¬ Enough input s) : seedAt input s = .error .readPastEnd := by
  have aligned := wellFormed.aligned
  have inside := h.inside
  have offset := h.offset
  unfold Enough bytesToSkip at short
  refine getSeed_error (by omega) ?_ ?_
  · unfold bytesToRead alignUp BLOCK_TOTAL_SIZE at short ⊢
    unfold Input.total_size at *
    omega
  · unfold BLOCK_TOTAL_SIZE
    omega

/-! ## The loop -/

def next (input : Input) (_ : Unit) (s : Scan) : Option Scan :=
  if s.position < input.total_size then (scanStep input s).toOption else none

/-- The states in which the loop starts an iteration, or ends. -/
def Scanned (input : Input) (s : Scan) : Prop :=
  Reaches (next input) (fun _ _ => True) ⟨0, input.data_offset, []⟩ s

theorem scanStep_ok (h : scanStep input s = .ok t) :
    ∃ found, seedAt input (skipZeroes input s) = .ok found ∧
      t = advance input (skipZeroes input s) found := by
  obtain ⟨found, asked, done⟩ := bind_eq_ok.mp h
  exact ⟨found, asked, (Except.ok.inj done).symm⟩

theorem next_ok (h : next input () s = some t) :
    s.position < input.total_size ∧ scanStep input s = .ok t := by
  unfold next at h
  split at h
  · next lt =>
    cases step : scanStep input s with
    | error e => simp [step, Except.toOption] at h
    | ok u => simpa [step, Except.toOption, lt] using h
  · cases h

/-- Every iteration moves on, and stays in the input. -/
theorem scanStep_moves (h : At input s) (lt : s.position < input.total_size)
    (step : scanStep input s = .ok t) : At input t ∧ s.position < t.position := by
  obtain ⟨found, -, rfl⟩ := scanStep_ok step
  obtain ⟨n, le, moves, same⟩ := advance_position input (skipZeroes input s) found
  have place := h.skipZeroes
  have inside := bytesToRead_le place
  have skipped : s.position ≤ (skipZeroes input s).position := Nat.le_add_right _ _
  rw [same]
  refine ⟨⟨?_, ?_⟩, ?_⟩
  · simp only
    omega
  · simp only [place.offset]
    omega
  · simp only
    by_cases here : (skipZeroes input s).position < input.total_size
    · have := moves (bytesToRead_pos here)
      omega
    · omega

theorem at_of_scanned (h : Scanned input s) : At input s := by
  refine h.invariant ⟨Nat.zero_le _, by simp⟩ fun _ s t place _ step => ?_
  obtain ⟨lt, step⟩ := next_ok step
  exact (scanStep_moves place lt step).1

/-- `GetSeed` always gets the bytes that it skips. -/
def ReadsInside (input : Input) : Prop :=
  ∀ s, Scanned input s → s.position < input.total_size → Enough input (skipZeroes input s)

/-- `GetSeed` is right about the bytes in front of the first whole word when that word is in the
next group. -/
def CountsRightly (input : Input) : Prop :=
  ∀ s, Scanned input s → s.position < input.total_size →
    ¬ SameGroup ((skipZeroes input s).data_offset % BLOCK_TOTAL_SIZE) →
    Honest input (skipZeroes input s)

theorem scanLoop_of_reads (wellFormed : input.WellFormed) (reads : ReadsInside input)
    {fuel : Nat} (scanned : Scanned input s) (enough : input.total_size - s.position < fuel) :
    ∃ t, Scanned input t ∧ scanLoop input fuel s = some (.ok t.junk_info) := by
  induction fuel generalizing s with
  | zero => omega
  | succ fuel ih =>
      unfold scanLoop
      split
      · next lt =>
        have place := at_of_scanned scanned
        obtain ⟨found, asked⟩ := seedAt_total wellFormed place.skipZeroes (reads s scanned lt)
        have step : scanStep input s = .ok (advance input (skipZeroes input s) found) :=
          bind_eq_ok.mpr ⟨found, asked, rfl⟩
        have moves := scanStep_moves place lt step
        have run : Scanned input (advance input (skipZeroes input s) found) := by
          refine scanned.tail trivial (a := ()) ?_
          rw [next, if_pos lt, step]
          rfl
        rw [step]
        exact ih run (by have := moves.1.inside; omega)
      · exact ⟨s, scanned, rfl⟩

theorem allGenerated_of_scanned (counts : CountsRightly input) (scanned : Scanned input s) :
    AllGenerated input s.junk_info := by
  induction scanned with
  | refl => exact fun entry mem => absurd mem List.not_mem_nil
  | @tail s t _ run _ step ih =>
      obtain ⟨lt, step⟩ := next_ok step
      obtain ⟨found, asked, rfl⟩ := scanStep_ok step
      obtain ⟨n, -, -, same⟩ := advance_position input (skipZeroes input s) found
      have place := (at_of_scanned run).skipZeroes
      rw [same]
      refine ih.skipZeroes.storeJunk place ?_ asked
      by_cases group : SameGroup ((skipZeroes input s).data_offset % BLOCK_TOTAL_SIZE)
      · exact honest_of_sameGroup group
      · exact counts _ run lt group

/-- The scan ends, and only notes junk that its seeds generate. -/
theorem scan_of_reads (wellFormed : input.WellFormed) (reads : ReadsInside input)
    (counts : CountsRightly input) :
    ∃ junk_info, scan input = some (.ok junk_info) ∧ AllGenerated input junk_info := by
  have start : Scanned input ⟨0, input.data_offset, []⟩ := .refl
  obtain ⟨t, scanned, done⟩ := @scanLoop_of_reads input _ wellFormed reads (input.total_size + 1)
    start (Nat.lt_succ_of_le (Nat.sub_le _ _))
  exact ⟨t.junk_info, done, allGenerated_of_scanned counts scanned⟩

/-- A scan that ends well has asked `GetSeed` for enough bytes everywhere. -/
theorem reads_of_scan (wellFormed : input.WellFormed) {junk_info : JunkMap}
    (done : scan input = some (.ok junk_info)) : ReadsInside input := by
  intro s scanned lt
  by_contra short
  have later : ∃ fuel, scanLoop input fuel s = some (.ok junk_info) := by
    clear lt short
    induction scanned with
    | refl => exact ⟨_, done⟩
    | tail run _ step ih =>
        obtain ⟨fuel, rest⟩ := ih
        obtain ⟨lt, step⟩ := next_ok step
        cases fuel with
        | zero => cases rest
        | succ fuel =>
            rw [scanLoop, if_pos lt, step] at rest
            exact ⟨fuel, rest⟩
  obtain ⟨fuel, rest⟩ := later
  have asked := seedAt_error wellFormed (at_of_scanned scanned).skipZeroes short
  have step : scanStep input s = .error .readPastEnd := by
    unfold scanStep
    dsimp only
    rw [asked]
    rfl
  cases fuel with
  | zero => cases rest
  | succ fuel =>
      rw [scanLoop, if_pos lt, step] at rest
      cases rest

end Phocoena.DiscIO.RVZPack

/-! ## Packed chunks

What `RVZPack` stores for a chunk: its bytes as they are, or runs of data and of junk that
expand to them.
-/

namespace Phocoena.DiscIO.RVZPack

open LaggedFibonacciGenerator

/-! ## Segments -/

/-- A run in a packed chunk. -/
inductive Segment where
  | data (bytes : List Byte)
  | junk (size : Nat) (seed : Seed)

namespace Segment

def size : Segment → Nat
  | data bytes => bytes.length
  | junk size _ => size

/-- The bytes that the run stands for at a data offset. -/
def bytes (data_offset : Nat) : Segment → List Byte
  | data bytes => bytes
  | junk size seed => (List.range size).map fun j =>
      LaggedFibonacciGenerator.junk seed (data_offset % BLOCK_TOTAL_SIZE + j)

def encode : Segment → List Byte
  | data bytes => Codec.be32.encode (BitVec.ofNat 32 bytes.length) ++ bytes
  | junk size seed => Codec.be32.encode (BitVec.ofNat 32 size ||| 0x80000000#32) ++
      (Codec.le32.array SEED_SIZE).encode seed

/-- The size of the run fits into its header. -/
def Fits (segment : Segment) : Prop := 0 < segment.size ∧ segment.size < 2 ^ 31

theorem length_bytes (segment : Segment) (data_offset : Nat) :
    (segment.bytes data_offset).length = segment.size := by
  cases segment <;> simp [bytes, size]

end Segment

def encode (segments : List Segment) : List Byte := segments.flatMap Segment.encode

def expand (data_offset : Nat) : List Segment → List Byte
  | [] => []
  | segment :: segments => segment.bytes data_offset ++ expand (data_offset + segment.size) segments

def expandedSize (segments : List Segment) : Nat := (segments.map Segment.size).sum

section
variable (data_offset : Nat) (segments : List Segment) (segment : Segment)

theorem encode_concat : encode (segments ++ [segment]) = encode segments ++ segment.encode := by
  simp [encode]

theorem length_expand : (expand data_offset segments).length = expandedSize segments := by
  induction segments generalizing data_offset with
  | nil => rfl
  | cons s segments ih => simp [expand, expandedSize, Segment.length_bytes, ih]

theorem expand_concat : expand data_offset (segments ++ [segment]) =
    expand data_offset segments ++ segment.bytes (data_offset + expandedSize segments) := by
  induction segments generalizing data_offset with
  | nil => simp [expand, expandedSize]
  | cons s segments ih =>
      simp [expand, expandedSize, ih, Nat.add_assoc]

theorem expandedSize_concat :
    expandedSize (segments ++ [segment]) = expandedSize segments + segment.size := by
  simp [expandedSize]

end

/-- The bytes of the input from `start` to before `stop`. -/
def Input.slice (input : Input) (start stop : Nat) : List Byte :=
  (input.data.drop start).take (stop - start)

variable {input : Input}

theorem Input.length_slice {start stop : Nat} (le : stop ≤ input.total_size) :
    (input.slice start stop).length = stop - start := by
  unfold Input.slice Input.total_size at *
  rw [List.length_take, List.length_drop]
  omega

theorem Input.slice_append {a b c : Nat} (first : a ≤ b) (second : b ≤ c) :
    input.slice a b ++ input.slice b c = input.slice a c := by
  unfold Input.slice
  have split : c - a = (b - a) + (c - b) := by omega
  rw [split, List.take_add, List.drop_drop, show a + (b - a) = b by omega]

/-- What is stored for the bytes from `start` to before `stop`. -/
inductive Stored (input : Input) (start stop : Nat) (main_data : List Byte)
    (rvz_packed_size : BitVec 32) : Prop where
  | raw (bytes : main_data = input.slice start stop) (size : rvz_packed_size = 0)
  | packed (segments : List Segment) (bytes : main_data = encode segments)
      (size : rvz_packed_size.toNat = (encode segments).length) (some : segments ≠ [])
      (fits : ∀ segment ∈ segments, segment.Fits)
      (expands : expand (input.data_offset + start) segments = input.slice start stop)

end Phocoena.DiscIO.RVZPack
