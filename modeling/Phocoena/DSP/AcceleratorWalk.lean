import Phocoena.DSP.Accelerator

/-! # The walk of the accelerator through a sample

A sample is stored in frames of sixteen nibbles whose first two are a header. A walk reads the other
nibbles from the current address to the end, each with the header of its frame, and then starts over
or stops. Where it computes the samples in exact integers and ends as it should is exact.
-/

namespace Phocoena.DSP

/-- The nibbles of a sample from an address to the last one, without those of frame headers. -/
def nonHeaderNibbles (current last : Nat) : List Nat :=
  (List.range' current (last + 1 - current)).filter (2 ≤ · % 16)

/-- The address after a nibble's, past the header of the next frame. -/
def nextNibble (current : Nat) : Nat :=
  if (current + 1) % 16 = 0 then current + 3 else current + 1

/-- The greatest address up to `last` that is not in a header. -/
def lastNibble (last : Nat) : Nat :=
  if last % 16 < 2 then last - last % 16 - 1 else last

/-- The nibble at an address, high nibbles first, as a signed number. -/
def nibbleAt (mem : BitVec 32 → BitVec 8) (address : Nat) : Int :=
  let byte := (mem (BitVec.ofNat 32 (address / 2))).toNat
  let nibble := if address % 2 = 1 then byte % 16 else byte / 16
  if nibble < 8 then nibble else (nibble : Int) - 16

/-- The header of the frame of an address. -/
def headerAt (mem : BitVec 32 → BitVec 8) (address : Nat) : BitVec 16 :=
  (mem (BitVec.ofNat 32 (address / 16 * 8))).setWidth 16

/-- The header that counts for an address: the register's in the frame where a walk begins. -/
def scaleAt (mem : BitVec 32 → BitVec 8) (pred_scale : BitVec 16) (current address : Nat) :
    BitVec 16 :=
  if address / 16 = current / 16 then pred_scale else headerAt mem address

/-! ## Samples in exact integers -/

section
variable (coefs : Nat → BitVec 16) (pred_scale : BitVec 16)

def exactProduct1 (yn1 : Int) : Int := (coefs (pred_scale.toNat / 16 % 8 * 2)).toInt * yn1

def exactProduct2 (yn2 : Int) : Int := (coefs (pred_scale.toNat / 16 % 8 * 2 + 1)).toInt * yn2

def exactHistory (yn1 yn2 : Int) : Int :=
  0x400 + exactProduct1 coefs pred_scale yn1 + exactProduct2 coefs pred_scale yn2

def exactScaled (nibble : Int) : Int := 2 ^ (pred_scale.toNat % 16) * nibble

def exactVal (yn1 yn2 nibble : Int) : Int :=
  exactScaled pred_scale nibble + exactHistory coefs pred_scale yn1 yn2 / 2 ^ 11

def exactSample (yn1 yn2 nibble : Int) : Int :=
  max (-32768) (min 32767 (exactVal coefs pred_scale yn1 yn2 nibble))

end

/-- The samples of a list of nibbles, each from the two before it. -/
def exactSamples (coefs : Nat → BitVec 16) (mem : BitVec 32 → BitVec 8)
    (scale : Nat → BitVec 16) : (yn1 yn2 : Int) → List Nat → List Int
  | _, _, [] => []
  | yn1, yn2, address :: rest =>
      let sample := exactSample coefs (scale address) yn1 yn2 (nibbleAt mem address)
      sample :: exactSamples coefs mem scale sample yn1 rest

namespace Accelerator

variable (mem : BitVec 32 → BitVec 8) (coefs : Nat → BitVec 16) (a : Accelerator)

/-- Reading a sample of 4-bit ADPCM, at a nibble that is not in a header. -/
structure InSample : Prop where
  adpcm : a.m_sample_format.decode = .ADPCM
  nibbles : a.m_sample_format.size = .Size4Bit
  reading : a.m_reads_stopped = false
  start_lt : a.m_start_address.toNat < 2 ^ 30 - 32
  end_lt : a.m_end_address.toNat < 2 ^ 30 - 32
  current_le : a.m_current_address.toNat ≤ a.m_end_address.toNat
  nibble : 2 ≤ a.m_current_address.toNat % 16

/-- The `s32` values of the next read are those of exact integers. -/
structure ExactValues : Prop where
  scaled : (a.adpcmScaled mem).toInt =
    exactScaled a.m_pred_scale (nibbleAt mem a.m_current_address.toNat)
  product1 : (a.adpcmProduct1 coefs).toInt = exactProduct1 coefs a.m_pred_scale a.m_yn1.toInt
  product2 : (a.adpcmProduct2 coefs).toInt = exactProduct2 coefs a.m_pred_scale a.m_yn2.toInt
  rounded : (0x400 + a.adpcmProduct1 coefs).toInt =
    0x400 + exactProduct1 coefs a.m_pred_scale a.m_yn1.toInt
  history : (a.adpcmHistory coefs).toInt =
    exactHistory coefs a.m_pred_scale a.m_yn1.toInt a.m_yn2.toInt
  val : (a.adpcmVal32 mem coefs).toInt = exactVal coefs a.m_pred_scale a.m_yn1.toInt
    a.m_yn2.toInt (nibbleAt mem a.m_current_address.toNat)

/-- How a walk ends: silently for an end address in a header, else with one exception and reads that
return zero until `SetYn2`. -/
def Ends (final : Accelerator) : Prop :=
  if a.m_end_address.toNat % 16 < 2 then
    final.m_current_address.toNat = a.m_start_address.toNat + (1 - a.m_end_address.toNat % 16) ∧
      final.m_reads_stopped = false ∧ final.sample_ends = a.sample_ends
  else
    final.m_current_address = a.m_start_address ∧ final.sample_ends = a.sample_ends + 1 ∧
      (∀ k, final.after mem coefs k = final) ∧ (final.ReadSample mem coefs).1 = 0 ∧
      ∀ yn2, (final.SetYn2 yn2).m_reads_stopped = false

/-- The number of nibbles from the current address to the end. -/
def walkLength : Nat :=
  (nonHeaderNibbles a.m_current_address.toNat a.m_end_address.toNat).length

/-- The registers before each read of the walk. -/
def walkStates : List Accelerator := a.readingStates mem coefs a.walkLength

/-- The reads of a walk: which nibbles, with which headers, with nothing raised. -/
structure ReadsInOrder : Prop where
  reads : (a.walkStates mem coefs).map (·.m_current_address.toNat) =
    nonHeaderNibbles a.m_current_address.toNat a.m_end_address.toNat
  scales : ∀ s ∈ a.walkStates mem coefs, s.m_pred_scale =
    scaleAt mem a.m_pred_scale a.m_current_address.toNat s.m_current_address.toNat
  quiet : ∀ s ∈ a.walkStates mem coefs,
    s.m_reads_stopped = false ∧ s.sample_ends = a.sample_ends

/-- The walk reads each nibble once, in exact integers, and ends. -/
structure WalksOnce : Prop where
  inOrder : a.ReadsInOrder mem coefs
  samples : (a.walkStates mem coefs).map (fun s => (s.ReadSample mem coefs).1.toInt) =
    exactSamples coefs mem (scaleAt mem a.m_pred_scale a.m_current_address.toNat)
      a.m_yn1.toInt a.m_yn2.toInt
      (nonHeaderNibbles a.m_current_address.toNat a.m_end_address.toNat)
  exact : ∀ s ∈ a.walkStates mem coefs, s.ExactValues mem coefs
  ends : a.Ends mem coefs (a.after mem coefs a.walkLength)

/-- A silent restart does not land where the end is checked for. -/
def RestartsApart : Prop :=
  ¬ (a.m_end_address.toNat % 16 = 0 ∧ a.m_start_address = a.m_end_address) ∧
    ¬ (a.m_end_address.toNat % 16 = 1 ∧ a.m_start_address = a.m_end_address + 1)

/-- Both coefficients and both samples of the history have the least value. -/
def AllLeast : Prop :=
  coefs (a.coef_idx * 2) = -32768 ∧ coefs (a.coef_idx * 2 + 1) = -32768 ∧
    a.m_yn1 = -32768 ∧ a.m_yn2 = -32768

instance : Decidable (a.AllLeast coefs) := inferInstanceAs (Decidable (_ ∧ _ ∧ _ ∧ _))

end Accelerator

/-! ## Nibbles and addresses -/

theorem nonHeaderNibbles_of_lt {current last : Nat} (lt : last < current) :
    nonHeaderNibbles current last = [] := by
  rw [nonHeaderNibbles, show last + 1 - current = 0 by omega]
  rfl

theorem nonHeaderNibbles_of_le {current last : Nat} (le : current ≤ last) :
    nonHeaderNibbles current last =
      if 2 ≤ current % 16 then current :: nonHeaderNibbles (current + 1) last
      else nonHeaderNibbles (current + 1) last := by
  have split : List.range' current (last + 1 - current) =
      current :: List.range' (current + 1) (last + 1 - (current + 1)) := by
    rw [show last + 1 - current = (last + 1 - (current + 1)) + 1 by omega, List.range'_succ]
  rw [nonHeaderNibbles, split, List.filter_cons]
  simp only [decide_eq_true_eq]
  rfl

theorem nonHeaderNibbles_header {current last : Nat} (header : current % 16 < 2) :
    nonHeaderNibbles current last = nonHeaderNibbles (current + 1) last := by
  by_cases le : current ≤ last
  · rw [nonHeaderNibbles_of_le le, if_neg (by omega)]
  · rw [nonHeaderNibbles_of_lt (by omega), nonHeaderNibbles_of_lt (by omega)]

/-- A nibble comes before those from the next address that is not in a header. -/
theorem nonHeaderNibbles_cons {current last : Nat} (le : current ≤ last)
    (nibble : 2 ≤ current % 16) :
    nonHeaderNibbles current last = current :: nonHeaderNibbles (nextNibble current) last := by
  rw [nonHeaderNibbles_of_le le, if_pos nibble, nextNibble]
  split
  · rw [nonHeaderNibbles_header (by omega), nonHeaderNibbles_header (by omega)]
  · rfl

theorem nonHeaderNibbles_last {current last : Nat} (isLast : current = lastNibble last)
    (nibble : 2 ≤ current % 16) : nonHeaderNibbles current last = [current] := by
  have le : current ≤ last := by
    rw [isLast, lastNibble]
    split <;> omega
  have after : last < nextNibble current ∨ last % 16 < 2 ∧ current + 1 = last - last % 16 := by
    rw [lastNibble] at isLast
    rw [nextNibble]
    split at isLast <;> split <;> omega
  rw [nonHeaderNibbles_cons le nibble]
  rcases after with lt | ⟨header, same⟩
  · rw [nonHeaderNibbles_of_lt lt]
  · rw [nextNibble, if_pos (by omega), nonHeaderNibbles_of_lt (by omega)]

/-- A nibble before the last one has another after it. -/
theorem nextNibble_le {current last : Nat} (le : current ≤ last) (nibble : 2 ≤ current % 16)
    (notLast : current ≠ lastNibble last) :
    nextNibble current ≤ last ∧ 2 ≤ nextNibble current % 16 ∧ current < nextNibble current := by
  rw [lastNibble] at notLast
  rw [nextNibble]
  split at notLast <;> split <;> omega

theorem toNat_and_15 (x : BitVec 32) : (x &&& 0xf).toNat = x.toNat % 16 := by
  rw [BitVec.toNat_and]
  exact Nat.and_two_pow_sub_one_eq_mod x.toNat 4

theorem and_15_eq_zero_iff (x : BitVec 32) : x &&& 0xf = 0 ↔ x.toNat % 16 = 0 := by
  rw [← BitVec.toNat_inj, toNat_and_15]
  rfl

theorem and_15_eq_one_iff (x : BitVec 32) : x &&& 0xf = 1 ↔ x.toNat % 16 = 1 := by
  rw [← BitVec.toNat_inj, toNat_and_15]
  rfl

theorem and_mask_of_lt {x : BitVec 32} (lt : x.toNat < 2 ^ 30) :
    x &&& CURRENT_ADDRESS_MASK = x := by
  have low : ∀ i < 30, CURRENT_ADDRESS_MASK.getLsbD i = true := by decide
  refine BitVec.eq_of_getLsbD_eq fun i _ => ?_
  rw [BitVec.getLsbD_and]
  by_cases below : i < 30
  · rw [low i below, Bool.and_true]
  · have high : x.getLsbD i = false :=
      Nat.testBit_lt_two_pow (Nat.lt_of_lt_of_le lt (Nat.pow_le_pow_right (by decide) (by omega)))
    rw [high, Bool.false_and]

/-! ## One read -/

namespace Accelerator

section
variable {mem : BitVec 32 → BitVec 8} {coefs : Nat → BitVec 16} {a : Accelerator}

/-- The sample that the next read computes. -/
def sample (mem : BitVec 32 → BitVec 8) (coefs : Nat → BitVec 16) (a : Accelerator) : BitVec 16 :=
  SaturatingCast (a.adpcmVal32 mem coefs)

theorem InSample.readSample (h : a.InSample) : a.ReadSample mem coefs =
    (a.sample mem coefs,
      (((a.pushSample (a.sample mem coefs)).increment.adpcmAdvance mem).1).checkLoop
        ((a.pushSample (a.sample mem coefs)).increment.adpcmAdvance mem).2) := by
  rw [ReadSample, h.reading, h.adpcm]
  rfl

-- What follows never looks into the value of a sample.
attribute [local irreducible] sample

theorem InSample.increment_toNat (h : a.InSample) :
    (a.m_current_address + 1).toNat = a.m_current_address.toNat + 1 := by
  have lt := h.end_lt
  have le := h.current_le
  rw [BitVec.toNat_add, show (1 : BitVec 32).toNat = 1 from rfl, Nat.mod_eq_of_lt (by omega)]

theorem checkLoop_apart {step_size : BitVec 32}
    (apart : a.m_current_address ≠ a.m_end_address + step_size - 1)
    (lt : a.m_current_address.toNat < 2 ^ 30) : a.checkLoop step_size = a := by
  unfold checkLoop
  rw [if_neg apart]
  simp only [SetCurrentAddress, and_mask_of_lt lt]

theorem checkLoop_at {step_size : BitVec 32}
    (here : a.m_current_address = a.m_end_address + step_size - 1)
    (lt : a.m_start_address.toNat < 2 ^ 30) : a.checkLoop step_size =
      { a with
        m_current_address := a.m_start_address
        m_reads_stopped := true
        sample_ends := a.sample_ends + 1 } := by
  unfold checkLoop
  rw [if_pos here]
  simp only [SetCurrentAddress, and_mask_of_lt lt]

/-- The registers after a read that does not reach the end. -/
def stepped (mem : BitVec 32 → BitVec 8) (coefs : Nat → BitVec 16) (a : Accelerator) :
    Accelerator :=
  { a.pushSample (a.sample mem coefs) with
    m_current_address := BitVec.ofNat 32 (nextNibble a.m_current_address.toNat)
    m_pred_scale := scaleAt mem a.m_pred_scale a.m_current_address.toNat
      (nextNibble a.m_current_address.toNat) }

section
variable (mem coefs a)

@[simp] theorem stepped_m_sample_format :
    (a.stepped mem coefs).m_sample_format = a.m_sample_format := by
  simp only [stepped, pushSample]

@[simp] theorem stepped_m_reads_stopped :
    (a.stepped mem coefs).m_reads_stopped = a.m_reads_stopped := by
  simp only [stepped, pushSample]

@[simp] theorem stepped_m_start_address :
    (a.stepped mem coefs).m_start_address = a.m_start_address := by
  simp only [stepped, pushSample]

@[simp] theorem stepped_m_end_address :
    (a.stepped mem coefs).m_end_address = a.m_end_address := by
  simp only [stepped, pushSample]

@[simp] theorem stepped_sample_ends : (a.stepped mem coefs).sample_ends = a.sample_ends := by
  simp only [stepped, pushSample]

end

theorem adpcmAdvance_zero (aligned : a.m_end_address.toNat % 16 = 0)
    (here : a.m_current_address = a.m_end_address) : a.adpcmAdvance mem =
      ({ a with m_current_address := a.m_start_address + 1 }, 2) := by
  rw [adpcmAdvance, if_pos ⟨(and_15_eq_zero_iff _).mpr aligned, here⟩]

theorem adpcmAdvance_one (odd : a.m_end_address.toNat % 16 = 1)
    (here : a.m_current_address = a.m_end_address - 1) : a.adpcmAdvance mem =
      ({ a with m_current_address := a.m_start_address }, 2) := by
  have notAligned : ¬ (a.m_end_address &&& 0xf = 0x0 ∧ a.m_current_address = a.m_end_address) := by
    rw [and_15_eq_zero_iff]
    omega
  rw [adpcmAdvance, if_neg notAligned, if_pos ⟨(and_15_eq_one_iff _).mpr odd, here⟩]

/-- No silent restart is due. -/
def Passes (a : Accelerator) : Prop :=
  ¬ (a.m_end_address &&& 0xf = 0x0 ∧ a.m_current_address = a.m_end_address) ∧
    ¬ (a.m_end_address &&& 0xf = 0x1 ∧ a.m_current_address = a.m_end_address - 1)

theorem adpcmAdvance_header (passes : a.Passes) (aligned : a.m_current_address.toNat % 16 = 0) :
    a.adpcmAdvance mem =
      ({ a with
          m_pred_scale := headerAt mem a.m_current_address.toNat
          m_current_address := a.m_current_address + 2 }, 4) := by
  have base : (a.m_current_address &&& ~~~15) >>> 1 =
      BitVec.ofNat 32 (a.m_current_address.toNat / 16 * 8) := by
    have whole : a.m_current_address &&& ~~~15 = a.m_current_address := by
      have low := (and_15_eq_zero_iff _).mpr aligned
      have parts : a.m_current_address = (a.m_current_address &&& ~~~15) |||
          (a.m_current_address &&& 15) := by
        rw [← BitVec.and_or_distrib_left, show (~~~15 ||| 15 : BitVec 32) = BitVec.allOnes 32 from rfl,
          BitVec.and_allOnes]
      rw [low] at parts
      exact (parts.trans (by simp)).symm
    have lt := a.m_current_address.isLt
    refine BitVec.eq_of_toNat_eq ?_
    rw [whole, BitVec.toNat_ushiftRight, BitVec.toNat_ofNat, Nat.shiftRight_eq_div_pow]
    omega
  rw [adpcmAdvance, if_neg passes.1, if_neg passes.2,
    if_pos ((and_15_eq_zero_iff _).mpr aligned), base, headerAt]

theorem adpcmAdvance_plain (passes : a.Passes) (inside : a.m_current_address.toNat % 16 ≠ 0) :
    a.adpcmAdvance mem = (a, 2) := by
  rw [adpcmAdvance, if_neg passes.1, if_neg passes.2,
    if_neg fun aligned => inside ((and_15_eq_zero_iff _).mp aligned)]

/-- Before the last nibble, and at an end outside of a header, no silent restart is due. -/
theorem InSample.passes (h : a.InSample)
    (inner : a.m_current_address.toNat ≠ lastNibble a.m_end_address.toNat ∨
      2 ≤ a.m_end_address.toNat % 16) (val : BitVec 16) : (a.pushSample val).increment.Passes := by
  have one := h.increment_toNat
  have le := h.current_le
  have nibble := h.nibble
  rw [lastNibble] at inner
  refine ⟨fun ⟨aligned, same⟩ => ?_, fun ⟨odd, same⟩ => ?_⟩
  · rw [and_15_eq_zero_iff] at aligned
    change a.m_end_address.toNat % 16 = 0 at aligned
    change a.m_current_address + 1 = a.m_end_address at same
    rw [same] at one
    split at inner <;> omega
  · rw [and_15_eq_one_iff] at odd
    change a.m_end_address.toNat % 16 = 1 at odd
    change a.m_current_address + 1 = a.m_end_address - 1 at same
    rw [same, BitVec.toNat_sub_of_le (BitVec.le_def.mpr (show 1 ≤ _ by omega))] at one
    change a.m_end_address.toNat - 1 = _ at one
    split at inner <;> omega

/-- The registers as the check for the end finds them, after a header or within a frame. -/
theorem InSample.advanced (h : a.InSample)
    (inner : a.m_current_address.toNat ≠ lastNibble a.m_end_address.toNat ∨
      2 ≤ a.m_end_address.toNat % 16) :
    (a.pushSample (a.sample mem coefs)).increment.adpcmAdvance mem = (a.stepped mem coefs,
      BitVec.ofNat 32 (nextNibble a.m_current_address.toNat + 1 - a.m_current_address.toNat)) := by
  have passes := h.passes inner (a.sample mem coefs)
  have one : (a.pushSample (a.sample mem coefs)).increment.m_current_address.toNat =
    a.m_current_address.toNat + 1 := h.increment_toNat
  have address : ∀ n, (BitVec.ofNat 32 (a.m_current_address.toNat + n)) =
      a.m_current_address + BitVec.ofNat 32 n := fun n => by
    rw [BitVec.ofNat_add, BitVec.ofNat_toNat, BitVec.setWidth_eq]
  rw [stepped, nextNibble, scaleAt]
  by_cases crosses : (a.m_current_address.toNat + 1) % 16 = 0
  · rw [if_pos crosses, adpcmAdvance_header passes (by rwa [one]), if_neg (by omega), one, address,
      show a.m_current_address.toNat + 3 + 1 - a.m_current_address.toNat = 4 by omega]
    have same : headerAt mem (a.m_current_address.toNat + 3) =
        headerAt mem (a.m_current_address.toNat + 1) := by
      rw [headerAt, headerAt, show (a.m_current_address.toNat + 3) / 16 =
        (a.m_current_address.toNat + 1) / 16 by omega]
    rw [same, show a.m_current_address + BitVec.ofNat 32 3 = a.m_current_address + 1 + 2 from
      (BitVec.add_assoc _ 1 2).symm]
    rfl
  · rw [if_neg crosses, adpcmAdvance_plain passes (by rwa [one]), if_pos (by omega), address,
      show a.m_current_address.toNat + 1 + 1 - a.m_current_address.toNat = 2 by omega]
    rfl

theorem nextNibble_bounds (current : Nat) :
    current < nextNibble current ∧ nextNibble current ≤ current + 3 := by
  rw [nextNibble]
  split <;> omega

/-- The check for the end compares the addresses before the read. -/
theorem reachesEnd_iff {current last moved : Nat} (small : current < 2 ^ 30) (small' : last < 2 ^ 30)
    (above : current < moved) (near : moved ≤ current + 3) :
    BitVec.ofNat 32 moved = BitVec.ofNat 32 last + BitVec.ofNat 32 (moved + 1 - current) - 1 ↔
      current = last := by
  have sum : BitVec.ofNat 32 last + BitVec.ofNat 32 (moved + 1 - current) - 1 =
      BitVec.ofNat 32 (last + (moved - current)) := by
    rw [show moved + 1 - current = (moved - current) + 1 by omega, BitVec.ofNat_add (moved - current),
      ← BitVec.add_assoc, BitVec.ofNat_add last]
    exact BitVec.add_sub_cancel _ _
  rw [sum, ← BitVec.toNat_inj, BitVec.toNat_ofNat, BitVec.toNat_ofNat]
  omega

/-- A read before the last nibble moves to the next one. -/
theorem InSample.next_inner (h : a.InSample)
    (notLast : a.m_current_address.toNat ≠ lastNibble a.m_end_address.toNat) :
    a.next mem coefs = a.stepped mem coefs := by
  obtain ⟨le, nibble, -⟩ := nextNibble_le h.current_le h.nibble notLast
  obtain ⟨above, near⟩ := nextNibble_bounds a.m_current_address.toNat
  have endLt := h.end_lt
  rw [next, h.readSample, h.advanced (.inl notLast)]
  refine checkLoop_apart (fun same => ?_) ?_
  · have reached := (reachesEnd_iff (by omega) (show a.m_end_address.toNat < 2 ^ 30 by omega)
      above near).mp (by rwa [BitVec.ofNat_toNat, BitVec.setWidth_eq])
    omega
  · change (BitVec.ofNat 32 _).toNat < _
    rw [BitVec.toNat_ofNat]
    omega

/-- The read of the nibble at the end stops the reads. -/
theorem InSample.next_end (h : a.InSample) (last : a.m_current_address = a.m_end_address) :
    (a.next mem coefs).m_current_address = a.m_start_address ∧
      (a.next mem coefs).m_reads_stopped = true ∧
      (a.next mem coefs).sample_ends = a.sample_ends + 1 := by
  obtain ⟨above, near⟩ := nextNibble_bounds a.m_current_address.toNat
  have endLt := h.end_lt
  have startLt := h.start_lt
  have nibble := h.nibble
  have reached := (reachesEnd_iff (by rw [last]; omega) (show a.m_end_address.toNat < 2 ^ 30 by omega)
    above near).mpr (congrArg _ last)
  rw [show BitVec.ofNat 32 a.m_end_address.toNat = a.m_end_address by
    rw [BitVec.ofNat_toNat, BitVec.setWidth_eq]] at reached
  rw [next, h.readSample, h.advanced (.inr (by rwa [← last])), @checkLoop_at (a.stepped mem coefs) _ reached
    (show a.m_start_address.toNat < _ by omega)]
  exact ⟨rfl, rfl, rfl⟩

/-- The registers after a silent restart. -/
def restarted (mem : BitVec 32 → BitVec 8) (coefs : Nat → BitVec 16) (a : Accelerator) :
    Accelerator :=
  { a.pushSample (a.sample mem coefs) with
    m_current_address := a.m_start_address +
      BitVec.ofNat 32 (1 - a.m_end_address.toNat % 16) }

theorem InSample.advanced_silent (h : a.InSample) (header : a.m_end_address.toNat % 16 < 2)
    (last : a.m_current_address.toNat = lastNibble a.m_end_address.toNat) :
    (a.pushSample (a.sample mem coefs)).increment.adpcmAdvance mem =
      (a.restarted mem coefs, 2) := by
  have one := h.increment_toNat
  have le := h.current_le
  have nibble := h.nibble
  rw [lastNibble, if_pos header] at last
  rw [restarted]
  rcases Nat.lt_or_ge (a.m_end_address.toNat % 16) 1 with zero | odd
  · have aligned : a.m_end_address.toNat % 16 = 0 := by omega
    have here : a.m_current_address + 1 = a.m_end_address := BitVec.eq_of_toNat_eq (by omega)
    rw [@adpcmAdvance_zero mem (a.pushSample _).increment aligned here, aligned]
    rfl
  · have odd : a.m_end_address.toNat % 16 = 1 := by omega
    have here : a.m_current_address + 1 = a.m_end_address - 1 := by
      refine BitVec.eq_of_toNat_eq ?_
      rw [BitVec.toNat_sub_of_le (BitVec.le_def.mpr (show 1 ≤ _ by omega))]
      change _ = a.m_end_address.toNat - 1
      omega
    rw [@adpcmAdvance_one mem (a.pushSample _).increment odd here, odd]
    change _ = ({ a.pushSample (a.sample mem coefs) with
      m_current_address := a.m_start_address + 0#32 }, _)
    rw [BitVec.add_zero]
    rfl

/-- At the last nibble before a header, the walk restarts silently unless the check for the end
then finds the address of the restart. -/
theorem InSample.ends_silent_iff (h : a.InSample) (header : a.m_end_address.toNat % 16 < 2)
    (last : a.m_current_address.toNat = lastNibble a.m_end_address.toNat) :
    a.Ends mem coefs (a.next mem coefs) ↔ a.RestartsApart := by
  have startLt := h.start_lt
  have endLt := h.end_lt
  have start : (a.m_start_address + BitVec.ofNat 32 (1 - a.m_end_address.toNat % 16)).toNat =
      a.m_start_address.toNat + (1 - a.m_end_address.toNat % 16) := by
    rw [BitVec.toNat_add, BitVec.toNat_ofNat, Nat.mod_eq_of_lt (by omega), Nat.mod_eq_of_lt (by omega)]
  have found : a.m_start_address + BitVec.ofNat 32 (1 - a.m_end_address.toNat % 16) =
      a.m_end_address + 2 - 1 ↔ ¬ a.RestartsApart := by
    have next : a.m_end_address + 2 - 1 = a.m_end_address + 1 := by
      rw [show (2 : BitVec 32) = 1 + 1 from rfl, ← BitVec.add_assoc, BitVec.add_sub_cancel]
    have nextNat : (a.m_end_address + 1).toNat = a.m_end_address.toNat + 1 := by
      rw [BitVec.toNat_add, show (1 : BitVec 32).toNat = 1 from rfl, Nat.mod_eq_of_lt (by omega)]
    rw [next, RestartsApart, ← BitVec.toNat_inj, ← BitVec.toNat_inj, ← BitVec.toNat_inj, start, nextNat]
    omega
  rw [Ends, if_pos header, next, h.readSample, h.advanced_silent header last]
  by_cases apart : a.RestartsApart
  · rw [checkLoop_apart (fun same => found.mp same apart) (by
      change (a.m_start_address + _).toNat < _
      omega)]
    exact iff_of_true ⟨start, h.reading, rfl⟩ apart
  · rw [@checkLoop_at (a.restarted mem coefs) 2 (found.mpr apart)
      (show a.m_start_address.toNat < _ by omega)]
    exact iff_of_false (fun ends => Bool.noConfusion ends.2.1) apart

end

end Accelerator

end Phocoena.DSP
