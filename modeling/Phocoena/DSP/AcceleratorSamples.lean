import Phocoena.DSP.AcceleratorWalk
import Mathlib.Tactic.Linarith

/-! # The samples of a walk

The `s32` arithmetic of a read is that of exact integers unless both products of the history are
the greatest a product of `s16` values can be. From single reads, the walk to the end of a sample.
-/

namespace Phocoena.DSP

/-! ## Products of 16-bit values -/

theorem toInt_bounds_16 (x : BitVec 16) : -32768 ≤ x.toInt ∧ x.toInt ≤ 32767 := by
  have low := BitVec.le_toInt x
  have high := @BitVec.toInt_lt 16 x
  omega

theorem toInt_bounds_32 (x : BitVec 32) : -2147483648 ≤ x.toInt ∧ x.toInt ≤ 2147483647 := by
  have low := BitVec.le_toInt x
  have high := @BitVec.toInt_lt 32 x
  omega

theorem product_bounds {x y : Int} (hx : -32768 ≤ x ∧ x ≤ 32767) (hy : -32768 ≤ y ∧ y ≤ 32767) :
    -1073709056 ≤ x * y ∧ (x * y ≤ 1073709056 ∨ x = -32768 ∧ y = -32768) := by
  obtain ⟨xl, xu⟩ := hx
  obtain ⟨yl, yu⟩ := hy
  have corner₁ : 0 ≤ (32767 - x) * (32767 - y) := Int.mul_nonneg (by omega) (by omega)
  have corner₂ : 0 ≤ (32767 - x) * (32768 + y) := Int.mul_nonneg (by omega) (by omega)
  have corner₃ : 0 ≤ (32768 + x) * (32767 - y) := Int.mul_nonneg (by omega) (by omega)
  refine ⟨by nlinarith, ?_⟩
  by_cases least : x = -32768 ∧ y = -32768
  · exact .inr least
  · refine .inl ?_
    rcases not_and_or.mp least with ne | ne
    · have corner₄ : 0 ≤ (32767 + x) * (32767 - y) := Int.mul_nonneg (by omega) (by omega)
      nlinarith
    · have corner₄ : 0 ≤ (32767 - x) * (32767 + y) := Int.mul_nonneg (by omega) (by omega)
      nlinarith

theorem toInt_product (x y : BitVec 16) :
    (x.signExtend 32 * y.signExtend 32).toInt = x.toInt * y.toInt := by
  obtain ⟨low, high⟩ := product_bounds (toInt_bounds_16 x) (toInt_bounds_16 y)
  have upper : x.toInt * y.toInt ≤ 1073741824 := by
    rcases high with le | ⟨first, second⟩
    · omega
    · rw [first, second]
      decide
  rw [BitVec.toInt_mul, BitVec.toInt_signExtend_of_le (by decide),
    BitVec.toInt_signExtend_of_le (by decide), Int.bmod_eq_of_le (by omega) (by omega)]

theorem toInt_add_of_bounds {x y : BitVec 32} (low : -2147483648 ≤ x.toInt + y.toInt)
    (high : x.toInt + y.toInt ≤ 2147483647) : (x + y).toInt = x.toInt + y.toInt := by
  rw [BitVec.toInt_add, Int.bmod_eq_of_le (by omega) (by omega)]

theorem saturatingCast_toInt (value : BitVec 32) :
    (SaturatingCast value).toInt = max (-32768) (min 32767 value.toInt) := by
  rw [SaturatingCast]
  split
  · rename_i below
    rw [show (-32768 : BitVec 16).toInt = -32768 from rfl]
    omega
  · split
    · rw [show (32767 : BitVec 16).toInt = 32767 from rfl]
      omega
    · have kept := (FixedWidth.signExtend_setWidth_eq_iff (show 0 < 16 by decide)
        (show 16 ≤ 32 by decide) value).mpr (by omega)
      have same := congrArg BitVec.toInt kept
      rw [BitVec.toInt_signExtend_of_le (by decide)] at same
      omega

/-! ## The values of one read -/

theorem signedNibble (r : BitVec 16) (small : r.toNat < 16) :
    (if 8 ≤ r.toInt then r - 16 else r).toInt =
      if r.toNat < 8 then (r.toNat : Int) else r.toNat - 16 := by
  have all : ∀ n < 16, (if 8 ≤ (BitVec.ofNat 16 n).toInt then BitVec.ofNat 16 n - 16
      else BitVec.ofNat 16 n).toInt = if n < 8 then (n : Int) else n - 16 := by decide
  have same := all r.toNat small
  rwa [show BitVec.ofNat 16 r.toNat = r by rw [BitVec.ofNat_toNat, BitVec.setWidth_eq]] at same

namespace Accelerator

section
variable {mem : BitVec 32 → BitVec 8} {coefs : Nat → BitVec 16} {a : Accelerator}

theorem coef_idx_eq : a.coef_idx = a.m_pred_scale.toNat / 16 % 8 := by
  rw [coef_idx, BitVec.toNat_and, BitVec.toNat_ushiftRight, Nat.shiftRight_eq_div_pow]
  exact Nat.and_two_pow_sub_one_eq_mod _ 3

theorem scale_toInt : a.scale.toInt = 2 ^ (a.m_pred_scale.toNat % 16) := by
  have all : ∀ n < 16, ((1 : BitVec 32) <<< n).toInt = 2 ^ n := by decide
  have low : (a.m_pred_scale &&& 0xF).toNat = a.m_pred_scale.toNat % 16 := by
    rw [BitVec.toNat_and]
    exact Nat.and_two_pow_sub_one_eq_mod _ 4
  rw [scale, low]
  exact all _ (Nat.mod_lt _ (by decide))

theorem InSample.raw_toNat (h : a.InSample) : (a.raw_sample mem).toNat =
    if a.m_current_address.toNat % 2 = 1
    then (mem (BitVec.ofNat 32 (a.m_current_address.toNat / 2))).toNat % 16
    else (mem (BitVec.ofNat 32 (a.m_current_address.toNat / 2))).toNat / 16 := by
  have byte : a.m_current_address >>> 1 = BitVec.ofNat 32 (a.m_current_address.toNat / 2) := by
    have lt := a.m_current_address.isLt
    refine BitVec.eq_of_toNat_eq ?_
    rw [BitVec.toNat_ushiftRight, BitVec.toNat_ofNat, Nat.shiftRight_eq_div_pow]
    omega
  have odd : a.m_current_address &&& 1 ≠ 0 ↔ a.m_current_address.toNat % 2 = 1 := by
    rw [← not_iff_not, not_not, ← BitVec.toNat_inj, BitVec.toNat_and,
      show (1 : BitVec 32).toNat = 2 ^ 1 - 1 from rfl, Nat.and_two_pow_sub_one_eq_mod]
    change a.m_current_address.toNat % 2 = 0 ↔ _
    omega
  rw [raw_sample, h.adpcm]
  dsimp only
  rw [GetCurrentSample, h.nibbles]
  dsimp only
  rw [byte]
  have lt := (mem (BitVec.ofNat 32 (a.m_current_address.toNat / 2))).isLt
  by_cases low : a.m_current_address.toNat % 2 = 1
  · rw [if_pos (odd.mpr low), if_pos low, BitVec.toNat_and,
      show (0xf : BitVec 16).toNat = 2 ^ 4 - 1 from rfl, Nat.and_two_pow_sub_one_eq_mod,
      BitVec.toNat_setWidth]
    omega
  · rw [if_neg fun found => low (odd.mp found), if_neg low, BitVec.toNat_ushiftRight,
      BitVec.toNat_setWidth, Nat.shiftRight_eq_div_pow]
    omega

theorem InSample.adpcmRaw_toInt (h : a.InSample) :
    (a.adpcmRaw mem).toInt = nibbleAt mem a.m_current_address.toNat := by
  have raw := @raw_toNat mem a h
  have lt := (mem (BitVec.ofNat 32 (a.m_current_address.toNat / 2))).isLt
  have small : (a.raw_sample mem).toNat < 16 := by
    rw [raw]
    split <;> omega
  have low : (a.raw_sample mem &&& 0xF).toNat = (a.raw_sample mem).toNat := by
    rw [BitVec.toNat_and, show (0xF : BitVec 16).toNat = 2 ^ 4 - 1 from rfl,
      Nat.and_two_pow_sub_one_eq_mod, Nat.mod_eq_of_lt small]
  rw [adpcmRaw, signedNibble _ (by rwa [low]), low, raw, nibbleAt]

theorem nibbleAt_bounds (mem : BitVec 32 → BitVec 8) (address : Nat) :
    -8 ≤ nibbleAt mem address ∧ nibbleAt mem address ≤ 7 := by
  have lt := (mem (BitVec.ofNat 32 (address / 2))).isLt
  rw [nibbleAt]
  split <;> split <;> omega

theorem product1_toInt : (a.adpcmProduct1 coefs).toInt =
    exactProduct1 coefs a.m_pred_scale a.m_yn1.toInt := by
  rw [adpcmProduct1, coef1, toInt_product, coef_idx_eq, exactProduct1, Nat.add_zero]

theorem product2_toInt : (a.adpcmProduct2 coefs).toInt =
    exactProduct2 coefs a.m_pred_scale a.m_yn2.toInt := by
  rw [adpcmProduct2, coef2, toInt_product, coef_idx_eq, exactProduct2]

theorem exactScaled_bounds (pred_scale : BitVec 16) {nibble : Int} (low : -8 ≤ nibble)
    (high : nibble ≤ 7) : -262144 ≤ exactScaled pred_scale nibble ∧
      exactScaled pred_scale nibble ≤ 262144 := by
  have pos : (0 : Int) < 2 ^ (pred_scale.toNat % 16) := by positivity
  have le : (2 : Int) ^ (pred_scale.toNat % 16) ≤ 2 ^ 15 :=
    pow_le_pow_right₀ (by decide) (by omega)
  rw [exactScaled]
  constructor <;> nlinarith

theorem InSample.scaled_toInt (h : a.InSample) : (a.adpcmScaled mem).toInt =
    exactScaled a.m_pred_scale (nibbleAt mem a.m_current_address.toNat) := by
  obtain ⟨low, high⟩ := nibbleAt_bounds mem a.m_current_address.toNat
  obtain ⟨below, above⟩ := exactScaled_bounds a.m_pred_scale low high
  rw [adpcmScaled, BitVec.toInt_mul, BitVec.toInt_signExtend_of_le (by decide), scale_toInt,
    h.adpcmRaw_toInt]
  rw [exactScaled] at below above ⊢
  exact Int.bmod_eq_of_le (by omega) (by omega)

theorem exactProduct1_bounds (coefs : Nat → BitVec 16) (a : Accelerator) :
    -1073709056 ≤ exactProduct1 coefs a.m_pred_scale a.m_yn1.toInt ∧
      (exactProduct1 coefs a.m_pred_scale a.m_yn1.toInt ≤ 1073709056 ∨
        coefs (a.coef_idx * 2) = -32768 ∧ a.m_yn1 = -32768) := by
  obtain ⟨low, high⟩ := product_bounds (toInt_bounds_16 (coefs (a.coef_idx * 2)))
    (toInt_bounds_16 a.m_yn1)
  rw [exactProduct1, ← coef_idx_eq]
  exact ⟨low, high.imp_right fun least =>
    ⟨BitVec.eq_of_toInt_eq least.1, BitVec.eq_of_toInt_eq least.2⟩⟩

theorem exactProduct2_bounds (coefs : Nat → BitVec 16) (a : Accelerator) :
    -1073709056 ≤ exactProduct2 coefs a.m_pred_scale a.m_yn2.toInt ∧
      (exactProduct2 coefs a.m_pred_scale a.m_yn2.toInt ≤ 1073709056 ∨
        coefs (a.coef_idx * 2 + 1) = -32768 ∧ a.m_yn2 = -32768) := by
  obtain ⟨low, high⟩ := product_bounds (toInt_bounds_16 (coefs (a.coef_idx * 2 + 1)))
    (toInt_bounds_16 a.m_yn2)
  rw [exactProduct2, ← coef_idx_eq]
  exact ⟨low, high.imp_right fun least =>
    ⟨BitVec.eq_of_toInt_eq least.1, BitVec.eq_of_toInt_eq least.2⟩⟩

theorem exactProduct1_least (first : coefs (a.coef_idx * 2) = -32768) (second : a.m_yn1 = -32768) :
    exactProduct1 coefs a.m_pred_scale a.m_yn1.toInt = 1073741824 := by
  rw [exactProduct1, ← coef_idx_eq, first, second]
  rfl

theorem exactProduct2_least (first : coefs (a.coef_idx * 2 + 1) = -32768)
    (second : a.m_yn2 = -32768) :
    exactProduct2 coefs a.m_pred_scale a.m_yn2.toInt = 1073741824 := by
  rw [exactProduct2, ← coef_idx_eq, first, second]
  rfl

theorem exactProduct1_le (coefs : Nat → BitVec 16) (a : Accelerator) :
    exactProduct1 coefs a.m_pred_scale a.m_yn1.toInt ≤ 1073741824 := by
  rcases (exactProduct1_bounds coefs a).2 with le | least
  · omega
  · exact (exactProduct1_least least.1 least.2).le

theorem exactProduct2_le (coefs : Nat → BitVec 16) (a : Accelerator) :
    exactProduct2 coefs a.m_pred_scale a.m_yn2.toInt ≤ 1073741824 := by
  rcases (exactProduct2_bounds coefs a).2 with le | least
  · omega
  · exact (exactProduct2_least least.1 least.2).le

theorem rounded_toInt : (0x400 + a.adpcmProduct1 coefs).toInt =
    0x400 + exactProduct1 coefs a.m_pred_scale a.m_yn1.toInt := by
  have low := (exactProduct1_bounds coefs a).1
  have high := exactProduct1_le coefs a
  have const : (0x400 : BitVec 32).toInt = 0x400 := rfl
  rw [toInt_add_of_bounds] <;> rw [const, product1_toInt] <;> omega

/-- The sum of the history overflows just where both of its products are the greatest ones. -/
theorem history_toInt_iff : (a.adpcmHistory coefs).toInt =
    exactHistory coefs a.m_pred_scale a.m_yn1.toInt a.m_yn2.toInt ↔ ¬ a.AllLeast coefs := by
  obtain ⟨low₁, high₁⟩ := exactProduct1_bounds coefs a
  obtain ⟨low₂, high₂⟩ := exactProduct2_bounds coefs a
  have le₁ := exactProduct1_le coefs a
  have le₂ := exactProduct2_le coefs a
  rw [exactHistory]
  constructor
  · rintro exact ⟨coef₁, coef₂, last₁, last₂⟩
    have below := (toInt_bounds_32 (a.adpcmHistory coefs)).2
    rw [exact, exactProduct1_least coef₁ last₁, exactProduct2_least coef₂ last₂] at below
    omega
  · intro notLeast
    have sum : exactProduct1 coefs a.m_pred_scale a.m_yn1.toInt +
        exactProduct2 coefs a.m_pred_scale a.m_yn2.toInt ≤ 2147450880 := by
      rcases high₁ with le | least₁
      · omega
      · rcases high₂ with le | least₂
        · omega
        · exact absurd ⟨least₁.1, least₂.1, least₁.2, least₂.2⟩ notLeast
    rw [adpcmHistory, toInt_add_of_bounds] <;> rw [rounded_toInt, product2_toInt] <;> omega

theorem val_toInt (h : a.InSample) (history : (a.adpcmHistory coefs).toInt =
      exactHistory coefs a.m_pred_scale a.m_yn1.toInt a.m_yn2.toInt) :
    (a.adpcmVal32 mem coefs).toInt = exactVal coefs a.m_pred_scale a.m_yn1.toInt a.m_yn2.toInt
      (nibbleAt mem a.m_current_address.toNat) := by
  obtain ⟨low, high⟩ := nibbleAt_bounds mem a.m_current_address.toNat
  obtain ⟨below, above⟩ := exactScaled_bounds a.m_pred_scale low high
  obtain ⟨least, most⟩ := toInt_bounds_32 (a.adpcmHistory coefs)
  have shifted : ((a.adpcmHistory coefs).sshiftRight 11).toInt =
      exactHistory coefs a.m_pred_scale a.m_yn1.toInt a.m_yn2.toInt / 2 ^ 11 := by
    rw [BitVec.toInt_sshiftRight, Int.shiftRight_eq_div_pow, history]
    rfl
  rw [history] at least most
  rw [exactVal, adpcmVal32, toInt_add_of_bounds] <;> rw [h.scaled_toInt, shifted] <;> omega

/-- The `s32` values are exact unless the coefficients and the history are all least. -/
theorem InSample.exactValues_iff (h : a.InSample) :
    a.ExactValues mem coefs ↔ ¬ a.AllLeast coefs := by
  constructor
  · exact fun exact => history_toInt_iff.mp exact.history
  · intro notLeast
    have history := history_toInt_iff.mpr notLeast
    exact ⟨h.scaled_toInt, product1_toInt, product2_toInt, rounded_toInt, history,
      val_toInt h history⟩

theorem InSample.sample_toInt (h : a.InSample) (exact : a.ExactValues mem coefs) :
    (a.ReadSample mem coefs).1.toInt = exactSample coefs a.m_pred_scale a.m_yn1.toInt
      a.m_yn2.toInt (nibbleAt mem a.m_current_address.toNat) := by
  rw [h.readSample]
  dsimp only
  rw [sample, saturatingCast_toInt, exact.val, exactSample]

/-! ## The walk -/

theorem stepped_address (h : a.InSample) : (a.stepped mem coefs).m_current_address.toNat =
    nextNibble a.m_current_address.toNat := by
  have near := (nextNibble_bounds a.m_current_address.toNat).2
  have le := h.current_le
  have lt := h.end_lt
  rw [Accelerator.stepped, BitVec.toNat_ofNat, Nat.mod_eq_of_lt (by omega)]

theorem InSample.stepped (h : a.InSample)
    (notLast : a.m_current_address.toNat ≠ lastNibble a.m_end_address.toNat) :
    (a.stepped mem coefs).InSample := by
  obtain ⟨le, nibble, -⟩ := nextNibble_le h.current_le h.nibble notLast
  refine ⟨by simpa using h.adpcm, by simpa using h.nibbles, by simpa using h.reading,
    by simpa using h.start_lt, by simpa using h.end_lt, ?_, ?_⟩
  · rwa [stepped_address h, stepped_m_end_address]
  · rwa [stepped_address h]

/-- A walk is at its last nibble, or goes on from the next one. -/
theorem InSample.walk_induction {P : Accelerator → Prop}
    (last : ∀ a : Accelerator, a.InSample →
      a.m_current_address.toNat = lastNibble a.m_end_address.toNat → P a)
    (inner : ∀ a : Accelerator, a.InSample →
      a.m_current_address.toNat ≠ lastNibble a.m_end_address.toNat →
      P (a.stepped mem coefs) → P a) (h : a.InSample) : P a := by
  induction left : a.m_end_address.toNat - a.m_current_address.toNat using Nat.strong_induction_on
    generalizing a with
  | _ n ih =>
      by_cases isLast : a.m_current_address.toNat = lastNibble a.m_end_address.toNat
      · exact last a h isLast
      · obtain ⟨le, nibble, lt⟩ := nextNibble_le h.current_le h.nibble isLast
        refine inner a h isLast (ih _ ?_ (h.stepped isLast) rfl)
        rw [stepped_address h, stepped_m_end_address]
        omega

theorem readingStates_succ (n : Nat) : a.readingStates mem coefs (n + 1) =
    a :: (a.next mem coefs).readingStates mem coefs n := by
  rw [readingStates, List.range_succ_eq_map, List.map_cons, List.map_map]
  rfl

theorem walkLength_last (h : a.InSample)
    (last : a.m_current_address.toNat = lastNibble a.m_end_address.toNat) : a.walkLength = 1 := by
  rw [walkLength, nonHeaderNibbles_last last h.nibble]
  rfl

-- What follows never looks into the value of a sample.
attribute [local irreducible] sample

theorem walkLength_inner (h : a.InSample) :
    a.walkLength = (a.stepped mem coefs).walkLength + 1 := by
  rw [walkLength, nonHeaderNibbles_cons h.current_le h.nibble, walkLength, stepped_address h]
  rfl

theorem walkStates_last (h : a.InSample)
    (last : a.m_current_address.toNat = lastNibble a.m_end_address.toNat) :
    a.walkStates mem coefs = [a] := by
  rw [walkStates, walkLength_last h last]
  rfl

theorem walkStates_inner (h : a.InSample)
    (notLast : a.m_current_address.toNat ≠ lastNibble a.m_end_address.toNat) :
    a.walkStates mem coefs = a :: (a.stepped mem coefs).walkStates mem coefs := by
  rw [walkStates, @walkLength_inner mem coefs a h, readingStates_succ, h.next_inner notLast]
  rfl

theorem nonHeaderNibbles_inner (h : a.InSample) :
    nonHeaderNibbles a.m_current_address.toNat a.m_end_address.toNat =
      a.m_current_address.toNat :: nonHeaderNibbles
        (a.stepped mem coefs).m_current_address.toNat (a.stepped mem coefs).m_end_address.toNat := by
  rw [nonHeaderNibbles_cons h.current_le h.nibble, stepped_address h]
  rfl

/-- Headers that a walk loads are those of the frames it comes to. -/
theorem scaleAt_stepped (h : a.InSample) {address : Nat}
    (later : nextNibble a.m_current_address.toNat ≤ address) :
    scaleAt mem (a.stepped mem coefs).m_pred_scale
        (a.stepped mem coefs).m_current_address.toNat address =
      scaleAt mem a.m_pred_scale a.m_current_address.toNat address := by
  obtain ⟨above, near⟩ := nextNibble_bounds a.m_current_address.toNat
  rw [stepped_address h]
  change scaleAt mem (scaleAt mem a.m_pred_scale _ _) _ _ = _
  rw [scaleAt]
  by_cases here : address / 16 = nextNibble a.m_current_address.toNat / 16
  · rw [if_pos here, scaleAt, scaleAt, here, headerAt, headerAt, here]
  · rw [if_neg here, scaleAt, if_neg (by omega)]

theorem le_of_mem_nonHeaderNibbles {current final n : Nat} (mem : n ∈ nonHeaderNibbles current final) :
    current ≤ n := by
  rw [nonHeaderNibbles, List.mem_filter, List.mem_range'_1] at mem
  exact mem.1.1

theorem scaleAt_self : scaleAt mem a.m_pred_scale a.m_current_address.toNat
    a.m_current_address.toNat = a.m_pred_scale := if_pos rfl

/-- A walk reads the nibbles in order, with their headers, and raises nothing before its end. -/
theorem InSample.readsInOrder (h : a.InSample) : a.ReadsInOrder mem coefs := by
  refine @InSample.walk_induction mem coefs a (fun a => a.ReadsInOrder mem coefs)
    (fun a h last => ?_) (fun a h notLast ih => ?_) h
  · have states := @walkStates_last mem coefs a h last
    have only : ∀ s ∈ a.walkStates mem coefs, s = a := fun s member => by
      rwa [states, List.mem_singleton] at member
    refine ⟨?_, fun s member => ?_, fun s member => ?_⟩
    · rw [states, nonHeaderNibbles_last last h.nibble]
      rfl
    · rw [only s member, scaleAt_self]
    · rw [only s member]
      exact ⟨h.reading, rfl⟩
  · have states := @walkStates_inner mem coefs a h notLast
    have nibbles := @nonHeaderNibbles_inner mem coefs a h
    have addresses : (a.walkStates mem coefs).map (·.m_current_address.toNat) =
        nonHeaderNibbles a.m_current_address.toNat a.m_end_address.toNat := by
      rw [states, List.map_cons, ih.reads, nibbles]
    refine ⟨addresses, fun s member => ?_, fun s member => ?_⟩
    · rw [states, List.mem_cons] at member
      rcases member with rfl | member
      · exact scaleAt_self.symm
      · have later : nextNibble a.m_current_address.toNat ≤ s.m_current_address.toNat := by
          have found := List.mem_map_of_mem (f := (·.m_current_address.toNat)) member
          rw [ih.reads] at found
          have le := le_of_mem_nonHeaderNibbles found
          rwa [stepped_address h] at le
        rw [ih.scales s member, scaleAt_stepped h later]
    · rw [states, List.mem_cons] at member
      rcases member with rfl | member
      · exact ⟨h.reading, rfl⟩
      · exact ih.quiet s member

theorem stopped_after {s : Accelerator} (stopped : s.m_reads_stopped = true) :
    (∀ k, s.after mem coefs k = s) ∧ (s.ReadSample mem coefs).1 = 0 := by
  have read : s.ReadSample mem coefs = (0, s) := by
    rw [ReadSample, if_pos stopped]
  refine ⟨fun k => ?_, by rw [read]⟩
  exact Function.iterate_fixed (by rw [next, read]) k

theorem ends_stepped (final : Accelerator) :
    (a.stepped mem coefs).Ends mem coefs final ↔ a.Ends mem coefs final := by
  simp only [Ends, stepped_m_end_address, stepped_m_start_address, stepped_sample_ends]

theorem restartsApart_stepped : (a.stepped mem coefs).RestartsApart ↔ a.RestartsApart := by
  simp only [RestartsApart, stepped_m_end_address, stepped_m_start_address]

/-- A walk ends as it should unless a silent restart lands where the end is checked for. -/
theorem InSample.ends_iff (h : a.InSample) :
    a.Ends mem coefs (a.after mem coefs a.walkLength) ↔ a.RestartsApart := by
  refine @InSample.walk_induction mem coefs a
    (fun a => a.Ends mem coefs (a.after mem coefs a.walkLength) ↔ a.RestartsApart)
    (fun a h last => ?_) (fun a h notLast ih => ?_) h
  · rw [walkLength_last h last]
    change a.Ends mem coefs (a.next mem coefs) ↔ _
    by_cases header : a.m_end_address.toNat % 16 < 2
    · exact h.ends_silent_iff header last
    · rw [lastNibble, if_neg header] at last
      obtain ⟨address, stopped, ends⟩ := @next_end mem coefs a h (BitVec.eq_of_toNat_eq last)
      obtain ⟨stays, zero⟩ := @stopped_after mem coefs _ stopped
      rw [Ends, if_neg header]
      exact iff_of_true ⟨address, ends, stays, zero, fun _ => rfl⟩
        ⟨fun found => header (by omega), fun found => header (by omega)⟩
  · have same : a.after mem coefs a.walkLength =
        (a.stepped mem coefs).after mem coefs (a.stepped mem coefs).walkLength := by
      rw [@walkLength_inner mem coefs a h, ← h.next_inner notLast]
      rfl
    rw [same, ← ends_stepped, ← @restartsApart_stepped mem coefs a]
    exact ih

theorem exactSamples_congr {scale scale' : Nat → BitVec 16} {nibbles : List Nat}
    (same : ∀ n ∈ nibbles, scale n = scale' n) (yn1 yn2 : Int) :
    exactSamples coefs mem scale yn1 yn2 nibbles = exactSamples coefs mem scale' yn1 yn2 nibbles := by
  induction nibbles generalizing yn1 yn2 with
  | nil => rfl
  | cons n rest ih =>
      rw [exactSamples, exactSamples, same n List.mem_cons_self]
      exact congrArg _ (ih (fun m member => same m (List.mem_cons_of_mem n member)) _ _)

/-- With exact values in each read, the samples of the walk are those of exact integers. -/
theorem InSample.samples_of_exact (h : a.InSample)
    (exact : ∀ s ∈ a.walkStates mem coefs, s.ExactValues mem coefs) :
    (a.walkStates mem coefs).map (fun s => (s.ReadSample mem coefs).1.toInt) =
      exactSamples coefs mem (scaleAt mem a.m_pred_scale a.m_current_address.toNat)
        a.m_yn1.toInt a.m_yn2.toInt
        (nonHeaderNibbles a.m_current_address.toNat a.m_end_address.toNat) := by
  revert exact
  refine @InSample.walk_induction mem coefs a (fun a =>
    (∀ s ∈ a.walkStates mem coefs, s.ExactValues mem coefs) →
    (a.walkStates mem coefs).map (fun s => (s.ReadSample mem coefs).1.toInt) =
      exactSamples coefs mem (scaleAt mem a.m_pred_scale a.m_current_address.toNat)
        a.m_yn1.toInt a.m_yn2.toInt
        (nonHeaderNibbles a.m_current_address.toNat a.m_end_address.toNat))
    (fun a h last exact => ?_) (fun a h notLast ih exact => ?_) h
  · have states := @walkStates_last mem coefs a h last
    rw [states] at exact ⊢
    rw [nonHeaderNibbles_last last h.nibble, exactSamples, scaleAt_self, List.map_singleton,
      h.sample_toInt (exact a List.mem_cons_self)]
    rfl
  · have states := @walkStates_inner mem coefs a h notLast
    rw [states] at exact ⊢
    have here := h.sample_toInt (exact a List.mem_cons_self)
    have value : (a.stepped mem coefs).m_yn1.toInt = exactSample coefs a.m_pred_scale
        a.m_yn1.toInt a.m_yn2.toInt (nibbleAt mem a.m_current_address.toNat) := by
      rw [← here, h.readSample]
      rfl
    have rest := ih fun s member => exact s (List.mem_cons_of_mem a member)
    rw [exactSamples_congr (fun n member => scaleAt_stepped h (by
      rw [← @stepped_address mem coefs a h]
      exact le_of_mem_nonHeaderNibbles member)), value] at rest
    rw [List.map_cons, rest, here, @nonHeaderNibbles_inner mem coefs a h, exactSamples, scaleAt_self]
    rfl

theorem InSample.states (h : a.InSample) : ∀ s ∈ a.walkStates mem coefs, s.InSample := by
  refine @InSample.walk_induction mem coefs a (fun a => ∀ s ∈ a.walkStates mem coefs, s.InSample)
    (fun a h last s member => ?_) (fun a h notLast ih s member => ?_) h
  · rw [walkStates_last h last, List.mem_singleton] at member
    exact member ▸ h
  · rw [walkStates_inner h notLast, List.mem_cons] at member
    rcases member with rfl | member
    · exact h
    · exact ih s member

/-- A walk through a sample reads it once, in exact integers, and ends as it should, exactly when
its restart is apart from the end and no read finds all of its factors least. -/
theorem walks_once_iff (h : a.InSample) : a.WalksOnce mem coefs ↔
    a.RestartsApart ∧ ∀ s ∈ a.walkStates mem coefs, ¬ s.AllLeast coefs := by
  constructor
  · exact fun walk => ⟨h.ends_iff.mp walk.ends, fun s member =>
      (h.states s member).exactValues_iff.mp (walk.exact s member)⟩
  · rintro ⟨apart, notLeast⟩
    have exact : ∀ s ∈ a.walkStates mem coefs, s.ExactValues mem coefs := fun s member =>
      (h.states s member).exactValues_iff.mpr (notLeast s member)
    exact ⟨h.readsInOrder, h.samples_of_exact exact, exact, h.ends_iff.mpr apart⟩

end

/-- ADPCM with 4-bit nibbles from address 2, with everything else zero. -/
def fromSecondNibble (start last : BitVec 32) : Accelerator where
  m_start_address := start
  m_end_address := last
  m_current_address := 2
  m_sample_format := ⟨0⟩
  m_gain := 0
  m_yn1 := 0
  m_yn2 := 0
  m_pred_scale := 0
  m_input := 0
  m_reads_stopped := false
  sample_ends := 0

/-- Through three nibbles of zeros. -/
theorem walks_once_zeros :
    (fromSecondNibble 0 4).WalksOnce (fun _ => 0) (fun _ => 0) := by
  have h : (fromSecondNibble 0 4).InSample :=
    ⟨rfl, rfl, rfl, by decide, by decide, by decide, by decide⟩
  refine (walks_once_iff h).mpr ⟨⟨by decide, by decide⟩, fun s _ least => ?_⟩
  exact absurd least.1 (show (0 : BitVec 16) ≠ -32768 by decide)

/-- Where the sample starts at its end address, a multiple of sixteen, the silent restart raises the
exception; and with all factors least the sum of the history is negative. -/
theorem walks_once_fails :
    ¬ (fromSecondNibble 0x10 0x10).WalksOnce (fun _ => 0) (fun _ => 0) ∧
      ((fromSecondNibble 0x10 0x10).after (fun _ => 0) (fun _ => 0) 14).sample_ends = 1 ∧
      ¬ { fromSecondNibble 0 4 with m_yn1 := -32768, m_yn2 := -32768 }.WalksOnce (fun _ => 0)
        (fun _ => -32768) ∧
      ({ fromSecondNibble 0 4 with m_yn1 := -32768, m_yn2 := -32768 }.adpcmHistory
        (fun _ => -32768)).toInt = -2147482624 := by
  refine ⟨fun walk => ?_, by decide, fun walk => ?_, by decide⟩
  · exact absurd walk.ends.2.2 (by decide)
  · have first := walk.exact _ (List.mem_map.mpr ⟨0, by decide, rfl⟩)
    exact absurd first.history (by decide)

end Accelerator

end Phocoena.DSP
