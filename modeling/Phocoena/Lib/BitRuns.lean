import Mathlib.Data.Nat.ModEq
import Mathlib.Data.Nat.Prime.Basic

/-! # Runs of ones in a word

A word read as a circle of bits. `nextRun` is the position of the first run of ones that starts
above bit 0, found by the usual `ctz (x & (x + 1))`. A word that repeats an element with one run
of ones is described by the size of the element, the length of the run and a rotation.
-/

namespace Phocoena

section
variable {w : Nat}

/-- Bit `i` of the word, counted around the circle. -/
def circle (x : BitVec w) (i : Nat) : Bool := x.getLsbD (i % w)

theorem circle_of_lt (x : BitVec w) {i : Nat} (lt : i < w) : circle x i = x.getLsbD i := by
  rw [circle, Nat.mod_eq_of_lt lt]

theorem circle_mod (x : BitVec w) (i : Nat) : circle x (i % w) = circle x i := by
  rw [circle, circle, Nat.mod_mod]

theorem circle_add_width (x : BitVec w) (i : Nat) : circle x (i + w) = circle x i := by
  rw [circle, circle, Nat.add_mod_right]

theorem circle_ext {x y : BitVec w} (same : ∀ i < w, circle x i = circle y i) : x = y := by
  refine BitVec.eq_of_getLsbD_eq fun i lt => ?_
  rw [← circle_of_lt x lt, ← circle_of_lt y lt]
  exact same i lt

theorem circle_rotateRight (x : BitVec w) (r i : Nat) :
    circle (x.rotateRight r) i = circle x (i + r) := by
  rcases Nat.eq_zero_or_pos w with rfl | pos
  · simp [circle, BitVec.of_length_zero]
  · have inside := Nat.mod_lt i pos
    have amount := Nat.mod_lt r pos
    rw [circle, circle, BitVec.getLsbD_rotateRight, Nat.add_mod]
    by_cases below : i % w < w - r % w
    · have forward : (i % w + r % w) % w = r % w + i % w := by
        rw [Nat.mod_eq_of_lt (by omega), Nat.add_comm]
      rw [decide_eq_true below, cond_true, forward]
    · have back : (i % w + r % w) % w = i % w - (w - r % w) := by
        rw [@Nat.mod_eq_sub_mod (i % w + r % w) w (by omega), Nat.mod_eq_of_lt (by omega)]
        omega
      rw [decide_eq_false below, cond_false, decide_eq_true inside, Bool.true_and, back]

/-- A rotation by `e` leaves the word as it is when the circle repeats after `e` bits. -/
theorem rotateRight_eq_iff (x : BitVec w) (e : Nat) :
    x.rotateRight e = x ↔ ∀ i, circle x (i + e) = circle x i := by
  constructor
  · intro same i
    rw [← circle_rotateRight, same]
  · intro same
    refine circle_ext fun i _ => ?_
    rw [circle_rotateRight, same]

/-! ## The first run above bit 0 -/

theorem carry_one (x : BitVec w) (i : Nat) (lt : i < w) :
    BitVec.carry (i + 1) x 1#w false = decide (∀ j ≤ i, x.getLsbD j = true) := by
  induction i with
  | zero => simp [BitVec.carry_succ, lt]
  | succ i ih =>
      rw [BitVec.carry_succ, ih (by omega)]
      have one : (1#w).getLsbD (i + 1) = false := by simp [BitVec.getLsbD_one]
      rw [one, Bool.atLeastTwo_false_mid, Bool.eq_iff_iff]
      simp only [Bool.and_eq_true, decide_eq_true_eq]
      constructor
      · rintro ⟨top, below⟩ j le
        rcases Nat.lt_or_eq_of_le le with lt | rfl
        · exact below j (by omega)
        · exact top
      · exact fun all => ⟨all _ (Nat.le_refl _), fun j le => all j (by omega)⟩

theorem getLsbD_and_add_one (x : BitVec w) {i : Nat} (lt : i < w) :
    (x &&& (x + 1#w)).getLsbD i = (x.getLsbD i && decide (∃ j < i, x.getLsbD j = false)) := by
  rw [BitVec.getLsbD_and, BitVec.getLsbD_add lt]
  cases i with
  | zero => simp [lt]
  | succ i =>
      rw [carry_one x i (by omega)]
      have one : (1#w).getLsbD (i + 1) = false := by simp [BitVec.getLsbD_one]
      rw [one, Bool.false_xor]
      cases h : x.getLsbD (i + 1) with
      | false => rfl
      | true =>
          rw [Bool.true_and, Bool.true_and, Bool.eq_iff_iff]
          simp [Nat.lt_succ_iff]

/-- The start of the first run of ones above bit 0, or the width. -/
def nextRun (x : BitVec w) : Nat := (x &&& (x + 1#w)).ctz.toNat

theorem ne_zero_of_ctz_lt {x : BitVec w} (lt : x.ctz.toNat < w) : x ≠ 0#w := by
  rw [← BitVec.ctz_lt_iff_ne_zero, BitVec.lt_def]
  simpa using lt

theorem ctz_toNat_le (x : BitVec w) : x.ctz.toNat ≤ w := by
  have le := BitVec.clz_le (x := x.reverse)
  rw [← BitVec.ctz_eq_reverse_clz, BitVec.le_def] at le
  simpa using le

theorem nextRun_le (x : BitVec w) : nextRun x ≤ w := ctz_toNat_le _

theorem no_run_before {x : BitVec w} {i : Nat} (lt : i + 1 < nextRun x)
    (low : x.getLsbD i = false) : x.getLsbD (i + 1) = false := by
  have inside := nextRun_le x
  have clear := BitVec.getLsbD_false_of_lt_ctz lt
  rw [getLsbD_and_add_one x (by omega)] at clear
  have ended : ∃ j < i + 1, x.getLsbD j = false := ⟨i, Nat.lt_succ_self i, low⟩
  rwa [decide_eq_true ended, Bool.and_true] at clear

theorem nextRun_starts {x : BitVec w} (lt : nextRun x < w) :
    0 < nextRun x ∧ x.getLsbD (nextRun x) = true ∧ x.getLsbD (nextRun x - 1) = false := by
  have set := BitVec.getLsbD_true_ctz_of_ne_zero (ne_zero_of_ctz_lt lt)
  rw [← nextRun, getLsbD_and_add_one x lt, Bool.and_eq_true, decide_eq_true_eq] at set
  obtain ⟨start, j, before, low⟩ := set
  refine ⟨by omega, start, ?_⟩
  -- The bits from `j` on stay clear up to the run.
  have clear : ∀ d, j + d < nextRun x → x.getLsbD (j + d) = false := by
    intro d
    induction d with
    | zero => exact fun _ => low
    | succ d ih => exact fun more => no_run_before more (ih (by omega))
  have last := clear (nextRun x - 1 - j) (by omega)
  rwa [show j + (nextRun x - 1 - j) = nextRun x - 1 by omega] at last

/-- `std::countr_one`. -/
def countrOne (x : BitVec w) : Nat := (~~~x).ctz.toNat

theorem getLsbD_of_lt_countrOne {x : BitVec w} {i : Nat} (lt : i < countrOne x) :
    x.getLsbD i = true := by
  have inside : i < w := Nat.lt_of_lt_of_le lt (ctz_toNat_le _)
  have clear := BitVec.getLsbD_false_of_lt_ctz lt
  simpa [inside] using clear

theorem getLsbD_countrOne {x : BitVec w} (lt : countrOne x < w) :
    x.getLsbD (countrOne x) = false := by
  have set := BitVec.getLsbD_true_ctz_of_ne_zero (ne_zero_of_ctz_lt lt)
  rw [← countrOne, BitVec.getLsbD_not, decide_eq_true lt, Bool.true_and] at set
  simpa using set

/-- A word with bit 0 set and its last bit clear is a run of ones, zeros up to the next run, and
what follows. -/
theorem first_run {x : BitVec w} (low : x.getLsbD 0 = true) (high : x.getLsbD (w - 1) = false) :
    0 < countrOne x ∧ countrOne x < nextRun x ∧
      ∀ i < nextRun x, x.getLsbD i = decide (i < countrOne x) := by
  have pos : 0 < w := by
    by_contra none
    rw [BitVec.getLsbD_of_ge x 0 (by omega)] at low
    cases low
  have ones : countrOne x < w := by
    by_contra all
    have := getLsbD_of_lt_countrOne (x := x) (i := w - 1) (by omega)
    rw [high] at this
    cases this
  have ends := getLsbD_countrOne ones
  have some : 0 < countrOne x := by
    by_contra none
    rw [Nat.eq_zero_of_not_pos none, low] at ends
    cases ends
  have before : countrOne x < nextRun x := by
    by_contra after
    rcases Nat.lt_or_ge (nextRun x) w with lt | ge
    · obtain ⟨above, set, clear⟩ := nextRun_starts lt
      rw [getLsbD_of_lt_countrOne (by omega)] at clear
      cases clear
    · omega
  have zeros : ∀ d, countrOne x + d < nextRun x → x.getLsbD (countrOne x + d) = false := by
    intro d
    induction d with
    | zero => exact fun _ => ends
    | succ d ih => exact fun more => no_run_before more (ih (by omega))
  refine ⟨some, before, fun i lt => ?_⟩
  by_cases run : i < countrOne x
  · rw [getLsbD_of_lt_countrOne run, decide_eq_true run]
  · have clear := zeros (i - countrOne x) (by omega)
    rw [show countrOne x + (i - countrOne x) = i by omega] at clear
    rw [clear, decide_eq_false run]

/-! ## Words that repeat one run -/

/-- The word repeats an element of `size` bits with one run of `ones` ones, rotated right by
`shift`. -/
structure OneRun (x : BitVec w) (size ones shift : Nat) : Prop where
  nonempty : 0 < ones
  proper : ones < size
  divides : size ∣ w
  bits : ∀ i < w, x.getLsbD i = decide ((i + shift) % size < ones)

variable {x : BitVec w}

theorem pos_of_ne_zero (nonzero : x ≠ 0#w) : 0 < w := by
  cases w with
  | zero => exact absurd BitVec.of_length_zero nonzero
  | succ w => exact Nat.succ_pos w

/-- Rotated by `nextRun` the word starts with a run. -/
theorem circle_nextRun (nonzero : x ≠ 0#w) (notAll : ~~~x ≠ 0#w) :
    circle x (nextRun x) = true ∧ circle x (nextRun x + (w - 1)) = false := by
  have pos := pos_of_ne_zero nonzero
  rcases Nat.lt_or_ge (nextRun x) w with lt | ge
  · obtain ⟨above, start, clear⟩ := nextRun_starts lt
    have back : nextRun x + (w - 1) = nextRun x - 1 + w := by omega
    rw [back, circle_add_width, circle_of_lt x lt, circle_of_lt x (by omega)]
    exact ⟨start, clear⟩
  -- No run starts above bit 0, so the only run starts there.
  · have whole : nextRun x = 0 + w := by
      have := nextRun_le x
      omega
    have wrap : 0 + w + (w - 1) = w - 1 + w := by omega
    rw [whole, wrap, circle_add_width, circle_add_width, circle_of_lt x pos,
      circle_of_lt x (by omega)]
    have clear : ∀ i < w, ∀ d, i + d < w → x.getLsbD i = false → x.getLsbD (i + d) = false := by
      intro i _ d
      induction d with
      | zero => exact fun _ low => low
      | succ d ih =>
          intro more low
          have before : i + d + 1 < nextRun x := by omega
          exact no_run_before before (ih (by omega) low)
    constructor
    · by_contra low
      refine nonzero (BitVec.eq_of_getLsbD_eq fun i lt => ?_)
      have := clear 0 pos i (by omega) (by simpa using low)
      simpa using this
    · by_contra high
      refine notAll (BitVec.eq_of_getLsbD_eq fun i lt => ?_)
      have set : x.getLsbD i = true := by
        by_contra low
        have := clear i lt (w - 1 - i) (by omega) (by simpa using low)
        rw [show i + (w - 1 - i) = w - 1 by omega] at this
        exact high this
      simp [set]

theorem mod_add_sub {i e r : Nat} (pos : 0 < e) : (i + r + (e - r % e) % e) % e = i % e := by
  have whole : (r + (e - r % e)) % e = 0 := by
    have := Nat.div_add_mod r e
    have lt := Nat.mod_lt r pos
    have sum : r + (e - r % e) = e * (r / e + 1) := by
      rw [Nat.mul_add]
      omega
    rw [sum, Nat.mul_mod_right]
  rw [Nat.add_assoc, Nat.add_mod, Nat.add_mod r, Nat.mod_mod, ← Nat.add_mod r, whole, Nat.add_zero,
    Nat.mod_mod]

/-- A word that is its own rotation by the size found repeats the element found. -/
theorem oneRun_of_rotateRight (nonzero : x ≠ 0#w) (notAll : ~~~x ≠ 0#w)
    (repeats : x.rotateRight (nextRun (x.rotateRight (nextRun x))) = x) :
    OneRun x (nextRun (x.rotateRight (nextRun x))) (countrOne (x.rotateRight (nextRun x)))
      ((nextRun (x.rotateRight (nextRun x)) -
        nextRun x % nextRun (x.rotateRight (nextRun x))) %
          nextRun (x.rotateRight (nextRun x))) := by
  obtain ⟨start, before⟩ := circle_nextRun nonzero notAll
  have shifted := circle_rotateRight x (nextRun x)
  generalize hr : nextRun x = r at *
  generalize hy : x.rotateRight r = y at *
  have pos := pos_of_ne_zero nonzero
  have low : y.getLsbD 0 = true := by
    rw [← circle_of_lt y pos, shifted, Nat.zero_add, start]
  have high : y.getLsbD (w - 1) = false := by
    rw [← circle_of_lt y (by omega), shifted, Nat.add_comm, before]
  obtain ⟨nonempty, proper, element⟩ := first_run low high
  have inside := nextRun_le y
  generalize he : nextRun y = e at *
  have period := (rotateRight_eq_iff x e).mp repeats
  have periodY : ∀ i, circle y (i + e) = circle y i := by
    intro i
    rw [shifted, shifted, show i + e + r = i + r + e by omega, period]
  have periods : ∀ n i, circle y (i + e * n) = circle y i := by
    intro n i
    induction n with
    | zero => rfl
    | succ n ih => rw [Nat.mul_succ, ← Nat.add_assoc, periodY, ih]
  -- A run starts at every multiple of the size, and at the end of the word: these must agree.
  have divides : e ∣ w := by
    rw [Nat.dvd_iff_mod_eq_zero]
    by_contra rest
    have parts := Nat.div_add_mod w e
    have lt := Nat.mod_lt w (show 0 < e by omega)
    have first : y.getLsbD (w % e) = true := by
      rw [← circle_of_lt y (by omega), ← periods (w / e),
        show w % e + e * (w / e) = 0 + w by omega, circle_add_width, circle_of_lt y pos, low]
    have last : y.getLsbD (w % e - 1) = false := by
      rw [← circle_of_lt y (by omega), ← periods (w / e),
        show w % e - 1 + e * (w / e) = w - 1 by omega, circle_of_lt y (by omega), high]
    rw [element _ (by omega), decide_eq_true_eq] at first
    rw [element _ (by omega), decide_eq_false_iff_not] at last
    omega
  refine ⟨nonempty, proper, divides, fun i lt => ?_⟩
  have size : 0 < e := by omega
  have reduced : ∀ j, circle y j = decide (j % e < countrOne y) := by
    intro j
    have lt := Nat.mod_lt j size
    rw [← element _ lt, ← circle_of_lt y (by omega), ← periods (j / e) (j % e), Nat.mod_add_div]
  have back : circle x i = circle y (i + (e - r % e) % e) := by
    obtain ⟨n, hn⟩ : ∃ n, i + (e - r % e) % e + r = i + e * n := by
      refine ⟨(r + (e - r % e) % e) / e, ?_⟩
      have whole := @mod_add_sub 0 e r size
      rw [Nat.zero_add, Nat.zero_mod] at whole
      have := Nat.div_add_mod (r + (e - r % e) % e) e
      omega
    have periodsX : ∀ n i, circle x (i + e * n) = circle x i := by
      intro n i
      induction n with
      | zero => rfl
      | succ n ih => rw [Nat.mul_succ, ← Nat.add_assoc, period, ih]
    rw [shifted, hn, periodsX]
  rw [← circle_of_lt x lt, back, reduced]

section OneRun
variable {size ones shift : Nat}

theorem OneRun.circle_eq (h : OneRun x size ones shift) (pos : 0 < w) (i : Nat) :
    circle x i = decide ((i + shift) % size < ones) := by
  rw [← circle_mod, circle_of_lt x (Nat.mod_lt i pos), h.bits _ (Nat.mod_lt i pos), Nat.add_mod,
    Nat.mod_mod_of_dvd i h.divides, ← Nat.add_mod]

theorem mod_pred {i : Nat} (above : 0 < i % size) : (i - 1) % size = i % size - 1 := by
  rcases Nat.eq_zero_or_pos size with rfl | pos
  · rw [Nat.mod_zero, Nat.mod_zero]
  · have parts := Nat.div_add_mod i size
    have lt := Nat.mod_lt i pos
    rw [show i - 1 = i % size - 1 + size * (i / size) by omega, Nat.add_mul_mod_self_left,
      Nat.mod_eq_of_lt (by omega)]

/-- A word that repeats after `period` bits repeats the element within them. -/
theorem OneRun.dvd_of_period (h : OneRun x size ones shift) (pos : 0 < w) {period : Nat}
    (repeats : ∀ i, circle x (i + period) = circle x i) : size ∣ period := by
  have nonempty := h.nonempty
  have proper := h.proper
  have bit := h.circle_eq pos
  -- A position where an element starts, and the one before it.
  obtain ⟨i, n, start⟩ : ∃ i n, i + shift + 1 = size * n :=
    ⟨size * (shift + 1) - shift - 1, shift + 1, by
      have := Nat.le_mul_of_pos_left (shift + 1) (show 0 < size by omega)
      omega⟩
  have at_ := repeats (i + 1)
  have before := repeats i
  rw [bit, bit, show i + 1 + period + shift = period + size * n by omega,
    show i + 1 + shift = size * n by omega, Nat.add_mul_mod_self_left, Nat.mul_mod_right,
    decide_eq_true nonempty, decide_eq_true_eq] at at_
  have positive : 0 < n := by
    by_contra none
    rw [Nat.eq_zero_of_not_pos none] at start
    omega
  obtain ⟨m, rfl⟩ : ∃ m, n = m + 1 := ⟨n - 1, by omega⟩
  rw [Nat.mul_succ] at start
  rw [bit, bit, show i + shift = size - 1 + size * m by omega, Nat.add_mul_mod_self_left,
    Nat.mod_eq_of_lt (show size - 1 < size by omega),
    decide_eq_false (show ¬ size - 1 < ones by omega), decide_eq_false_iff_not] at before
  rw [Nat.dvd_iff_mod_eq_zero]
  by_contra inside
  have last : (i + period + shift) % size = period % size - 1 := by
    rw [show i + period + shift = period + size * (m + 1) - 1 by rw [Nat.mul_succ]; omega, mod_pred,
      Nat.add_mul_mod_self_left]
    rw [Nat.add_mul_mod_self_left]
    omega
  omega

/-- In a word that repeats one run, the size found is the size of the element. -/
theorem OneRun.nextRun_normalized (h : OneRun x size ones shift) (nonzero : x ≠ 0#w)
    (notAll : ~~~x ≠ 0#w) :
    nextRun (x.rotateRight (nextRun x)) = size ∧ x.rotateRight size = x := by
  obtain ⟨start, before⟩ := circle_nextRun nonzero notAll
  have pos := pos_of_ne_zero nonzero
  have bits := h.circle_eq pos
  obtain ⟨nonempty, proper, divides, -⟩ := h
  have fits := Nat.le_of_dvd pos divides
  have shifted := circle_rotateRight x (nextRun x)
  have previous : ∀ i, 0 < i % size → (i + (w - 1)) % size = i % size - 1 := by
    intro i above
    have wraps : (i + w) % size = i % size := by
      rw [Nat.add_mod, Nat.mod_eq_zero_of_dvd divides, Nat.add_zero, Nat.mod_mod]
    rw [← Nat.add_sub_assoc pos, mod_pred (by omega), wraps]
  -- The run found starts where an element does.
  have aligned : (nextRun x + shift) % size = 0 := by
    rw [bits, decide_eq_true_eq] at start
    rw [bits, decide_eq_false_iff_not, Nat.add_right_comm] at before
    by_contra inside
    rw [previous _ (by omega)] at before
    omega
  have element : ∀ i, circle (x.rotateRight (nextRun x)) i = decide (i % size < ones) := by
    intro i
    rw [shifted, bits, Nat.add_assoc, Nat.add_mod, aligned, Nat.add_zero, Nat.mod_mod]
  generalize x.rotateRight (nextRun x) = y at *
  constructor
  · have inside := nextRun_le y
    have atMost : nextRun y ≤ size := by
      by_contra above
      have last : y.getLsbD (size - 1) = false := by
        rw [← circle_of_lt y (by omega), element, Nat.mod_eq_of_lt (by omega)]
        exact decide_eq_false (by omega)
      have next := no_run_before (x := y) (i := size - 1) (by omega) last
      rw [show size - 1 + 1 = size by omega, ← circle_of_lt y (by omega), element, Nat.mod_self,
        decide_eq_true nonempty] at next
      cases next
    by_contra other
    obtain ⟨above, set, clear⟩ := nextRun_starts (x := y) (by omega)
    rw [← circle_of_lt y (by omega), element, decide_eq_true_eq, Nat.mod_eq_of_lt (by omega)] at set
    rw [← circle_of_lt y (by omega), element, decide_eq_false_iff_not,
      Nat.mod_eq_of_lt (by omega)] at clear
    omega
  · refine (rotateRight_eq_iff x size).mpr fun i => ?_
    rw [bits, bits, Nat.add_right_comm, Nat.add_mod_right]

end OneRun

end

end Phocoena
