import Phocoena.VideoCommon.Figures

/-! # What the index generator draws

Each function of the index generator writes parts of an index buffer, and a part means the same
figures wherever it stands. A part carries its figures, its length and that none of its indices is
the restart mark.
-/

namespace Phocoena.VideoCommon

open IndexGenerator IndexWrite Figure

variable {b : BackendInfo} {type : PrimitiveType}

/-! ## Parts of an index buffer -/

structure Part (b : BackendInfo) (type : PrimitiveType) (written : List IndexWrite)
    (figures : List (Figure Nat)) (size : Nat) : Prop where
  draws : ∀ rest, decode b type (written.map stored ++ rest) = figures ++ decode b type rest
  below : ∀ value, .index value ∈ written → value < 0xFFFF
  length : written.length = size

theorem Part.nil : Part b type [] [] 0 :=
  ⟨fun _ => rfl, fun _ mem => absurd mem List.not_mem_nil, rfl⟩

theorem Part.append {written written' : List IndexWrite} {figures figures' : List (Figure Nat)}
    {size size' : Nat} (first : Part b type written figures size)
    (second : Part b type written' figures' size') :
    Part b type (written ++ written') (figures ++ figures') (size + size') where
  draws rest := by
    rw [List.map_append, List.append_assoc, first.draws, second.draws, List.append_assoc]
  below value mem := by
    rcases List.mem_append.mp mem with mem | mem
    · exact first.below value mem
    · exact second.below value mem
  length := by rw [List.length_append, first.length, second.length]

theorem decode_nil (b : BackendInfo) (type : PrimitiveType) : decode b type [] = [] := by
  obtain ⟨pr, expand⟩ := b
  cases type <;> cases pr <;> cases expand <;> rfl

/-- A part on its own. -/
theorem Part.decode {written : List IndexWrite} {figures : List (Figure Nat)} {size : Nat}
    (part : Part b type written figures size) :
    VideoCommon.decode b type (written.map stored) = figures := by
  have whole := part.draws []
  rwa [List.append_nil, decode_nil, List.append_nil] at whole

theorem stored_of_lt {value : Nat} (below : value < 0xFFFF) : stored (.index value) = value :=
  Nat.mod_eq_of_lt (by omega)

/-! ## The smallest parts -/

theorem cut_append {indices : List Nat} (below : ∀ i ∈ indices, i < 0xFFFF) (current rest : List Nat) :
    cut current (indices ++ 0xFFFF :: rest) = (current ++ indices) :: cut [] rest := by
  induction indices generalizing current with
  | nil => simp [cut]
  | cons i indices ih =>
      have lt := below i List.mem_cons_self
      rw [List.cons_append, cut, if_neg (Nat.ne_of_lt lt),
        ih fun j mem => below j (List.mem_cons_of_mem i mem), List.append_assoc]
      rfl

theorem map_stored {indices : List Nat} (below : ∀ i ∈ indices, i < 0xFFFF) :
    (indices.map index).map stored = indices := by
  rw [List.map_map]
  exact (List.map_congr_left fun i mem => stored_of_lt (below i mem)).trans (List.map_id indices)

/-- A strip and its mark. -/
theorem part_marked {indices : List Nat} (below : ∀ i ∈ indices, i < 0xFFFF)
    {shape : List Nat → List (Figure Nat)}
    (cuts : ∀ l, VideoCommon.decode b type l = (cut [] l).flatMap shape) :
    Part b type (indices.map index ++ [s_primitive_restart]) (shape indices)
      (indices.length + 1) where
  draws rest := by
    rw [List.map_append, map_stored below, List.append_assoc, cuts, cuts]
    change (cut [] (indices ++ 0xFFFF :: rest)).flatMap shape = _
    rw [cut_append below, List.nil_append, List.flatMap_cons]
  below value mem := by
    rcases List.mem_append.mp mem with mem | mem
    · obtain ⟨i, inside, eq⟩ := List.mem_map.mp mem
      cases eq
      exact below value inside
    · cases List.mem_singleton.mp mem
  length := by simp

/-- `primitive_from_gx` for the primitives that are triangles -/
def triangleType (b : BackendInfo) : PrimitiveType :=
  if b.bSupportsPrimitiveRestart then .TriangleStrip else .Triangles

theorem part_strip (pr : b.bSupportsPrimitiveRestart = true) {indices : List Nat}
    (below : ∀ i ∈ indices, i < 0xFFFF) :
    Part b (triangleType b) (indices.map index ++ [s_primitive_restart]) (strip false indices)
      (indices.length + 1) := by
  rw [triangleType, if_pos pr]
  exact part_marked below fun _ => rfl

theorem part_triangle {i j k : Nat} (hi : i < 0xFFFF) (hj : j < 0xFFFF) (hk : k < 0xFFFF) :
    Part b (triangleType b) (WriteTriangle b.bSupportsPrimitiveRestart i j k)
      [triangle ↑[i, j, k]] (if b.bSupportsPrimitiveRestart then 4 else 3) := by
  cases pr : b.bSupportsPrimitiveRestart with
  | true =>
      have below : ∀ v ∈ [i, j, k], v < 0xFFFF := by simp [hi, hj, hk]
      exact part_strip pr below
  | false =>
      rw [triangleType, pr]
      refine ⟨fun rest => ?_, fun value mem => ?_, rfl⟩
      · change triangles (stored (.index i) :: stored (.index j) :: stored (.index k) :: rest) = _
        rw [stored_of_lt hi, stored_of_lt hj, stored_of_lt hk]
        rfl
      · simp only [WriteTriangle, restart, List.mem_append, List.mem_cons, List.not_mem_nil,
          or_false, IndexWrite.index.injEq] at mem
        rcases mem with (rfl | rfl | rfl) | mem
        · exact hi
        · exact hj
        · exact hk
        · simp at mem

theorem part_line (expand : b.UseVSForLinePointExpand = false) {i j : Nat} (hi : i < 0xFFFF)
    (hj : j < 0xFFFF) : Part b .Lines [.index i, .index j] [line i j] 2 where
  draws rest := by
    simp only [VideoCommon.decode, expand]
    change lines (stored (.index i) :: stored (.index j) :: rest) = _
    rw [stored_of_lt hi, stored_of_lt hj]
    rfl
  below value mem := by
    simp only [List.mem_cons, List.not_mem_nil, or_false, IndexWrite.index.injEq] at mem
    rcases mem with rfl | rfl
    · exact hi
    · exact hj
  length := rfl

theorem part_point (expand : b.UseVSForLinePointExpand = false) {i : Nat} (hi : i < 0xFFFF) :
    Part b .Points [.index i] [point i] 1 where
  draws rest := by
    simp only [VideoCommon.decode, expand]
    change (stored (.index i) :: rest).map point = _
    rw [stored_of_lt hi]
    rfl
  below value mem := by
    cases List.mem_singleton.mp mem
    exact hi
  length := rfl

/-- The indices of four corners. -/
def cornersSize (b : BackendInfo) : Nat := if b.bSupportsPrimitiveRestart then 5 else 6

theorem part_corners {shape : Nat → Nat → Nat → Nat → List (Figure Nat)}
    (expands : ∀ l, VideoCommon.decode b type l = expanded b shape l) {c0 c1 c2 c3 : Nat}
    (h0 : c0 < 0xFFFF) (h1 : c1 < 0xFFFF) (h2 : c2 < 0xFFFF) (h3 : c3 < 0xFFFF) :
    Part b type (corners b.bSupportsPrimitiveRestart c0 c1 c2 c3) (shape c0 c1 c2 c3)
      (cornersSize b) := by
  cases pr : b.bSupportsPrimitiveRestart with
  | true =>
      have below : ∀ v ∈ [c0, c1, c2, c3], v < 0xFFFF := by simp [h0, h1, h2, h3]
      have part := @part_marked b type _ below (fromStrip shape) fun l => by
        rw [expands, expanded, if_pos pr]
      rw [cornersSize, if_pos pr]
      exact part
  | false =>
      refine ⟨fun rest => ?_, fun value mem => ?_, by rw [cornersSize, pr]; rfl⟩
      · rw [expands, expands, expanded, expanded, pr]
        change fromTriangles shape (stored (.index c0) :: stored (.index c1) :: stored (.index c2) ::
          stored (.index c1) :: stored (.index c2) :: stored (.index c3) :: rest) = _
        rw [stored_of_lt h0, stored_of_lt h1, stored_of_lt h2, stored_of_lt h3, fromTriangles,
          if_pos ⟨rfl, rfl⟩]
        rfl
      · simp only [corners, Bool.false_eq_true, if_false, List.mem_cons, List.not_mem_nil, or_false,
          IndexWrite.index.injEq] at mem
        rcases mem with rfl | rfl | rfl | rfl | rfl | rfl <;> assumption

theorem part_expandedLine (expand : b.UseVSForLinePointExpand = true) {p q : Nat}
    (hp : p < 0x3FFF) (hq : q < 0x3FFF) :
    Part b .Lines (corners b.bSupportsPrimitiveRestart (p * 4) (p * 4 + 1) (q * 4 + 2) (q * 4 + 3))
      [line p q] (cornersSize b) := by
  have shape : expandedLine (p * 4) (p * 4 + 1) (q * 4 + 2) (q * 4 + 3) = [line p q] := by
    rw [expandedLine, if_pos ⟨by omega, rfl, by omega, rfl⟩, Nat.mul_div_cancel p (by omega)]
    congr 2
    omega
  rw [← shape]
  exact part_corners (fun l => by simp [VideoCommon.decode, expand]) (by omega) (by omega) (by omega)
    (by omega)

theorem part_expandedPoint (expand : b.UseVSForLinePointExpand = true) {p : Nat}
    (hp : p < 0x3FFF) :
    Part b .Points (corners b.bSupportsPrimitiveRestart (p * 4) (p * 4 + 1) (p * 4 + 2) (p * 4 + 3))
      [point p] (cornersSize b) := by
  have shape : expandedPoint (p * 4) (p * 4 + 1) (p * 4 + 2) (p * 4 + 3) = [point p] := by
    rw [expandedPoint, if_pos ⟨by omega, rfl, rfl, rfl⟩, Nat.mul_div_cancel p (by omega)]
  rw [← shape]
  exact part_corners (fun l => by simp [VideoCommon.decode, expand]) (by omega) (by omega) (by omega)
    (by omega)

/-! ## Loops -/

/-- A property of what is written from `i` on, by the rounds of the loop from the last one. -/
theorem forLoop_rule {cond : Nat → Bool} {step bound : Nat} {body : Nat → List IndexWrite}
    {P : Nat → List IndexWrite → Nat → Prop} (done : ∀ i, cond i = false → P i [] i)
    (round : ∀ i written last, cond i = true → P (i + step) written last →
      P i (body i ++ written) last)
    (stops : ∀ i, cond i = true → i < bound) (pos : 0 < step) {fuel i : Nat}
    (enough : bound ≤ i + fuel) :
    P i (forLoop cond step body fuel i).1 (forLoop cond step body fuel i).2 := by
  induction fuel generalizing i with
  | zero =>
      apply done
      by_contra running
      have := stops i (Bool.not_eq_false _ ▸ running)
      omega
  | succ fuel ih =>
      rw [forLoop]
      cases running : cond i with
      | false => exact done i running
      | true => exact round i _ _ running (ih (by omega))

/-- The vertices of a draw from vertex `k` on. -/
def verticesFrom (index num k : Nat) : List Nat := List.range' (index + k) (num - k)

theorem verticesFrom_cons {index num k : Nat} (lt : k < num) :
    verticesFrom index num k = (index + k) :: verticesFrom index num (k + 1) := by
  obtain ⟨m, rfl⟩ : ∃ m, num = k + 1 + m := ⟨num - (k + 1), by omega⟩
  have left : k + 1 + m - k = m + 1 := by omega
  have rest : k + 1 + m - (k + 1) = m := by omega
  rw [verticesFrom, verticesFrom, left, rest, List.range'_succ, Nat.add_assoc]

theorem verticesFrom_end {index num k : Nat} (ge : num ≤ k) : verticesFrom index num k = [] := by
  rw [verticesFrom, Nat.sub_eq_zero_of_le ge]
  rfl

theorem lt_of_mem_verticesFrom {index num k v : Nat} (mem : v ∈ verticesFrom index num k) :
    v < index + num := by
  have := List.mem_range'_1.mp mem
  omega

variable {index num : Nat}

theorem list_loop {body : Nat → List IndexWrite} {size : Nat}
    (piece : ∀ k, k + 2 < num → Part b type (body (k + 2))
      [triangle ↑[index + k, index + (k + 1), index + (k + 2)]] size) :
    Part b type (forLoop (· < num) 3 body num 2).1 (triangles (verticesFrom index num 0))
      (size * (num / 3)) := by
  refine @forLoop_rule (· < num) 3 num body
    (fun i written _ => ∀ k, i = k + 2 → Part b type written
      (triangles (verticesFrom index num k)) (size * ((num - k) / 3)))
    ?_ ?_ (fun i lt => of_decide_eq_true lt) (by omega) num 2 (by omega) 0 rfl
  · rintro _ ended k rfl
    have ge : num ≤ k + 2 := Nat.le_of_not_lt (of_decide_eq_false ended)
    have none : triangles (verticesFrom index num k) = [] := by
      by_cases first : k < num
      · rw [verticesFrom_cons first]
        by_cases second : k + 1 < num
        · rw [verticesFrom_cons second, verticesFrom_end ge]
          rfl
        · rw [verticesFrom_end (by omega)]
          rfl
      · rw [verticesFrom_end (by omega)]
        rfl
    rw [none, Nat.div_eq_of_lt (by omega), Nat.mul_zero]
    exact .nil
  · rintro _ written last running rest k rfl
    have lt : k + 2 < num := of_decide_eq_true running
    rw [verticesFrom_cons (by omega : k < num), verticesFrom_cons (by omega : k + 1 < num),
      verticesFrom_cons lt]
    have count : (num - k) / 3 = (num - (k + 3)) / 3 + 1 := by omega
    rw [count, Nat.mul_succ, Nat.add_comm _ size]
    exact (piece k lt).append (rest (k + 3) (by omega))

theorem lines_loop {body : Nat → List IndexWrite} {size : Nat}
    (piece : ∀ k, k + 1 < num → Part b type (body (k + 1)) [line (index + k) (index + (k + 1))] size) :
    Part b type (forLoop (· < num) 2 body num 1).1 (lines (verticesFrom index num 0))
      (size * (num / 2)) := by
  refine @forLoop_rule (· < num) 2 num body
    (fun i written _ => ∀ k, i = k + 1 → Part b type written
      (lines (verticesFrom index num k)) (size * ((num - k) / 2)))
    ?_ ?_ (fun i lt => of_decide_eq_true lt) (by omega) num 1 (by omega) 0 rfl
  · rintro _ ended k rfl
    have ge : num ≤ k + 1 := Nat.le_of_not_lt (of_decide_eq_false ended)
    have none : lines (verticesFrom index num k) = [] := by
      by_cases first : k < num
      · rw [verticesFrom_cons first, verticesFrom_end ge]
        rfl
      · rw [verticesFrom_end (by omega)]
        rfl
    rw [none, Nat.div_eq_of_lt (by omega), Nat.mul_zero]
    exact .nil
  · rintro _ written last running rest k rfl
    have lt : k + 1 < num := of_decide_eq_true running
    rw [verticesFrom_cons (by omega : k < num), verticesFrom_cons lt]
    have count : (num - k) / 2 = (num - (k + 2)) / 2 + 1 := by omega
    rw [count, Nat.mul_succ, Nat.add_comm _ size]
    exact (piece k lt).append (rest (k + 2) (by omega))

theorem lineStrip_loop {body : Nat → List IndexWrite} {size : Nat}
    (piece : ∀ k, k + 1 < num → Part b type (body (k + 1)) [line (index + k) (index + (k + 1))] size) :
    Part b type (forLoop (· < num) 1 body num 1).1 (lineStrip (verticesFrom index num 0))
      (size * (num - 1)) := by
  refine @forLoop_rule (· < num) 1 num body
    (fun i written _ => ∀ k, i = k + 1 → Part b type written
      (lineStrip (verticesFrom index num k)) (size * (num - k - 1)))
    ?_ ?_ (fun i lt => of_decide_eq_true lt) (by omega) num 1 (by omega) 0 rfl
  · rintro _ ended k rfl
    have ge : num ≤ k + 1 := Nat.le_of_not_lt (of_decide_eq_false ended)
    have none : lineStrip (verticesFrom index num k) = [] := by
      by_cases first : k < num
      · rw [verticesFrom_cons first, verticesFrom_end ge]
        rfl
      · rw [verticesFrom_end (by omega)]
        rfl
    have zero : num - k - 1 = 0 := by omega
    rw [none, zero, Nat.mul_zero]
    exact .nil
  · rintro _ written last running rest k rfl
    have lt : k + 1 < num := of_decide_eq_true running
    have next := rest (k + 1) rfl
    rw [verticesFrom_cons lt] at next
    rw [verticesFrom_cons (by omega : k < num), verticesFrom_cons lt]
    have count : num - k - 1 = num - (k + 1) - 1 + 1 := by omega
    rw [count, Nat.mul_succ, Nat.add_comm _ size]
    exact (piece k lt).append next

theorem points_loop {body : Nat → List IndexWrite} {size : Nat}
    (piece : ∀ k, k < num → Part b type (body k) [point (index + k)] size) :
    Part b type (forLoop (· < num) 1 body num 0).1 ((verticesFrom index num 0).map point)
      (size * num) := by
  refine @forLoop_rule (· < num) 1 num body
    (fun k written _ => Part b type written ((verticesFrom index num k).map point)
      (size * (num - k)))
    ?_ ?_ (fun i lt => of_decide_eq_true lt) (by omega) num 0 (by omega)
  · intro k ended
    have ge : num ≤ k := Nat.le_of_not_lt (of_decide_eq_false ended)
    rw [verticesFrom_end ge, Nat.sub_eq_zero_of_le ge, Nat.mul_zero]
    exact .nil
  · intro k written last running rest
    have lt : k < num := of_decide_eq_true running
    have count : num - k = num - (k + 1) + 1 := by omega
    rw [verticesFrom_cons lt, count, Nat.mul_succ, Nat.add_comm _ size]
    exact (piece k lt).append rest

/-- The loop of `AddPoints` does not go past the last vertex. -/
theorem forLoop_ne (body : Nat → List IndexWrite) (fuel : Nat) {i : Nat} (le : i ≤ num) :
    forLoop (· ≠ num) 1 body fuel i = forLoop (· < num) 1 body fuel i := by
  induction fuel generalizing i with
  | zero => rfl
  | succ fuel ih =>
      rw [forLoop, forLoop]
      by_cases lt : i < num
      · rw [if_pos (decide_eq_true (Nat.ne_of_lt lt)), if_pos (decide_eq_true lt), ih lt]
      · have eq : i = num := by omega
        rw [if_neg (by simp [eq]), if_neg (by simp [eq])]

/-! ## Strips and fans -/

/-- The vertices one after the other. -/
theorem indices_loop (index num : Nat) :
    (forLoop (· < num) 1 (fun i => [.index (index + i)]) num 0).1 =
      (verticesFrom index num 0).map IndexWrite.index := by
  refine @forLoop_rule (· < num) 1 num _
    (fun k written _ => written = (verticesFrom index num k).map IndexWrite.index)
    ?_ ?_ (fun i lt => of_decide_eq_true lt) (by omega) num 0 (by omega)
  · intro k ended
    rw [verticesFrom_end (Nat.le_of_not_lt (of_decide_eq_false ended))]
    rfl
  · intro k written last running rest
    rw [verticesFrom_cons (of_decide_eq_true running), rest]
    rfl

theorem strip_loop (bound : index + num ≤ 0xFFFF) :
    Part b (triangleType b) (forLoop (· < num) 1 (fun i =>
      let wind := (i - 2) % 2
      WriteTriangle b.bSupportsPrimitiveRestart (index + i - 2) (index + i - (1 - wind))
        (index + i - wind)) num 2).1 (strip false (verticesFrom index num 0))
      ((if b.bSupportsPrimitiveRestart then 4 else 3) * (num - 2)) := by
  refine @forLoop_rule (· < num) 1 num _
    (fun i written _ => ∀ k, i = k + 2 → Part b (triangleType b) written
      (strip (k % 2 = 1) (verticesFrom index num k))
      ((if b.bSupportsPrimitiveRestart then 4 else 3) * (num - k - 2)))
    ?_ ?_ (fun i lt => of_decide_eq_true lt) (by omega) num 2 (by omega) 0 rfl
  · rintro _ ended k rfl
    have ge : num ≤ k + 2 := Nat.le_of_not_lt (of_decide_eq_false ended)
    have zero : num - k - 2 = 0 := by omega
    have none : strip (k % 2 = 1) (verticesFrom index num k) = [] := by
      by_cases first : k < num
      · rw [verticesFrom_cons first]
        by_cases second : k + 1 < num
        · rw [verticesFrom_cons second, verticesFrom_end ge]
          rfl
        · rw [verticesFrom_end (by omega)]
          rfl
      · rw [verticesFrom_end (by omega)]
        rfl
    rw [none, zero, Nat.mul_zero]
    exact .nil
  · rintro _ written last running rest k rfl
    have lt : k + 2 < num := of_decide_eq_true running
    have next := rest (k + 1) rfl
    rw [verticesFrom_cons (by omega : k + 1 < num), verticesFrom_cons lt] at next
    rw [verticesFrom_cons (by omega : k < num), verticesFrom_cons (by omega : k + 1 < num),
      verticesFrom_cons lt]
    have count : num - k - 2 = num - (k + 1) - 2 + 1 := by omega
    have first : index + (k + 2) - 2 = index + k := by omega
    have parity : (k + 2 - 2) % 2 = k % 2 := by rw [Nat.add_sub_cancel]
    rw [count, Nat.mul_succ, Nat.add_comm _ (ite _ _ _)]
    dsimp only
    rw [parity, first]
    rcases Nat.mod_two_eq_zero_or_one k with even | odd
    · have odd_next : (k + 1) % 2 = 1 := by omega
      have second : index + (k + 2) - 1 = index + (k + 1) := by omega
      rw [odd_next] at next
      rw [even, second]
      exact (part_triangle (by omega) (by omega) (by omega)).append next
    · have even_next : (k + 1) % 2 = 0 := by omega
      have second : index + (k + 2) - 1 = index + (k + 1) := by omega
      rw [even_next] at next
      rw [odd, second]
      exact (part_triangle (by omega) (by omega) (by omega)).append next

theorem fan_loop (bound : index + num ≤ 0xFFFF) (start : Nat) :
    Part b (triangleType b) (forLoop (· < num) 1
      (fun i => WriteTriangle b.bSupportsPrimitiveRestart index (index + i - 1) (index + i))
        num (start + 1)).1 (fanAround index (verticesFrom index num start))
      ((if b.bSupportsPrimitiveRestart then 4 else 3) * (num - start - 1)) := by
  refine @forLoop_rule (· < num) 1 num _
    (fun i written _ => ∀ k, i = k + 1 → Part b (triangleType b) written
      (fanAround index (verticesFrom index num k))
      ((if b.bSupportsPrimitiveRestart then 4 else 3) * (num - k - 1)))
    ?_ ?_ (fun i lt => of_decide_eq_true lt) (by omega) num (start + 1) (by omega) start rfl
  · rintro _ ended k rfl
    have ge : num ≤ k + 1 := Nat.le_of_not_lt (of_decide_eq_false ended)
    have zero : num - k - 1 = 0 := by omega
    have none : fanAround index (verticesFrom index num k) = [] := by
      by_cases first : k < num
      · rw [verticesFrom_cons first, verticesFrom_end ge]
        rfl
      · rw [verticesFrom_end (by omega)]
        rfl
    rw [none, zero, Nat.mul_zero]
    exact .nil
  · rintro _ written last running rest k rfl
    have lt : k + 1 < num := of_decide_eq_true running
    have next := rest (k + 1) rfl
    rw [verticesFrom_cons lt] at next
    rw [verticesFrom_cons (by omega : k < num), verticesFrom_cons lt]
    have count : num - k - 1 = num - (k + 1) - 1 + 1 := by omega
    have before : index + (k + 1) - 1 = index + k := by omega
    rw [count, Nat.mul_succ, Nat.add_comm _ (ite _ _ _), before]
    exact (part_triangle (by omega) (by omega) (by omega)).append next

theorem rotated_left (a b c : Nat) : (triangle ↑[b, c, a] : Figure Nat) = triangle ↑[a, b, c] :=
  congrArg triangle (Cycle.coe_eq_coe.mpr ⟨2, rfl⟩)

/-- A loop that takes `step` triangles of a fan in each round. -/
theorem fan_rounds {step : Nat} (pos : 0 < step) {body : Nat → List IndexWrite} {size : Nat}
    (piece : ∀ k, k + 1 + step ≤ num → ∀ written rest, Part b type written
      (fanAround index (verticesFrom index num (k + step))) rest →
      Part b type (body (k + 1) ++ written) (fanAround index (verticesFrom index num k))
        (size + rest)) (start : Nat) :
    ∃ rounds, (forLoop (· + step ≤ num) step body num (start + 1)).2 = start + 1 + step * rounds ∧
      num < start + 1 + step * rounds + step ∧
      (rounds = 0 ∨ start + 1 + step * rounds ≤ num) ∧
      ∀ written rest, Part b type written
        (fanAround index (verticesFrom index num (start + step * rounds))) rest →
        Part b type ((forLoop (· + step ≤ num) step body num (start + 1)).1 ++ written)
          (fanAround index (verticesFrom index num start)) (size * rounds + rest) := by
  refine @forLoop_rule (· + step ≤ num) step num body
    (fun i front last => ∀ k, i = k + 1 → ∃ rounds, last = k + 1 + step * rounds ∧
      num < k + 1 + step * rounds + step ∧ (rounds = 0 ∨ k + 1 + step * rounds ≤ num) ∧
      ∀ written rest, Part b type written
        (fanAround index (verticesFrom index num (k + step * rounds))) rest →
        Part b type (front ++ written) (fanAround index (verticesFrom index num k))
          (size * rounds + rest))
    ?_ ?_ ?_ pos num (start + 1) (by omega) start rfl
  · rintro _ ended k rfl
    have gt : num < k + 1 + step := Nat.lt_of_not_le (of_decide_eq_false ended)
    refine ⟨0, rfl, gt, .inl rfl, fun written rest part => ?_⟩
    rw [Nat.mul_zero, Nat.zero_add, List.nil_append]
    exact part
  · rintro _ front last running rest k rfl
    have le : k + 1 + step ≤ num := of_decide_eq_true running
    obtain ⟨rounds, last_eq, above, within, continues⟩ := rest (k + step) (by omega)
    have steps : step * (rounds + 1) = step + step * rounds := by rw [Nat.mul_succ, Nat.add_comm]
    have inside : k + 1 + step * (rounds + 1) ≤ num := by
      rcases within with rfl | within
      · omega
      · omega
    refine ⟨rounds + 1, by omega, by omega, .inr inside, fun written size' part => ?_⟩
    have sizes : size * (rounds + 1) + size' = size + (size * rounds + size') := by
      rw [Nat.mul_succ]
      omega
    rw [List.append_assoc, sizes]
    refine piece k le _ _ (continues written size' ?_)
    rw [Nat.add_assoc, ← steps]
    exact part
  · intro i running
    have le : i + step ≤ num := of_decide_eq_true running
    omega

/-- The indices of a fan, with primitive restart: three triangles, then two, then one. -/
def fanCount (num : Nat) : Nat :=
  6 * ((num - 2) / 3) + if (num - 2) % 3 = 2 then 5 else if (num - 2) % 3 = 1 then 4 else 0

theorem fan_restart (pr : b.bSupportsPrimitiveRestart = true) (bound : index + num ≤ 0xFFFF) :
    Part b (triangleType b) (AddFan b.bSupportsPrimitiveRestart num index)
      (fanAround index (verticesFrom index num 1)) (fanCount num) := by
  obtain ⟨threes, threes_last, threes_above, threes_within, threes_continue⟩ :=
    @fan_rounds b (triangleType b) index num 3 (by omega) (fun i =>
        [.index (index + i - 1), .index (index + i), .index index, .index (index + i + 1),
          .index (index + i + 2), s_primitive_restart]) 6
      (by
        intro k le written rest part
        have before : index + (k + 1) - 1 = index + k := by omega
        have below : ∀ v ∈ [index + k, index + (k + 1), index, index + (k + 1) + 1,
            index + (k + 1) + 2], v < 0xFFFF := by
          simp only [List.mem_cons, List.not_mem_nil, or_false]
          omega
        have marked := part_strip pr below
        simp only [strip, Bool.not_false, Bool.not_true, if_true, Bool.false_eq_true, if_false]
          at marked
        rw [rotated_left index (index + k), rotated_left index (index + (k + 1))] at marked
        rw [before, verticesFrom_cons (by omega : k < num),
          verticesFrom_cons (by omega : k + 1 < num), verticesFrom_cons (by omega : k + 1 + 1 < num)]
        rw [verticesFrom_cons (by omega : k + 3 < num)] at part
        rw [verticesFrom_cons (by omega : k + 1 + 1 + 1 < num)]
        exact marked.append part) 1
  obtain ⟨twos, twos_last, twos_above, twos_within, twos_continue⟩ :=
    @fan_rounds b (triangleType b) index num 2 (by omega) (fun i =>
        [.index (index + i - 1), .index (index + i), .index index, .index (index + i + 1),
          s_primitive_restart]) 5
      (by
        intro k le written rest part
        have before : index + (k + 1) - 1 = index + k := by omega
        have below : ∀ v ∈ [index + k, index + (k + 1), index, index + (k + 1) + 1],
            v < 0xFFFF := by
          simp only [List.mem_cons, List.not_mem_nil, or_false]
          omega
        have marked := part_strip pr below
        simp only [strip, Bool.not_false, if_true, Bool.false_eq_true, if_false]
          at marked
        rw [rotated_left index (index + k), rotated_left index (index + (k + 1))] at marked
        rw [before, verticesFrom_cons (by omega : k < num),
          verticesFrom_cons (by omega : k + 1 < num)]
        rw [verticesFrom_cons (by omega : k + 2 < num)] at part
        rw [verticesFrom_cons (by omega : k + 1 + 1 < num)]
        exact marked.append part) (1 + 3 * threes)
  have ones := @fan_loop b index num bound (1 + 3 * threes + 2 * twos)
  have part := threes_continue _ _ (twos_continue _ _ ones)
  have size : 6 * threes + (5 * twos + (if b.bSupportsPrimitiveRestart then 4 else 3) *
      (num - (1 + 3 * threes + 2 * twos) - 1)) = fanCount num := by
    rw [if_pos pr, fanCount]
    split
    · omega
    · split
      · omega
      · omega
  have start_twos : 1 + 3 * threes + 1 = 1 + 1 + 3 * threes := by omega
  have start_ones : 1 + 3 * threes + 2 * twos + 1 = 1 + 3 * threes + 1 + 2 * twos := by omega
  rw [size, start_ones, ← twos_last, start_twos, ← threes_last] at part
  rw [AddFan, if_pos pr, if_pos pr]
  exact part

/-! ## Quads -/

theorem quads_loop (bound : index + num ≤ 0xFFFF) :
    Part b (triangleType b) (AddQuads b.bSupportsPrimitiveRestart num index)
      (quads (verticesFrom index num 0))
      ((if b.bSupportsPrimitiveRestart then 5 else 6) * (num / 4) +
        if num % 4 = 3 then (if b.bSupportsPrimitiveRestart then 4 else 3) else 0) := by
  let body := fun i => if b.bSupportsPrimitiveRestart then
      [IndexWrite.index (index + i - 2), .index (index + i - 1), .index (index + i - 3),
        .index (index + i), s_primitive_restart]
    else WriteTriangle b.bSupportsPrimitiveRestart (index + i - 3) (index + i - 2) (index + i - 1) ++
        WriteTriangle b.bSupportsPrimitiveRestart (index + i - 3) (index + i - 1) (index + i)
  let size := if b.bSupportsPrimitiveRestart then 5 else 6
  have piece : ∀ k, k + 3 < num → Part b (triangleType b) (body (k + 3))
      [triangle ↑[index + k, index + (k + 1), index + (k + 2)],
        triangle ↑[index + k, index + (k + 2), index + (k + 3)]] size := by
    intro k lt
    have h1 : index + (k + 3) - 2 = index + (k + 1) := by omega
    have h2 : index + (k + 3) - 1 = index + (k + 2) := by omega
    have h3 : index + (k + 3) - 3 = index + k := by omega
    dsimp only [body, size]
    rw [h1, h2, h3]
    cases pr : b.bSupportsPrimitiveRestart with
    | true =>
        have below : ∀ v ∈ [index + (k + 1), index + (k + 2), index + k, index + (k + 3)],
            v < 0xFFFF := by
          simp only [List.mem_cons, List.not_mem_nil, or_false]
          omega
        have marked := part_strip pr below
        simp only [strip, Bool.not_false, if_true, Bool.false_eq_true, if_false] at marked
        rw [rotated_left (index + k) (index + (k + 1)), rotated_left (index + k) (index + (k + 2))]
          at marked
        exact marked
    | false =>
        have first := @part_triangle b (index + k) (index + (k + 1)) (index + (k + 2)) (by omega)
          (by omega) (by omega)
        have second := @part_triangle b (index + k) (index + (k + 2)) (index + (k + 3)) (by omega)
          (by omega) (by omega)
        rw [pr] at first second
        exact first.append second
  have loop := @forLoop_rule (· < num) 4 num body
    (fun i front last => ∀ k, i = k + 3 → ∃ rounds, last = k + 3 + 4 * rounds ∧ num ≤ last ∧
      (rounds = 0 ∨ k + 4 * rounds ≤ num) ∧
      ∀ written rest, Part b (triangleType b) written
        (quads (verticesFrom index num (k + 4 * rounds))) rest →
        Part b (triangleType b) (front ++ written) (quads (verticesFrom index num k))
          (size * rounds + rest))
    (by
      rintro _ ended k rfl
      have ge : num ≤ k + 3 := Nat.le_of_not_lt (of_decide_eq_false ended)
      refine ⟨0, rfl, ge, .inl rfl, fun written rest part => ?_⟩
      rw [Nat.mul_zero, Nat.zero_add, List.nil_append]
      exact part)
    (by
      rintro _ front last running rest k rfl
      have lt : k + 3 < num := of_decide_eq_true running
      obtain ⟨rounds, last_eq, above, within, continues⟩ := rest (k + 4) (by omega)
      refine ⟨rounds + 1, by omega, above, .inr (by omega), fun written size' part => ?_⟩
      have sizes : size * (rounds + 1) + size' = size + (size * rounds + size') := by
        rw [Nat.mul_succ]
        omega
      rw [List.append_assoc, sizes, verticesFrom_cons (by omega : k < num),
        verticesFrom_cons (by omega : k + 1 < num), verticesFrom_cons (by omega : k + 2 < num),
        verticesFrom_cons lt]
      refine (piece k lt).append (continues written size' ?_)
      have steps : k + 4 + 4 * rounds = k + 4 * (rounds + 1) := by omega
      rw [steps]
      exact part)
    (fun i lt => of_decide_eq_true lt) (by omega) num 3 (by omega) 0 rfl
  obtain ⟨rounds, last_eq, above, within, continues⟩ := loop
  simp only [Nat.zero_add] at last_eq within continues
  rw [AddQuads]
  by_cases three : (forLoop (· < num) 4 body num 3).2 = num
  · rw [if_pos three]
    have count : num / 4 = rounds := by omega
    have left : num % 4 = 3 := by omega
    rw [count, if_pos left]
    apply continues
    have h1 : index + num - 3 = index + 4 * rounds := by omega
    have h2 : index + num - 2 = index + (4 * rounds + 1) := by omega
    have h3 : index + num - 1 = index + (4 * rounds + 1 + 1) := by omega
    rw [h1, h2, h3, verticesFrom_cons (by omega), verticesFrom_cons (by omega),
      verticesFrom_cons (by omega), verticesFrom_end (by omega)]
    exact part_triangle (by omega) (by omega) (by omega)
  · rw [if_neg three]
    have count : num / 4 = rounds := by omega
    have left : ¬ num % 4 = 3 := by omega
    have none : quads (verticesFrom index num (4 * rounds)) = [] := by
      by_cases first : 4 * rounds < num
      · rw [verticesFrom_cons first]
        by_cases second : 4 * rounds + 1 < num
        · rw [verticesFrom_cons second, verticesFrom_end (by omega)]
          rfl
        · rw [verticesFrom_end (by omega)]
          rfl
      · rw [verticesFrom_end (by omega)]
        rfl
    have part := continues [] 0 (none ▸ .nil)
    rw [List.append_nil] at part
    rw [count, if_neg left]
    exact part

/-! ## All primitives -/

/-- The number of indices of a draw. -/
def indexCount (b : BackendInfo) : Primitive → Nat → Nat
  | .GX_DRAW_QUADS, num | .GX_DRAW_QUADS_2, num =>
      (if b.bSupportsPrimitiveRestart then 5 else 6) * (num / 4) +
        if num % 4 = 3 then (if b.bSupportsPrimitiveRestart then 4 else 3) else 0
  | .GX_DRAW_TRIANGLES, num => (if b.bSupportsPrimitiveRestart then 4 else 3) * (num / 3)
  | .GX_DRAW_TRIANGLE_STRIP, num =>
      if b.bSupportsPrimitiveRestart then num + 1 else 3 * (num - 2)
  | .GX_DRAW_TRIANGLE_FAN, num =>
      if b.bSupportsPrimitiveRestart then fanCount num else 3 * (num - 2)
  | .GX_DRAW_LINES, num => (if b.UseVSForLinePointExpand then cornersSize b else 2) * (num / 2)
  | .GX_DRAW_LINE_STRIP, num =>
      (if b.UseVSForLinePointExpand then cornersSize b else 2) * (num - 1)
  | .GX_DRAW_POINTS, num => (if b.UseVSForLinePointExpand then cornersSize b else 1) * num

theorem add_list_part (bound : index + num ≤ 0xFFFF) :
    Part b (triangleType b) (AddList b.bSupportsPrimitiveRestart num index)
      (triangles (verticesFrom index num 0))
      ((if b.bSupportsPrimitiveRestart then 4 else 3) * (num / 3)) := by
  refine list_loop fun k lt => ?_
  have h2 : index + (k + 2) - 2 = index + k := by omega
  have h1 : index + (k + 2) - 1 = index + (k + 1) := by omega
  rw [h2, h1]
  exact part_triangle (by omega) (by omega) (by omega)

theorem add_strip_part (bound : index + num ≤ 0xFFFF) :
    Part b (triangleType b) (AddStrip b.bSupportsPrimitiveRestart num index)
      (strip false (verticesFrom index num 0))
      (if b.bSupportsPrimitiveRestart then num + 1 else 3 * (num - 2)) := by
  cases pr : b.bSupportsPrimitiveRestart with
  | true =>
      have below : ∀ v ∈ verticesFrom index num 0, v < 0xFFFF := fun v mem =>
        Nat.lt_of_lt_of_le (lt_of_mem_verticesFrom mem) bound
      have length : (verticesFrom index num 0).length = num := List.length_range'
      have marked := part_strip pr below
      rw [length, ← indices_loop] at marked
      exact marked
  | false =>
      have loop := @strip_loop b index num bound
      rw [pr] at loop
      exact loop

theorem add_fan_part (bound : index + num ≤ 0xFFFF) :
    Part b (triangleType b) (AddFan b.bSupportsPrimitiveRestart num index)
      (fan (verticesFrom index num 0))
      (if b.bSupportsPrimitiveRestart then fanCount num else 3 * (num - 2)) := by
  have center : fan (verticesFrom index num 0) = fanAround index (verticesFrom index num 1) := by
    by_cases some : 0 < num
    · rw [verticesFrom_cons some]
      rfl
    · rw [verticesFrom_end (by omega), verticesFrom_end (by omega)]
      rfl
  rw [center]
  cases pr : b.bSupportsPrimitiveRestart with
  | true =>
      have part := @fan_restart b index num pr bound
      rw [pr] at part
      exact part
  | false =>
      have loop := @fan_loop b index num bound 1
      rw [pr] at loop
      exact loop

theorem add_lines_part (linestrip : Bool) (expand : b.UseVSForLinePointExpand = true)
    (bound : index + num ≤ 0x3FFF) :
    Part b .Lines (AddLines_VSExpand b.bSupportsPrimitiveRestart linestrip num index)
      (if linestrip then lineStrip (verticesFrom index num 0)
        else lines (verticesFrom index num 0))
      (cornersSize b * if linestrip then num - 1 else num / 2) := by
  have piece : ∀ k, k + 1 < num → Part b .Lines
      (corners b.bSupportsPrimitiveRestart ((index + (k + 1) - 1) * 4)
        ((index + (k + 1) - 1) * 4 + 1) ((index + (k + 1)) * 4 + 2) ((index + (k + 1)) * 4 + 3))
      [line (index + k) (index + (k + 1))] (cornersSize b) := by
    intro k lt
    have before : index + (k + 1) - 1 = index + k := by omega
    rw [before]
    exact part_expandedLine expand (by omega) (by omega)
  cases linestrip with
  | true => exact lineStrip_loop piece
  | false => exact lines_loop piece

theorem maxIndex_of_not {p : Primitive} (not : p.isLineOrPoint = false) :
    maxIndex b p = 0xFFFF := by
  rw [maxIndex, not, Bool.and_false]
  rfl

theorem maxIndex_of_lineOrPoint {p : Primitive} (is : p.isLineOrPoint = true) :
    maxIndex b p = if b.UseVSForLinePointExpand then 0x3FFF else 0xFFFF := by
  rw [maxIndex, is, Bool.and_true]

/-- Every function of the table draws what its primitive means. -/
theorem primitive_table_part {p : Primitive} (bound : index + num ≤ maxIndex b p) :
    Part b (primitiveType b p) (primitive_table b p num index)
      (p.figures (List.range' index num)) (indexCount b p num) := by
  have vertices : List.range' index num = verticesFrom index num 0 := rfl
  rw [vertices]
  cases p with
  | GX_DRAW_QUADS | GX_DRAW_QUADS_2 =>
      rw [maxIndex_of_not rfl] at bound
      exact quads_loop bound
  | GX_DRAW_TRIANGLES =>
      rw [maxIndex_of_not rfl] at bound
      exact add_list_part bound
  | GX_DRAW_TRIANGLE_STRIP =>
      rw [maxIndex_of_not rfl] at bound
      exact add_strip_part bound
  | GX_DRAW_TRIANGLE_FAN =>
      rw [maxIndex_of_not rfl] at bound
      exact add_fan_part bound
  | GX_DRAW_LINES =>
      rw [maxIndex_of_lineOrPoint rfl] at bound
      rw [primitive_table, indexCount]
      cases expand : b.UseVSForLinePointExpand with
      | true =>
          rw [if_pos expand] at bound
          exact add_lines_part false expand bound
      | false =>
          rw [expand] at bound
          refine lines_loop fun k lt => ?_
          have before : index + (k + 1) - 1 = index + k := by omega
          have below : index + num ≤ 0xFFFF := bound
          rw [before]
          exact part_line expand (by omega) (by omega)
  | GX_DRAW_LINE_STRIP =>
      rw [maxIndex_of_lineOrPoint rfl] at bound
      rw [primitive_table, indexCount]
      cases expand : b.UseVSForLinePointExpand with
      | true =>
          rw [if_pos expand] at bound
          exact add_lines_part true expand bound
      | false =>
          rw [expand] at bound
          refine lineStrip_loop fun k lt => ?_
          have before : index + (k + 1) - 1 = index + k := by omega
          have below : index + num ≤ 0xFFFF := bound
          rw [before]
          exact part_line expand (by omega) (by omega)
  | GX_DRAW_POINTS =>
      rw [maxIndex_of_lineOrPoint rfl] at bound
      rw [primitive_table, indexCount]
      cases expand : b.UseVSForLinePointExpand with
      | true =>
          rw [if_pos expand] at bound
          refine points_loop fun k lt => part_expandedPoint expand ?_
          have below : index + num ≤ 0x3FFF := bound
          omega
      | false =>
          rw [expand] at bound
          have below : index + num ≤ 0xFFFF := bound
          have loop := @points_loop b .Points index num (fun i => [.index (index + i)]) 1
            fun k lt => part_point expand (by omega)
          rw [← forLoop_ne _ num (Nat.zero_le num)] at loop
          exact loop

end Phocoena.VideoCommon
