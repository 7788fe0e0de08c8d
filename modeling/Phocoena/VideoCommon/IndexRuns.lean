import Phocoena.VideoCommon.IndexDraws

/-! # Every draw of a run

The batches that are drawn, with the one that is being collected, show the figures of all draws in
order. A draw joins the batch that is being collected or starts another; what it adds is a part of
the index buffer.
-/

namespace Phocoena.VideoCommon

open IndexGenerator VertexManager VertexLoaderManager

variable {α β : Type} {b : BackendInfo} {m : VertexManager β} {p : Primitive}

/-! ## Counts -/

/-- The largest number of vertices of a batch. -/
def typeMax (b : BackendInfo) : PrimitiveType → Nat
  | .Lines | .Points => if b.UseVSForLinePointExpand then 0x3FFF else 0xFFFF
  | .Triangles | .TriangleStrip => 0xFFFF

theorem maxIndex_eq (b : BackendInfo) (p : Primitive) :
    maxIndex b p = typeMax b (primitiveType b p) := by
  obtain ⟨pr, expand⟩ := b
  cases p <;> cases pr <;> cases expand <;> rfl

/-- The primitives that are drawn as strips where there is primitive restart. -/
def Primitive.marked (b : BackendInfo) : Primitive → Bool
  | .GX_DRAW_TRIANGLE_STRIP | .GX_DRAW_TRIANGLE_FAN => b.bSupportsPrimitiveRestart
  | _ => false

theorem indexCount_le (unmarked : p.marked b = false) {num index_len : Nat}
    (le : num ≤ verticesFor b p index_len) : indexCount b p num ≤ index_len := by
  obtain ⟨pr, expand⟩ := b
  cases p with
  | GX_DRAW_QUADS | GX_DRAW_QUADS_2 =>
      cases pr <;> simp [indexCount, verticesFor, Primitive.isLineOrPoint] at le ⊢ <;> split <;> omega
  | GX_DRAW_TRIANGLES =>
      cases pr <;> simp [indexCount, verticesFor, Primitive.isLineOrPoint] at le ⊢ <;> omega
  | GX_DRAW_TRIANGLE_STRIP | GX_DRAW_TRIANGLE_FAN =>
      cases pr with
      | true => simp [Primitive.marked] at unmarked
      | false =>
          simp [indexCount, verticesFor, Primitive.isLineOrPoint] at le ⊢
          omega
  | GX_DRAW_LINES | GX_DRAW_LINE_STRIP | GX_DRAW_POINTS =>
      cases pr <;> cases expand <;>
        simp [indexCount, verticesFor, Primitive.isLineOrPoint, cornersSize] at le ⊢ <;> omega

/-- An empty index buffer is large enough. -/
theorem le_verticesFor {num : Nat} (le : num ≤ maxIndex b p) :
    num ≤ verticesFor b p MAXIBUFFERSIZE := by
  obtain ⟨pr, expand⟩ := b
  cases p <;> cases pr <;> cases expand <;>
    simp [maxIndex, verticesFor, Primitive.isLineOrPoint, MAXIBUFFERSIZE] at le ⊢ <;> omega

theorem indexCount_le_of_marked (marked : p.marked b = true) {num : Nat} (le : num ≤ 0xFFFF) :
    indexCount b p num ≤ MAXIBUFFERSIZE := by
  obtain ⟨pr, expand⟩ := b
  cases p <;> cases pr <;> simp [Primitive.marked, indexCount, fanCount, MAXIBUFFERSIZE] at marked ⊢
  · omega
  · split
    · omega
    · split
      · omega
      · omega

/-! ## Batches -/

/-- No index is the mark, and there are not too many of them nor of the vertices. -/
structure Batch.Sound (b : BackendInfo) (batch : Batch β) : Prop where
  below : ∀ value, .index value ∈ batch.indices → value < 0xFFFF
  indices_le : batch.indices.length ≤ MAXIBUFFERSIZE
  vertices_le : batch.vertices.length ≤ typeMax b batch.primitive_type

/-- The batches so far. -/
def VertexManager.batches (m : VertexManager β) : List (Batch β) :=
  m.drawn ++ if m.m_is_flushed then [] else [m.batch]

structure Drawn (b : BackendInfo) (m : VertexManager β) (past : List (Figure β)) : Prop where
  sound : ∀ batch ∈ m.drawn, batch.Sound b
  shows : m.drawn.flatMap (Batch.figures b) = past.map (Figure.map some)

/-- The batch that is being collected; more vertices do not change its figures. -/
structure Pending (b : BackendInfo) (m : VertexManager β) (now : List (Figure β)) : Prop where
  base : m.m_index_generator.m_base_index = m.vertices.length
  vertices_le : m.vertices.length ≤ typeMax b m.m_current_primitive_type
  indices_le : m.m_index_generator.written.length ≤ MAXIBUFFERSIZE
  part : ∃ figures, Part b m.m_current_primitive_type m.m_index_generator.written figures
      m.m_index_generator.written.length ∧
    ∀ more, figures.map (Figure.map ((m.vertices ++ more)[·]?)) = now.map (Figure.map some)

structure Inv (b : BackendInfo) (m : VertexManager β) (out : List (Figure β)) : Prop where
  split : ∃ past now, out = past ++ now ∧ Drawn b m past ∧
    if m.m_is_flushed then now = [] else Pending b m now

theorem Pending.sound {now : List (Figure β)} (pending : Pending b m now) : m.batch.Sound b := by
  obtain ⟨figures, part, -⟩ := pending.part
  exact ⟨part.below, pending.indices_le, pending.vertices_le⟩

theorem Pending.shows {now : List (Figure β)} (pending : Pending b m now) :
    m.batch.figures b = now.map (Figure.map some) := by
  obtain ⟨figures, part, same⟩ := pending.part
  have all := same []
  rw [List.append_nil] at all
  rw [Batch.figures]
  exact (congrArg (List.map _) part.decode).trans all

theorem Inv.flush {out : List (Figure β)} (inv : Inv b m out) :
    Drawn b m.Flush out ∧ m.Flush.m_is_flushed = true := by
  obtain ⟨past, now, rfl, drawn, pending⟩ := inv.split
  rw [Flush]
  cases flushed : m.m_is_flushed with
  | true =>
      rw [if_pos flushed] at pending
      rw [if_pos rfl, pending, List.append_nil]
      exact ⟨drawn, flushed⟩
  | false =>
      rw [flushed] at pending
      have pending : Pending b m now := pending
      refine ⟨⟨fun batch mem => ?_, ?_⟩, rfl⟩
      · rcases List.mem_append.mp mem with mem | mem
        · exact drawn.sound batch mem
        · cases List.mem_singleton.mp mem
          exact pending.sound
      · change (m.drawn ++ [m.batch]).flatMap (Batch.figures b) = _
        rw [List.flatMap_append, drawn.shows, List.flatMap_singleton, pending.shows,
          List.map_append]

theorem Inv.flushed {out : List (Figure β)} (inv : Inv b m out) : Inv b m.Flush out := by
  obtain ⟨drawn, flushed⟩ := inv.flush
  refine ⟨out, [], (List.append_nil out).symm, drawn, ?_⟩
  rw [if_pos flushed]

theorem Inv.batches {out : List (Figure β)} (inv : Inv b m out) :
    (∀ batch ∈ m.batches, batch.Sound b) ∧
      m.batches.flatMap (Batch.figures b) = out.map (Figure.map some) := by
  obtain ⟨past, now, rfl, drawn, pending⟩ := inv.split
  rw [VertexManager.batches]
  cases flushed : m.m_is_flushed with
  | true =>
      rw [if_pos flushed] at pending
      rw [if_pos rfl, pending, List.append_nil, List.append_nil]
      exact ⟨drawn.sound, drawn.shows⟩
  | false =>
      rw [flushed] at pending
      have pending : Pending b m now := pending
      refine ⟨fun batch mem => ?_, ?_⟩
      · rcases List.mem_append.mp mem with mem | mem
        · exact drawn.sound batch mem
        · cases List.mem_singleton.mp mem
          exact pending.sound
      · change (m.drawn ++ [m.batch]).flatMap (Batch.figures b) = _
        rw [List.flatMap_append, drawn.shows, List.flatMap_singleton, pending.shows,
          List.map_append]

/-! ## Preparing -/

/-- The draw is collected with what is there. -/
def VertexManager.joins (b : BackendInfo) (p : Primitive) (count stride : Nat)
    (m : VertexManager β) : Bool :=
  !m.m_is_flushed && m.m_current_primitive_type = primitiveType b p && !m.full b p count stride

/-- Another batch is started. -/
def VertexManager.fresh (b : BackendInfo) (p : Primitive) (m : VertexManager β) :
    VertexManager β :=
  { m.Flush with
    m_index_generator := .Start
    m_current_primitive_type := primitiveType b p
    m_is_flushed := false
    vertices := []
    bytes := 0 }

theorem full_fresh {count stride : Nat} (le : count ≤ maxIndex b p) (count_le : count ≤ 65535)
    (stride_le : stride ≤ LARGEST_POSSIBLE_VERTEX) :
    (m.fresh b p).full b p count stride = false := by
  have indices := le_verticesFor le
  have bytes : count * stride ≤ 65535 * 188 := Nat.mul_le_mul count_le stride_le
  have generator : (m.fresh b p).m_index_generator.GetRemainingIndices b p = maxIndex b p := rfl
  have places : (m.fresh b p).GetRemainingIndices b p = verticesFor b p MAXIBUFFERSIZE := by
    have length : (m.fresh b p).m_index_generator.GetIndexLen = 0 := rfl
    have all : (MAXIBUFFERSIZE + 0x100000000 - 0) % 0x100000000 = MAXIBUFFERSIZE := by decide
    rw [VertexManager.GetRemainingIndices, length, all]
  have size : (m.fresh b p).GetRemainingSize = 16777216 := rfl
  rw [full, generator, places, size, decide_eq_false (Nat.not_lt.mpr le),
    decide_eq_false (Nat.not_lt.mpr indices), decide_eq_false (by omega)]
  rfl

theorem prepare_of_joins {count stride : Nat} (joins : m.joins b p count stride = true) :
    m.PrepareForAdditionalData b p count stride = some m := by
  simp only [VertexManager.joins, Bool.and_eq_true, Bool.not_eq_true', decide_eq_true_eq] at joins
  obtain ⟨⟨open_now, same⟩, room⟩ := joins
  rw [PrepareForAdditionalData]
  simp [same, open_now, room]

theorem prepare_of_not_joins {count stride : Nat} (joins : m.joins b p count stride = false)
    (le : count ≤ maxIndex b p) (count_le : count ≤ 65535)
    (stride_le : stride ≤ LARGEST_POSSIBLE_VERTEX) :
    m.PrepareForAdditionalData b p count stride = some (m.fresh b p) := by
  have room := @full_fresh β b m p count stride le count_le stride_le
  rw [PrepareForAdditionalData]
  cases flushed : m.m_is_flushed with
  | true =>
      have same : m.Flush = m := if_pos flushed
      rw [VertexManager.fresh, same] at room ⊢
      by_cases type : m.m_current_primitive_type = primitiveType b p
      · simp [type, flushed, ResetBuffer, room]
      · simp [type, flushed, ResetBuffer, room]
  | false =>
      have next : m.Flush = { m with m_is_flushed := true, drawn := m.drawn ++ [m.batch] } := by
        rw [Flush, flushed]
        rfl
      rw [VertexManager.fresh, next] at room ⊢
      by_cases type : m.m_current_primitive_type = primitiveType b p
      · have full_now : m.full b p count stride = true := by
          rw [VertexManager.joins, flushed, decide_eq_true type] at joins
          simpa using joins
        simp [type, flushed, full_now, next, ResetBuffer, room]
      · simp [type, ResetBuffer, room]

theorem prepare_of_long {count stride : Nat} (long : maxIndex b p < count) :
    m.PrepareForAdditionalData b p count stride = none := by
  have full_always (m : VertexManager β) : m.full b p count stride = true := by
    have few : m.m_index_generator.GetRemainingIndices b p < count := by
      rw [IndexGenerator.GetRemainingIndices]
      split
      · exact Nat.zero_lt_of_lt long
      · exact Nat.lt_of_le_of_lt (Nat.sub_le _ _) long
    rw [full, decide_eq_true few, Bool.true_or, Bool.true_or]
  rw [PrepareForAdditionalData]
  exact if_pos (full_always _)

/-! ## One batch -/

theorem map_lookup (vertices loaded more : List β) :
    (List.range' vertices.length loaded.length).map ((vertices ++ loaded ++ more)[·]?) =
      loaded.map some := by
  apply List.ext_getElem
  · simp
  · intro i lt lt'
    rw [List.length_map] at lt'
    simp [List.getElem_range', List.append_assoc, List.getElem?_append_right,
      List.getElem?_append_left lt', List.getElem?_eq_getElem lt']

theorem Pending.add {now : List (Figure β)} (pending : Pending b m now)
    (type : m.m_current_primitive_type = primitiveType b p) {loaded : List β} (stride : Nat)
    (vertices : m.vertices.length + loaded.length ≤ maxIndex b p)
    (indices : m.m_index_generator.written.length + indexCount b p loaded.length ≤
      MAXIBUFFERSIZE) :
    Pending b (m.add b p loaded stride) (now ++ p.figures loaded) := by
  obtain ⟨figures, part, same⟩ := pending.part
  have added := @primitive_table_part b m.vertices.length loaded.length p vertices
  have base := pending.base
  have written : (m.add b p loaded stride).m_index_generator.written =
      m.m_index_generator.written ++ primitive_table b p loaded.length m.vertices.length := by
    rw [← base]
    rfl
  rw [type] at part
  have whole := part.append added
  have length := whole.length
  refine ⟨?_, ?_, ?_, figures ++ p.figures (List.range' m.vertices.length loaded.length), ?_,
    fun more => ?_⟩
  · change m.m_index_generator.m_base_index + loaded.length = (m.vertices ++ loaded).length
    rw [base, List.length_append]
  · change (m.vertices ++ loaded).length ≤ typeMax b m.m_current_primitive_type
    rw [type, ← maxIndex_eq, List.length_append]
    exact vertices
  · rw [written, length]
    exact indices
  · change Part b m.m_current_primitive_type (m.add b p loaded stride).m_index_generator.written _ _
    rw [type, written, length]
    exact whole
  · change List.map (Figure.map ((m.vertices ++ loaded ++ more)[·]?)) _ = _
    have before := same (loaded ++ more)
    rw [← List.append_assoc] at before
    rw [List.map_append, before, ← Primitive.figures_map, map_lookup, Primitive.figures_map,
      List.map_append]

theorem Pending.fresh (m : VertexManager β) (p : Primitive) : Pending b (m.fresh b p) [] where
  base := rfl
  vertices_le := Nat.zero_le _
  indices_le := Nat.zero_le _
  part := ⟨[], .nil, fun _ => rfl⟩

/-- A strip or a fan with marks that joins a batch finds room for its indices. -/
def HasRoom (b : BackendInfo) (p : Primitive) (count stride kept : Nat) (m : VertexManager β) :
    Prop :=
  p.marked b = true → m.joins b p count stride = true →
    m.m_index_generator.GetIndexLen + indexCount b p kept ≤ MAXIBUFFERSIZE

theorem Inv.add {out : List (Figure β)} (inv : Inv b m out) {count stride : Nat} {loaded : List β}
    (kept : loaded.length ≤ count) (le : count ≤ maxIndex b p) (count_le : count ≤ 65535)
    (stride_le : stride ≤ LARGEST_POSSIBLE_VERTEX) (room : HasRoom b p count stride loaded.length m) :
    ∃ m', m.PrepareForAdditionalData b p count stride = some m' ∧
      m'.format = m.format ∧ Inv b (m'.add b p loaded stride) (out ++ p.figures loaded) := by
  cases joins : m.joins b p count stride with
  | true =>
      refine ⟨m, prepare_of_joins joins, rfl, ?_⟩
      have conditions := joins
      simp only [VertexManager.joins, full, Bool.and_eq_true, Bool.not_eq_true', decide_eq_true_eq,
        Bool.or_eq_false_iff, decide_eq_false_iff_not] at conditions
      obtain ⟨⟨open_now, type⟩, ⟨generator, places⟩, -⟩ := conditions
      obtain ⟨past, now, rfl, drawn, pending⟩ := inv.split
      rw [open_now] at pending
      have pending : Pending b m now := pending
      have base := pending.base
      have indices_le := pending.indices_le
      have generator_room : m.vertices.length + count ≤ maxIndex b p := by
        rw [IndexGenerator.GetRemainingIndices, base] at generator
        have within := pending.vertices_le
        rw [type, ← maxIndex_eq] at within
        rw [if_neg (Nat.not_lt.mpr within)] at generator
        omega
      have index_room : m.m_index_generator.written.length + indexCount b p loaded.length ≤
          MAXIBUFFERSIZE := by
        cases marked : p.marked b with
        | true => exact room marked joins
        | false =>
            have left : (MAXIBUFFERSIZE + 0x100000000 - m.m_index_generator.GetIndexLen) % 0x100000000 =
                MAXIBUFFERSIZE - m.m_index_generator.written.length := by
              rw [GetIndexLen]
              rw [MAXIBUFFERSIZE] at indices_le ⊢
              omega
            rw [VertexManager.GetRemainingIndices, left] at places
            have fits := indexCount_le marked (Nat.le_trans kept (Nat.le_of_not_lt places))
            omega
      have next := pending.add type stride (by omega) index_room
      refine ⟨past, now ++ p.figures loaded, List.append_assoc _ _ _,
        ⟨drawn.sound, drawn.shows⟩, ?_⟩
      have still : (m.add b p loaded stride).m_is_flushed = false := open_now
      rw [still]
      exact next
  | false =>
      refine ⟨m.fresh b p, prepare_of_not_joins joins le count_le stride_le, ?_, ?_⟩
      · rw [VertexManager.fresh, Flush]
        cases m.m_is_flushed <;> rfl
      · obtain ⟨drawn, -⟩ := inv.flush
        have index_room : indexCount b p loaded.length ≤ MAXIBUFFERSIZE := by
          cases marked : p.marked b with
          | true => exact indexCount_le_of_marked marked (Nat.le_trans kept count_le)
          | false => exact indexCount_le marked (le_verticesFor (Nat.le_trans kept le))
        have vertex_room : (m.fresh b p).vertices.length + loaded.length ≤ maxIndex b p := by
          change 0 + loaded.length ≤ maxIndex b p
          omega
        have next := (Pending.fresh m p).add rfl stride vertex_room (by
          change 0 + indexCount b p loaded.length ≤ MAXIBUFFERSIZE
          rw [Nat.zero_add]
          exact index_room)
        exact ⟨out, p.figures loaded, rfl, ⟨drawn.sound, drawn.shows⟩, next⟩

/-! ## One draw -/

/-- A draw is split where whole figures have been kept. -/
def Aligned (p : Primitive) (load : α → Option β) (src : List α) : Prop :=
  CanSplit p = true → ∀ k, max_vertices * k < src.length →
    ((src.take (max_vertices * k)).filterMap load).length % p.groupSize = 0

theorem Aligned.drop {load : α → Option β} {src : List α} (aligned : Aligned p load src)
    (split : CanSplit p = true) (long : max_vertices < src.length) :
    ((src.take max_vertices).filterMap load).length % p.groupSize = 0 ∧
      Aligned p load (src.drop max_vertices) := by
  have first := aligned split 1 (by rw [Nat.mul_one]; exact long)
  rw [Nat.mul_one] at first
  refine ⟨first, fun _ k lt => ?_⟩
  rw [List.length_drop] at lt
  have next := aligned split (k + 1) (by rw [Nat.mul_succ]; omega)
  rw [Nat.mul_succ, Nat.add_comm, List.take_add, List.filterMap_append, List.length_append,
    Nat.add_mod, first, Nat.zero_add, Nat.mod_mod] at next
  exact next

theorem runLoop_spec {fuel stride : Nat} {load : α → Option β} {src : List α}
    {out : List (Figure β)} (inv : Inv b m out) (some_left : 0 < src.length)
    (enough : src.length ≤ fuel) (le : src.length ≤ 65535)
    (stride_le : stride ≤ LARGEST_POSSIBLE_VERTEX)
    (lineStrip : CanSplit p = false → src.length ≤ maxIndex b p) (aligned : Aligned p load src)
    (room : CanSplit p = false →
      HasRoom b p src.length stride (src.filterMap load).length m) :
    ∃ m', runLoop b p stride load fuel src m = some m' ∧ m'.format = m.format ∧
      Inv b m' (out ++ p.figures (src.filterMap load)) := by
  induction fuel generalizing m src out with
  | zero => omega
  | succ fuel ih =>
      have small : 16380 ≤ maxIndex b p := by
        rw [maxIndex]
        split <;> omega
      by_cases whole : CanSplit p = true ∧ max_vertices < src.length
      · obtain ⟨split, long⟩ := whole
        have run : runLength p src.length = max_vertices := by
          rw [runLength, split, decide_eq_true long]
          rfl
        obtain ⟨first, rest_aligned⟩ := aligned.drop split long
        have unmarked : p.marked b = false := by cases p <;> first | rfl | cases split
        have kept : ((src.take max_vertices).filterMap load).length ≤ max_vertices :=
          Nat.le_trans (List.length_filterMap_le _ _) (List.length_take_le _ _)
        obtain ⟨m₁, prepared, format₁, inv₁⟩ := inv.add kept small (by decide) stride_le
          fun marked => absurd (unmarked.symm.trans marked) Bool.false_ne_true
        obtain ⟨m₂, ends, format₂, inv₂⟩ := @ih _ (src.drop max_vertices) _ inv₁
          (by rw [List.length_drop]; omega)
          (by rw [List.length_drop, max_vertices]; omega)
          (by rw [List.length_drop]; omega)
          (fun unsplit => absurd (unsplit.symm.trans split) Bool.false_ne_true) rest_aligned
          (fun unsplit => absurd (unsplit.symm.trans split) Bool.false_ne_true)
        refine ⟨m₂, ?_, format₂.trans format₁, ?_⟩
        · rw [runLoop, run]
          dsimp only
          rw [prepared, Option.bind_some, if_neg (by omega)]
          exact ends
        · have cut : src.filterMap load = (src.take max_vertices).filterMap load ++
              (src.drop max_vertices).filterMap load := by
            rw [← List.filterMap_append, List.take_append_drop]
          rw [cut, Primitive.figures_append split first, ← List.append_assoc]
          exact inv₂
      · have run : runLength p src.length = src.length := by
          rw [runLength, if_neg]
          simpa using whole
        have kept : (src.filterMap load).length ≤ src.length := List.length_filterMap_le _ _
        have count_le : src.length ≤ maxIndex b p := by
          cases split : CanSplit p with
          | true =>
              have short : ¬ max_vertices < src.length := fun long => whole ⟨split, long⟩
              rw [max_vertices] at short
              omega
          | false => exact lineStrip split
        have has_room : HasRoom b p src.length stride (src.filterMap load).length m := by
          cases split : CanSplit p with
          | true =>
              have unmarked : p.marked b = false := by cases p <;> first | rfl | cases split
              exact fun marked => absurd (unmarked.symm.trans marked) Bool.false_ne_true
          | false => exact room split
        obtain ⟨m₁, prepared, format₁, inv₁⟩ := inv.add kept count_le le stride_le has_room
        refine ⟨m₁.add b p (src.filterMap load) stride, ?_, format₁, inv₁⟩
        rw [runLoop, run]
        dsimp only
        rw [prepared, Option.bind_some, Nat.sub_self, if_pos rfl, List.take_length]

/-- What is asked of a draw: a line strip whose lines are expanded has indices for its vertices,
whole figures are kept where it is split, and there is room where it joins a batch. -/
structure DrawCommand.Meets (b : BackendInfo) (d : DrawCommand α β) (m : VertexManager β) :
    Prop where
  lineStrip : d.primitive = .GX_DRAW_LINE_STRIP → b.UseVSForLinePointExpand = true →
    d.src.length ≤ 0x3FFF
  aligned : Aligned d.primitive d.load d.src
  room : m.format = some d.format →
    HasRoom b d.primitive d.src.length d.format.stride (d.src.filterMap d.load).length m

theorem DrawCommand.Meets.length_le {d : DrawCommand α β} (meets : d.Meets b m)
    (unsplit : CanSplit d.primitive = false) : d.src.length ≤ maxIndex b d.primitive := by
  have count_le := d.count_le
  cases primitive : d.primitive with
  | GX_DRAW_LINE_STRIP =>
      rw [maxIndex_of_lineOrPoint rfl]
      split
      · next expand => exact meets.lineStrip primitive expand
      · exact count_le
  | GX_DRAW_TRIANGLE_STRIP | GX_DRAW_TRIANGLE_FAN =>
      rw [maxIndex_of_not rfl]
      exact count_le
  | GX_DRAW_QUADS | GX_DRAW_QUADS_2 | GX_DRAW_TRIANGLES | GX_DRAW_LINES | GX_DRAW_POINTS =>
      rw [primitive] at unsplit
      cases unsplit

theorem RunVertices_spec {d : DrawCommand α β} {out : List (Figure β)} (inv : Inv b m out)
    (meets : d.Meets b m) :
    ∃ m', RunVertices b d m = some m' ∧ Inv b m' (out ++ d.figures) := by
  rw [RunVertices]
  by_cases same : m.format = some d.format
  · rw [if_neg (not_not.mpr same)]
    obtain ⟨m', ran, -, inv'⟩ := runLoop_spec inv d.count_pos (Nat.le_refl _) d.count_le
      d.format.stride_le meets.length_le meets.aligned fun _ => meets.room same
    exact ⟨m', ran, inv'⟩
  · rw [if_pos same]
    obtain ⟨drawn, flushed⟩ := inv.flush
    have next : Inv b { m.Flush with format := some d.format } out := by
      refine ⟨out, [], (List.append_nil out).symm, ⟨drawn.sound, drawn.shows⟩, ?_⟩
      change if m.Flush.m_is_flushed = true then _ else _
      rw [if_pos flushed]
    have alone : HasRoom b d.primitive d.src.length d.format.stride
        (d.src.filterMap d.load).length { m.Flush with format := some d.format } := by
      intro _ joins
      rw [VertexManager.joins] at joins
      change (!m.Flush.m_is_flushed && _ && _) = true at joins
      rw [flushed] at joins
      cases joins
    obtain ⟨m', ran, -, inv'⟩ := runLoop_spec next d.count_pos (Nat.le_refl _) d.count_le
      d.format.stride_le meets.length_le meets.aligned fun _ => alone
    exact ⟨m', ran, inv'⟩

/-! ## Runs -/

def VertexLoaderManager.Action.figures : Action α β → List (Figure β)
  | .flush => []
  | .draw d => d.figures

/-- Every draw meets the conditions in the state it is made in. -/
def RunMeets (b : BackendInfo) : List (Action α β) → VertexManager β → Prop
  | [], _ => True
  | a :: actions, m => (∀ d, a = .draw d → d.Meets b m) ∧
      ∀ m', step b a m = some m' → RunMeets b actions m'

theorem run_spec {actions : List (Action α β)} {out : List (Figure β)} (inv : Inv b m out)
    (meets : RunMeets b actions m) :
    ∃ m', runActions (step b) actions m = some m' ∧
      Inv b m' (out ++ actions.flatMap Action.figures) := by
  induction actions generalizing m out with
  | nil => exact ⟨m, rfl, by rwa [List.flatMap_nil, List.append_nil]⟩
  | cons a actions ih =>
      obtain ⟨now, later⟩ := meets
      have stepped : ∃ m', step b a m = some m' ∧ Inv b m' (out ++ a.figures) := by
        cases a with
        | flush => exact ⟨m.Flush, rfl, by rw [Action.figures, List.append_nil]; exact inv.flushed⟩
        | draw d => exact RunVertices_spec inv (now d rfl)
      obtain ⟨m', next, inv'⟩ := stepped
      obtain ⟨m'', rest, inv''⟩ := ih inv' (later m' next)
      refine ⟨m'', ?_, ?_⟩
      · rw [runActions, next]
        exact rest
      · rw [List.flatMap_cons, ← List.append_assoc]
        exact inv''

/-- In a run whose draws meet the conditions all assertions hold. No index is the restart mark, no
batch has too many indices or vertices, and the batches show the figures of the draws in order. -/
theorem draws_figures (b : BackendInfo) (actions : List (Action α β))
    (meets : RunMeets b actions .init) :
    ∃ m, runActions (step b) actions .init = some m ∧
      (∀ batch ∈ m.batches, batch.Sound b) ∧
      m.batches.flatMap (Batch.figures b) =
        (actions.flatMap Action.figures).map (Figure.map some) := by
  have start : Inv b (.init : VertexManager β) [] :=
    ⟨[], [], rfl, ⟨fun _ mem => absurd mem List.not_mem_nil, rfl⟩, rfl⟩
  obtain ⟨m, ran, inv⟩ := run_spec start meets
  rw [List.nil_append] at inv
  exact ⟨m, ran, inv.batches⟩

/-- Positions only -/
def positionFormat : VertexFormat := ⟨0, 12, by decide⟩

/-- Four vertices of quads, of which the third is dropped. -/
def quadWithout : DrawCommand Nat Nat where
  primitive := .GX_DRAW_QUADS
  format := positionFormat
  src := [0, 1, 2, 3]
  load i := if i = 2 then none else some i
  count_pos := by decide
  count_le := by decide

theorem draws_figures_quad :
    ∃ m, runActions (step ⟨true, true⟩) [.draw quadWithout, .flush, .draw quadWithout] .init =
        some m ∧
      m.batches.flatMap (Batch.figures ⟨true, true⟩) =
        [.triangle ↑[some 0, some 1, some 3], .triangle ↑[some 0, some 1, some 3]] := by
  have meets : ∀ m, quadWithout.Meets ⟨true, true⟩ m := fun m => {
    lineStrip := fun primitive => by cases primitive
    aligned := by
      intro _ k lt
      have zero : k = 0 := by
        change 16380 * k < 4 at lt
        omega
      rw [zero]
      rfl
    room := fun _ marked => by cases marked }
  obtain ⟨m, ran, -, shows⟩ := draws_figures ⟨true, true⟩
    [.draw quadWithout, .flush, .draw quadWithout]
    ⟨fun d eq => (Action.draw.inj eq) ▸ meets _, fun _ _ => ⟨fun d eq => (by cases eq), fun _ _ =>
      ⟨fun d eq => (Action.draw.inj eq) ▸ meets _, fun _ _ => trivial⟩⟩⟩
  exact ⟨m, ran, shows⟩

/-- A line strip of more vertices than there are indices for expanded lines. -/
def longLineStrip : DrawCommand Unit Unit where
  primitive := .GX_DRAW_LINE_STRIP
  format := positionFormat
  src := List.replicate 16384 ()
  load := some
  count_pos := by rw [List.length_replicate]; decide
  count_le := by rw [List.length_replicate]; decide

theorem draws_figures_fails :
    runActions (step ⟨true, true⟩) [.draw longLineStrip] .init = none := by
  have length : longLineStrip.src.length = 16383 + 1 := List.length_replicate
  have run : runLength longLineStrip.primitive (16383 + 1) = 16384 := rfl
  rw [runActions, step, RunVertices, length, runLoop, length]
  dsimp only
  rw [run, prepare_of_long (by decide)]
  rfl

end Phocoena.VideoCommon
