import Phocoena.VideoCommon.VertexManager
import Mathlib.Data.List.Cycle

/-! # Figures

What is drawn: triangles with their winding, lines and points. `Primitive.figures` is what a
primitive means for its vertices, and `decode` is what the rasterizer makes of an index buffer.
-/

namespace Phocoena.VideoCommon

/-- The corners of a triangle are known up to a rotation, which keeps its winding. -/
inductive Figure (α : Type)
  | triangle (corners : Cycle α)
  | line (first second : α)
  | point (vertex : α)
deriving DecidableEq

namespace Figure

variable {α β : Type}

def map (f : α → β) : Figure α → Figure β
  | triangle corners => triangle (corners.map f)
  | line first second => line (f first) (f second)
  | point vertex => point (f vertex)

/-! ## What primitives mean -/

/-- A triangle for three vertices that are left. -/
def quads : List α → List (Figure α)
  | a :: b :: c :: d :: rest => triangle ↑[a, b, c] :: triangle ↑[a, c, d] :: quads rest
  | [a, b, c] => [triangle ↑[a, b, c]]
  | _ => []

def triangles : List α → List (Figure α)
  | a :: b :: c :: rest => triangle ↑[a, b, c] :: triangles rest
  | _ => []

/-- The winding changes with every triangle. -/
def strip (wind : Bool) : List α → List (Figure α)
  | a :: b :: c :: rest =>
      (if wind then triangle ↑[a, c, b] else triangle ↑[a, b, c]) :: strip (!wind) (b :: c :: rest)
  | _ => []

/-- The triangles of a fan around its center. -/
def fanAround (center : α) : List α → List (Figure α)
  | b :: c :: rest => triangle ↑[center, b, c] :: fanAround center (c :: rest)
  | _ => []

def fan : List α → List (Figure α)
  | center :: rest => fanAround center rest
  | [] => []

def lines : List α → List (Figure α)
  | a :: b :: rest => line a b :: lines rest
  | _ => []

def lineStrip : List α → List (Figure α)
  | a :: b :: rest => line a b :: lineStrip (b :: rest)
  | _ => []

end Figure

open Figure

variable {α β : Type}

def Primitive.figures : Primitive → List α → List (Figure α)
  | .GX_DRAW_QUADS | .GX_DRAW_QUADS_2 => quads
  | .GX_DRAW_TRIANGLES => triangles
  | .GX_DRAW_TRIANGLE_STRIP => strip false
  | .GX_DRAW_TRIANGLE_FAN => fan
  | .GX_DRAW_LINES => lines
  | .GX_DRAW_LINE_STRIP => lineStrip
  | .GX_DRAW_POINTS => List.map point

/-! ## What an index buffer means -/

/-- The index buffer, cut at the restart marks. -/
def cut (current : List Nat) : List Nat → List (List Nat)
  | [] => [current]
  | i :: rest => if i = 0xFFFF then current :: cut [] rest else cut (current ++ [i]) rest

/-- The line that the vertex shader draws for four corners. -/
def expandedLine (c0 c1 c2 c3 : Nat) : List (Figure Nat) :=
  if c0 % 4 = 0 ∧ c1 = c0 + 1 ∧ c2 % 4 = 2 ∧ c3 = c2 + 1 then [line (c0 / 4) (c2 / 4)] else []

/-- The point that the vertex shader draws for four corners. -/
def expandedPoint (c0 c1 c2 c3 : Nat) : List (Figure Nat) :=
  if c0 % 4 = 0 ∧ c1 = c0 + 1 ∧ c2 = c0 + 2 ∧ c3 = c0 + 3 then [point (c0 / 4)] else []

/-- Four corners as a strip. -/
def fromStrip (shape : Nat → Nat → Nat → Nat → List (Figure Nat)) : List Nat → List (Figure Nat)
  | [c0, c1, c2, c3] => shape c0 c1 c2 c3
  | _ => []

/-- Four corners as two triangles. -/
def fromTriangles (shape : Nat → Nat → Nat → Nat → List (Figure Nat)) : List Nat → List (Figure Nat)
  | c0 :: c1 :: c2 :: d1 :: d2 :: c3 :: rest =>
      (if d1 = c1 ∧ d2 = c2 then shape c0 c1 c2 c3 else []) ++ fromTriangles shape rest
  | _ => []

def expanded (b : BackendInfo) (shape : Nat → Nat → Nat → Nat → List (Figure Nat))
    (indices : List Nat) : List (Figure Nat) :=
  if b.bSupportsPrimitiveRestart then (cut [] indices).flatMap (fromStrip shape)
  else fromTriangles shape indices

def decode (b : BackendInfo) : PrimitiveType → List Nat → List (Figure Nat)
  | .Triangles, indices => triangles indices
  | .TriangleStrip, indices => (cut [] indices).flatMap (strip false)
  | .Lines, indices =>
      if b.UseVSForLinePointExpand then expanded b expandedLine indices else lines indices
  | .Points, indices =>
      if b.UseVSForLinePointExpand then expanded b expandedPoint indices else indices.map point

/-- The figures of a batch, with the vertices that its indices stand for. -/
def Batch.figures (b : BackendInfo) (batch : Batch β) : List (Figure (Option β)) :=
  (decode b batch.primitive_type (batch.indices.map IndexWrite.stored)).map
    (Figure.map (batch.vertices[·]?))

/-- The figures of a draw, of which the loader drops some vertices. -/
def DrawCommand.figures (d : DrawCommand α β) : List (Figure β) :=
  d.primitive.figures (d.src.filterMap d.load)

/-! ## Renaming vertices -/

namespace Figure

variable (f : α → β)

theorem map_quads (l : List α) : quads (l.map f) = (quads l).map (map f) := by
  induction l using quads.induct with
  | case1 a b c d rest ih => simp [quads, ih, map]
  | case2 a b c => simp [quads, map]
  | case3 l notQuad notThree =>
      match l, notQuad, notThree with
      | [], _, _ => rfl
      | [_], _, _ => rfl
      | [_, _], _, _ => rfl
      | [a, b, c], _, notThree => exact absurd rfl (notThree a b c)
      | a :: b :: c :: d :: rest, notQuad, _ => exact absurd rfl (notQuad a b c d rest)

theorem map_triangles (l : List α) : triangles (l.map f) = (triangles l).map (map f) := by
  induction l using triangles.induct with
  | case1 a b c rest ih => simp [triangles, ih, map]
  | case2 l short =>
      match l, short with
      | [], _ => rfl
      | [_], _ => rfl
      | [_, _], _ => rfl
      | a :: b :: c :: rest, short => exact absurd rfl (short a b c rest)

theorem map_strip (wind : Bool) (l : List α) :
    strip wind (l.map f) = (strip wind l).map (map f) := by
  induction wind, l using strip.induct with
  | case1 wind a b c rest ih =>
      simp only [List.map_cons] at ih
      simp only [List.map_cons, strip, ih]
      cases wind <;> rfl
  | case2 l wind short =>
      match l, short with
      | [], _ => rfl
      | [_], _ => rfl
      | [_, _], _ => rfl
      | a :: b :: c :: rest, short => exact absurd rfl (short a b c rest)

theorem map_fanAround (center : α) (l : List α) :
    fanAround (f center) (l.map f) = (fanAround center l).map (map f) := by
  induction l using fanAround.induct with
  | case1 b c rest ih => simp_all [fanAround, map]
  | case2 l short =>
      match l, short with
      | [], _ => rfl
      | [_], _ => rfl
      | b :: c :: rest, short => exact absurd rfl (short b c rest)

theorem map_lines (l : List α) : lines (l.map f) = (lines l).map (map f) := by
  induction l using lines.induct with
  | case1 a b rest ih => simp [lines, ih, map]
  | case2 l short =>
      match l, short with
      | [], _ => rfl
      | [_], _ => rfl
      | a :: b :: rest, short => exact absurd rfl (short a b rest)

theorem map_lineStrip (l : List α) : lineStrip (l.map f) = (lineStrip l).map (map f) := by
  induction l using lineStrip.induct with
  | case1 a b rest ih => simp_all [lineStrip, map]
  | case2 l short =>
      match l, short with
      | [], _ => rfl
      | [_], _ => rfl
      | a :: b :: rest, short => exact absurd rfl (short a b rest)

end Figure

theorem Primitive.figures_map (f : α → β) (p : Primitive) (l : List α) :
    p.figures (l.map f) = (p.figures l).map (Figure.map f) := by
  cases p with
  | GX_DRAW_QUADS | GX_DRAW_QUADS_2 => exact map_quads f l
  | GX_DRAW_TRIANGLES => exact map_triangles f l
  | GX_DRAW_TRIANGLE_STRIP => exact map_strip f false l
  | GX_DRAW_TRIANGLE_FAN =>
      cases l with
      | nil => rfl
      | cons center rest => exact map_fanAround f center rest
  | GX_DRAW_LINES => exact map_lines f l
  | GX_DRAW_LINE_STRIP => exact map_lineStrip f l
  | GX_DRAW_POINTS => simp [figures, Figure.map]

/-! ## Draws that are split -/

/-- The vertices of one figure, for the primitives that can be split. -/
def Primitive.groupSize : Primitive → Nat
  | .GX_DRAW_QUADS | .GX_DRAW_QUADS_2 => 4
  | .GX_DRAW_TRIANGLES => 3
  | .GX_DRAW_LINES => 2
  | _ => 1

theorem Figure.quads_append {l : List α} (whole : l.length % 4 = 0) (more : List α) :
    quads (l ++ more) = quads l ++ quads more := by
  induction l using quads.induct with
  | case1 a b c d rest ih =>
      have rest_whole : rest.length % 4 = 0 := by
        simp only [List.length_cons] at whole
        omega
      simp [quads, ih rest_whole]
  | case2 a b c => simp at whole
  | case3 l notQuad notThree =>
      match l, notQuad, notThree with
      | [], _, _ => rfl
      | [_], _, _ => simp at whole
      | [_, _], _, _ => simp at whole
      | [a, b, c], _, notThree => exact absurd rfl (notThree a b c)
      | a :: b :: c :: d :: rest, notQuad, _ => exact absurd rfl (notQuad a b c d rest)

theorem Figure.triangles_append {l : List α} (whole : l.length % 3 = 0) (more : List α) :
    triangles (l ++ more) = triangles l ++ triangles more := by
  induction l using triangles.induct with
  | case1 a b c rest ih =>
      have rest_whole : rest.length % 3 = 0 := by
        simp only [List.length_cons] at whole
        omega
      simp [triangles, ih rest_whole]
  | case2 l short =>
      match l, short with
      | [], _ => rfl
      | [_], _ => simp at whole
      | [_, _], _ => simp at whole
      | a :: b :: c :: rest, short => exact absurd rfl (short a b c rest)

theorem Figure.lines_append {l : List α} (whole : l.length % 2 = 0) (more : List α) :
    lines (l ++ more) = lines l ++ lines more := by
  induction l using lines.induct with
  | case1 a b rest ih =>
      have rest_whole : rest.length % 2 = 0 := by
        simp only [List.length_cons] at whole
        omega
      simp [lines, ih rest_whole]
  | case2 l short =>
      match l, short with
      | [], _ => rfl
      | [_], _ => simp at whole
      | a :: b :: rest, short => exact absurd rfl (short a b rest)

theorem Primitive.figures_append {p : Primitive} (split : VertexLoaderManager.CanSplit p = true)
    {l : List α} (whole : l.length % p.groupSize = 0) (more : List α) :
    p.figures (l ++ more) = p.figures l ++ p.figures more := by
  cases p with
  | GX_DRAW_QUADS | GX_DRAW_QUADS_2 => exact quads_append whole more
  | GX_DRAW_TRIANGLES => exact triangles_append whole more
  | GX_DRAW_LINES => exact lines_append whole more
  | GX_DRAW_POINTS => exact List.map_append
  | GX_DRAW_TRIANGLE_STRIP | GX_DRAW_TRIANGLE_FAN | GX_DRAW_LINE_STRIP => cases split

end Phocoena.VideoCommon
