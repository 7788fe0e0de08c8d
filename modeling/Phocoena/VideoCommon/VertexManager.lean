import Phocoena.Lib.Runs
import Mathlib.Data.Nat.Notation

/-! # Index generator

How the primitives of a draw become indices of a buffer of vertices, with and without primitive
restart, and where lines and points are expanded by the vertex shader. A function that writes to
`index_ptr` gives what it writes. Values are 32-bit words that do not wrap around here, and are cut
to 16 bits when they are stored.
-/

namespace Phocoena.VideoCommon

/-- `OpcodeDecoder::Primitive` -/
inductive Primitive
  | GX_DRAW_QUADS
  | GX_DRAW_QUADS_2
  | GX_DRAW_TRIANGLES
  | GX_DRAW_TRIANGLE_STRIP
  | GX_DRAW_TRIANGLE_FAN
  | GX_DRAW_LINES
  | GX_DRAW_LINE_STRIP
  | GX_DRAW_POINTS
deriving DecidableEq, Repr

/-- `primitive >= Primitive::GX_DRAW_LINES` -/
def Primitive.isLineOrPoint : Primitive → Bool
  | GX_DRAW_LINES | GX_DRAW_LINE_STRIP | GX_DRAW_POINTS => true
  | _ => false

/-- What of `g_backend_info` and `g_Config` is looked at. -/
structure BackendInfo where
  bSupportsPrimitiveRestart : Bool
  UseVSForLinePointExpand : Bool
deriving DecidableEq, Repr

/-- A value that is written to the index buffer. -/
inductive IndexWrite
  | index (value : Nat)
  | s_primitive_restart
deriving DecidableEq, Repr

/-- The word that is stored. -/
def IndexWrite.stored : IndexWrite → Nat
  | index value => value % 0x10000
  | s_primitive_restart => 0xFFFF

namespace IndexGenerator

open IndexWrite

/-- `for (; cond(i); i += step)`: what is written, and the last `i`. -/
def forLoop (cond : Nat → Bool) (step : Nat) (body : Nat → List IndexWrite) :
    Nat → Nat → List IndexWrite × Nat
  | 0, i => ([], i)
  | fuel + 1, i =>
      if cond i then
        let rest := forLoop cond step body fuel (i + step)
        (body i ++ rest.1, rest.2)
      else ([], i)

/-- The mark after a primitive, with primitive restart. -/
def restart (pr : Bool) : List IndexWrite := if pr then [s_primitive_restart] else []

def WriteTriangle (pr : Bool) (index1 index2 index3 : Nat) : List IndexWrite :=
  [IndexWrite.index index1, .index index2, .index index3] ++ restart pr

def AddList (pr : Bool) (num_verts index : Nat) : List IndexWrite :=
  (forLoop (· < num_verts) 3
    (fun i => WriteTriangle pr (index + i - 2) (index + i - 1) (index + i)) num_verts 2).1

/-- `wind` changes with every round. -/
def AddStrip (pr : Bool) (num_verts index : Nat) : List IndexWrite :=
  if pr then
    (forLoop (· < num_verts) 1 (fun i => [.index (index + i)]) num_verts 0).1 ++
      [s_primitive_restart]
  else
    (forLoop (· < num_verts) 1 (fun i =>
      let wind := (i - 2) % 2
      WriteTriangle pr (index + i - 2) (index + i - (1 - wind)) (index + i - wind)) num_verts 2).1

def AddFan (pr : Bool) (num_verts index : Nat) : List IndexWrite :=
  let threes := if pr then
      forLoop (· + 3 ≤ num_verts) 3 (fun i =>
        [.index (index + i - 1), .index (index + i), .index index, .index (index + i + 1),
          .index (index + i + 2), s_primitive_restart]) num_verts 2
    else ([], 2)
  let twos := if pr then
      forLoop (· + 2 ≤ num_verts) 2 (fun i =>
        [.index (index + i - 1), .index (index + i), .index index, .index (index + i + 1),
          s_primitive_restart]) num_verts threes.2
    else ([], 2)
  threes.1 ++ (twos.1 ++ (forLoop (· < num_verts) 1
    (fun i => WriteTriangle pr index (index + i - 1) (index + i)) num_verts twos.2).1)

def AddQuads (pr : Bool) (num_verts index : Nat) : List IndexWrite :=
  let quads := forLoop (· < num_verts) 4 (fun i =>
    if pr then
      [.index (index + i - 2), .index (index + i - 1), .index (index + i - 3), .index (index + i),
        s_primitive_restart]
    else
      WriteTriangle pr (index + i - 3) (index + i - 2) (index + i - 1) ++
        WriteTriangle pr (index + i - 3) (index + i - 1) (index + i)) num_verts 3
  -- three vertices are left
  if quads.2 = num_verts then
    quads.1 ++ WriteTriangle pr (index + num_verts - 3) (index + num_verts - 2)
      (index + num_verts - 1)
  else quads.1

def AddQuads_nonstandard (pr : Bool) (num_verts index : Nat) : List IndexWrite :=
  AddQuads pr num_verts index

def AddLineList (num_verts index : Nat) : List IndexWrite :=
  (forLoop (· < num_verts) 2 (fun i => [.index (index + i - 1), .index (index + i)]) num_verts 1).1

def AddLineStrip (num_verts index : Nat) : List IndexWrite :=
  (forLoop (· < num_verts) 1 (fun i => [.index (index + i - 1), .index (index + i)]) num_verts 1).1

/-- The corners of a line, the first two at one end of it, or of a point. -/
def corners (pr : Bool) (c0 c1 c2 c3 : Nat) : List IndexWrite :=
  if pr then [.index c0, .index c1, .index c2, .index c3, s_primitive_restart]
  else [.index c0, .index c1, .index c2, .index c1, .index c2, .index c3]

def AddLines_VSExpand (pr linestrip : Bool) (num_verts index : Nat) : List IndexWrite :=
  (forLoop (· < num_verts) (if linestrip then 1 else 2) (fun i =>
    let p0 := (index + i - 1) * 4
    let p1 := (index + i) * 4
    corners pr p0 (p0 + 1) (p1 + 2) (p1 + 3)) num_verts 1).1

def AddPoints (num_verts index : Nat) : List IndexWrite :=
  (forLoop (· ≠ num_verts) 1 (fun i => [.index (index + i)]) num_verts 0).1

def AddPoints_VSExpand (pr : Bool) (num_verts index : Nat) : List IndexWrite :=
  (forLoop (· < num_verts) 1 (fun i =>
    let base := (index + i) * 4
    corners pr base (base + 1) (base + 2) (base + 3)) num_verts 0).1

/-- `m_primitive_table`, as `Init` fills it -/
def primitive_table (b : BackendInfo) : Primitive → Nat → Nat → List IndexWrite
  | .GX_DRAW_QUADS => AddQuads b.bSupportsPrimitiveRestart
  | .GX_DRAW_QUADS_2 => AddQuads_nonstandard b.bSupportsPrimitiveRestart
  | .GX_DRAW_TRIANGLES => AddList b.bSupportsPrimitiveRestart
  | .GX_DRAW_TRIANGLE_STRIP => AddStrip b.bSupportsPrimitiveRestart
  | .GX_DRAW_TRIANGLE_FAN => AddFan b.bSupportsPrimitiveRestart
  | .GX_DRAW_LINES =>
      if b.UseVSForLinePointExpand then AddLines_VSExpand b.bSupportsPrimitiveRestart false
      else AddLineList
  | .GX_DRAW_LINE_STRIP =>
      if b.UseVSForLinePointExpand then AddLines_VSExpand b.bSupportsPrimitiveRestart true
      else AddLineStrip
  | .GX_DRAW_POINTS =>
      if b.UseVSForLinePointExpand then AddPoints_VSExpand b.bSupportsPrimitiveRestart
      else AddPoints

/-- The largest number of indices that `primitive` can have in one buffer. -/
def maxIndex (b : BackendInfo) (primitive : Primitive) : Nat :=
  if b.UseVSForLinePointExpand && primitive.isLineOrPoint then 0xFFFF / 4 else 0xFFFF

end IndexGenerator

structure IndexGenerator where
  /-- from `m_base_index_ptr` to `m_index_buffer_current` -/
  written : List IndexWrite
  m_base_index : Nat
deriving DecidableEq, Repr

namespace IndexGenerator

def Start : IndexGenerator := ⟨[], 0⟩

def AddIndices (b : BackendInfo) (primitive : Primitive) (num_vertices : Nat) (g : IndexGenerator) :
    IndexGenerator :=
  ⟨g.written ++ primitive_table b primitive num_vertices g.m_base_index,
    g.m_base_index + num_vertices⟩

def GetIndexLen (g : IndexGenerator) : Nat := g.written.length

/-- Nothing after the alert. -/
def GetRemainingIndices (b : BackendInfo) (primitive : Primitive) (g : IndexGenerator) : Nat :=
  if maxIndex b primitive < g.m_base_index then 0 else maxIndex b primitive - g.m_base_index

end IndexGenerator

/-! ## Vertex manager

Draws are collected in a buffer of vertices and a buffer of indices until they are flushed. The
vertex loader of a draw may drop any of its vertices. Nothing is culled, and what is flushed is
kept, to speak of everything that was drawn.
-/

inductive PrimitiveType
  | Points
  | Lines
  | Triangles
  | TriangleStrip
deriving DecidableEq, Repr

/-- `NextPowerOf2(MAX_PRIMITIVES_PER_COMMAND * LARGEST_POSSIBLE_VERTEX)` -/
def MAXVBUFFERSIZE : Nat := 16777216

/-- `NextPowerOf2(MAX_PRIMITIVES_PER_COMMAND * 3)` -/
def MAXIBUFFERSIZE : Nat := 262144

def LARGEST_POSSIBLE_VERTEX : Nat := 4 * 45 + 4 * 2

/-- `primitive_from_gx_pr` or `primitive_from_gx` -/
def primitiveType (b : BackendInfo) : Primitive → PrimitiveType
  | .GX_DRAW_LINES | .GX_DRAW_LINE_STRIP => .Lines
  | .GX_DRAW_POINTS => .Points
  | _ => if b.bSupportsPrimitiveRestart then .TriangleStrip else .Triangles

/-- A native vertex format, with the size of its vertices. -/
structure VertexFormat where
  id : Nat
  stride : Nat
  stride_le : stride ≤ LARGEST_POSSIBLE_VERTEX
deriving DecidableEq

/-- The parameters of `RunVertices`; `load` is the loader's work on one vertex. -/
structure DrawCommand (α β : Type) where
  primitive : Primitive
  format : VertexFormat
  src : List α
  load : α → Option β
  count_pos : 0 < src.length
  count_le : src.length ≤ 65535

/-- What `DrawCurrentBatch` gets. -/
structure Batch (β : Type) where
  primitive_type : PrimitiveType
  vertices : List β
  indices : List IndexWrite

structure VertexManager (β : Type) where
  m_index_generator : IndexGenerator
  m_current_primitive_type : PrimitiveType
  m_is_flushed : Bool
  /-- from `m_base_buffer_pointer` to `m_cur_buffer_pointer` -/
  vertices : List β
  bytes : Nat
  /-- `s_current_vtx_fmt` -/
  format : Option VertexFormat
  drawn : List (Batch β)

namespace VertexManager

variable {α β : Type} (b : BackendInfo)

def init : VertexManager β where
  m_index_generator := .Start
  m_current_primitive_type := .Points
  m_is_flushed := true
  vertices := []
  bytes := 0
  format := none
  drawn := []

def batch (m : VertexManager β) : Batch β :=
  ⟨m.m_current_primitive_type, m.vertices, m.m_index_generator.written⟩

def Flush (m : VertexManager β) : VertexManager β :=
  if m.m_is_flushed then m else { m with m_is_flushed := true, drawn := m.drawn ++ [m.batch] }

def ResetBuffer (m : VertexManager β) : VertexManager β :=
  { m with m_index_generator := .Start, vertices := [], bytes := 0 }

def GetRemainingSize (m : VertexManager β) : Nat := MAXVBUFFERSIZE - m.bytes

/-- How many vertices have indices in `index_len` places. -/
def verticesFor (primitive : Primitive) (index_len : Nat) : Nat :=
  if primitive.isLineOrPoint then
    if b.UseVSForLinePointExpand then
      let each := if b.bSupportsPrimitiveRestart then 5 else 6
      match primitive with
      | .GX_DRAW_LINES => index_len / each * 2
      | .GX_DRAW_LINE_STRIP => index_len / each + 1
      | .GX_DRAW_POINTS => index_len / each
      | _ => 0
    else
      match primitive with
      | .GX_DRAW_LINES => index_len
      | .GX_DRAW_LINE_STRIP => index_len / 2 + 1
      | .GX_DRAW_POINTS => index_len
      | _ => 0
  else if b.bSupportsPrimitiveRestart then
    match primitive with
    | .GX_DRAW_QUADS | .GX_DRAW_QUADS_2 => index_len / 5 * 4
    | .GX_DRAW_TRIANGLES => index_len / 4 * 3
    | .GX_DRAW_TRIANGLE_STRIP => (index_len + 0xFFFFFFFF) % 0x100000000
    | .GX_DRAW_TRIANGLE_FAN => index_len / 6 * 4 + 1
    | _ => 0
  else
    match primitive with
    | .GX_DRAW_QUADS | .GX_DRAW_QUADS_2 => index_len / 6 * 4
    | .GX_DRAW_TRIANGLES => index_len
    | .GX_DRAW_TRIANGLE_STRIP => index_len / 3 + 2
    | .GX_DRAW_TRIANGLE_FAN => index_len / 3 + 2
    | _ => 0

def GetRemainingIndices (primitive : Primitive) (m : VertexManager β) : Nat :=
  verticesFor b primitive
    ((MAXIBUFFERSIZE + 0x100000000 - m.m_index_generator.GetIndexLen) % 0x100000000)

/-- The buffers do not take the draw. -/
def full (primitive : Primitive) (count stride : Nat) (m : VertexManager β) : Bool :=
  m.m_index_generator.GetRemainingIndices b primitive < count ||
    m.GetRemainingIndices b primitive < count || m.GetRemainingSize < count * stride + 4

/-- `none` when an assertion does not hold. -/
def PrepareForAdditionalData (primitive : Primitive) (count stride : Nat) (m : VertexManager β) :
    Option (VertexManager β) :=
  let new_primitive_type := primitiveType b primitive
  let m := if m.m_current_primitive_type ≠ new_primitive_type then
      { m.Flush with m_current_primitive_type := new_primitive_type }
    else m
  let m := if !m.m_is_flushed && m.full b primitive count stride then m.Flush else m
  let m := if m.m_is_flushed then { m.ResetBuffer with m_is_flushed := false } else m
  if m.full b primitive count stride then none else some m

/-- `AddIndices` and `FlushData` for what the loader has stored -/
def add (primitive : Primitive) (loaded : List β) (stride : Nat) (m : VertexManager β) :
    VertexManager β :=
  { m with
    m_index_generator := m.m_index_generator.AddIndices b primitive loaded.length
    vertices := m.vertices ++ loaded
    bytes := m.bytes + loaded.length * stride }

end VertexManager

namespace VertexLoaderManager

open VertexManager

variable {α β : Type} (b : BackendInfo)

def CanSplit : Primitive → Bool
  | .GX_DRAW_QUADS | .GX_DRAW_QUADS_2 | .GX_DRAW_TRIANGLES | .GX_DRAW_LINES | .GX_DRAW_POINTS =>
      true
  | _ => false

def max_vertices : Nat := 16380

/-- The number of vertices of the next run. -/
def runLength (primitive : Primitive) (count : Nat) : Nat :=
  if CanSplit primitive && max_vertices < count then max_vertices else count

/-- The loop of `RunVertices` over what is left of the vertices. -/
def runLoop (primitive : Primitive) (stride : Nat) (load : α → Option β) :
    Nat → List α → VertexManager β → Option (VertexManager β)
  | 0, _, _ => none
  | fuel + 1, src, m =>
      let run := runLength primitive src.length
      (m.PrepareForAdditionalData b primitive run stride).bind fun m =>
        let m := m.add b primitive ((src.take run).filterMap load) stride
        if src.length - run = 0 then some m
        else runLoop primitive stride load fuel (src.drop max_vertices) m

def RunVertices (d : DrawCommand α β) (m : VertexManager β) : Option (VertexManager β) :=
  let m := if m.format ≠ some d.format then { m.Flush with format := some d.format } else m
  runLoop b d.primitive d.format.stride d.load d.src.length d.src m

/-- A draw, or a flush for another reason. -/
inductive Action (α β : Type)
  | flush
  | draw (d : DrawCommand α β)

def step : Action α β → VertexManager β → Option (VertexManager β)
  | .flush, m => some m.Flush
  | .draw d, m => RunVertices b d m

end VertexLoaderManager

end Phocoena.VideoCommon
