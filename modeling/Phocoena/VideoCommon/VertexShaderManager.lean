import Phocoena.Lib.Mirror
import Phocoena.VideoCommon.CPMemory

/-! # The changes of the transform unit's memory

`XFStateManager` notes what has to be copied into the vertex shader's constants: a span of words
for each of the four regions of matrices and lights, and flags for the rest. A write is noted
before it is made. The viewport and the projection, which other constants depend on, are left
out.
-/

namespace Phocoena.XF

open CPMemory (bitField CPState)

def XFMEM_POSMATRICES : Nat := 0x000
def XFMEM_POSMATRICES_END : Nat := 0x100
def XFMEM_NORMALMATRICES : Nat := 0x400
def XFMEM_NORMALMATRICES_END : Nat := 0x460
def XFMEM_POSTMATRICES : Nat := 0x500
def XFMEM_POSTMATRICES_END : Nat := 0x600
def XFMEM_LIGHTS : Nat := 0x600
def XFMEM_LIGHTS_END : Nat := 0x680
def XFMEM_REGISTERS_START : Nat := 0x1000
def XFMEM_SETNUMCHAN : Nat := 0x1009
def XFMEM_SETCHAN0_AMBCOLOR : Nat := 0x100a
def XFMEM_SETCHAN0_MATCOLOR : Nat := 0x100c
def XFMEM_SETCHAN0_COLOR : Nat := 0x100e
def XFMEM_SETCHAN0_ALPHA : Nat := 0x1010
def XFMEM_DUALTEX : Nat := 0x1012
def XFMEM_SETMATRIXINDA : Nat := 0x1018
def XFMEM_SETMATRIXINDB : Nat := 0x1019
def XFMEM_SETVIEWPORT : Nat := 0x101a
def XFMEM_SETPROJECTION : Nat := 0x1020
def XFMEM_SETNUMTEXGENS : Nat := 0x103f
def XFMEM_SETTEXMTXINFO : Nat := 0x1040
def XFMEM_SETPOSTMTXINFO : Nat := 0x1050
def XFMEM_REGISTERS_END : Nat := 0x1058

/-! ## Matrix indices -/

def PosNormalMtxIdx (cp : CPState) : Nat := bitField 0 6 cp.matrix_index_a

/-- `Tex0MtxIdx` to `Tex3MtxIdx` of `matrix_index_a`, `Tex4MtxIdx` to `Tex7MtxIdx` of
`matrix_index_b`. -/
def TexMtxIdx (cp : CPState) (i : Nat) : Nat :=
  if i < 4 then bitField (6 * i + 6) 6 cp.matrix_index_a
  else bitField (6 * (i - 4)) 6 cp.matrix_index_b

/-! ## Change tracking -/

/-- Of the pairs `m_minmax_…`, -1 in the first place is `none`. -/
structure XFStateManager where
  m_tex_matrices_changed_a : Bool
  m_tex_matrices_changed_b : Bool
  m_pos_normal_matrix_changed : Bool
  m_tex_mtx_info_changed : Bool
  m_lighting_config_changed : Bool
  m_materials_changed : Fin 4 → Bool
  m_minmax_transform_matrices_changed : Option Span
  m_minmax_normal_matrices_changed : Option Span
  m_minmax_post_transform_matrices_changed : Option Span
  m_minmax_lights_changed : Option Span

/-- The words `first`, …, `first + count - 1` of a matrix in use. -/
structure Window where
  first : Nat
  count : Nat

/-- The test that `InvalidateXFRange` makes for each matrix in use. -/
def Window.starts (start : Nat) (w : Window) : Bool :=
  decide (w.first ≤ start ∧ start < w.first + w.count)

def posNormalWindows (cp : CPState) : List Window :=
  [⟨PosNormalMtxIdx cp * 4, 12⟩, ⟨XFMEM_NORMALMATRICES + PosNormalMtxIdx cp % 32 * 3, 9⟩]

def texWindow (cp : CPState) (i : Nat) : Window := ⟨TexMtxIdx cp i * 4, 12⟩

def texWindowsA (cp : CPState) : List Window :=
  [texWindow cp 0, texWindow cp 1, texWindow cp 2, texWindow cp 3]

def texWindowsB (cp : CPState) : List Window :=
  [texWindow cp 4, texWindow cp 5, texWindow cp 6, texWindow cp 7]

/-- The span of the transform matrices. -/
def invalidateTransform (start endAddress : Nat) (pending : Option Span) : Option Span :=
  let stop := if XFMEM_POSMATRICES_END < endAddress then XFMEM_POSMATRICES_END else endAddress
  if start < XFMEM_POSMATRICES_END then
    match pending with
    | none => some ⟨start, stop⟩
    | some s => some ⟨if start < s.min then start else s.min,
        if s.max < endAddress then stop else s.max⟩
  else pending

/-- The span of another region, from `region` to `regionEnd`. A range that starts before the
region is taken to start at its word `before`. -/
def invalidateRegion (region regionEnd before start endAddress : Nat) (pending : Option Span) :
    Option Span :=
  let _start := if start < region then before else start - region
  let _end := if endAddress < regionEnd then endAddress - region else regionEnd - region
  if start < regionEnd ∧ region < endAddress then
    match pending with
    | none => some ⟨_start, _end⟩
    | some s => some ⟨if _start < s.min then _start else s.min,
        if s.max < _end then _end else s.max⟩
  else pending

def invalidateNormals : Nat → Nat → Option Span → Option Span :=
  invalidateRegion XFMEM_NORMALMATRICES XFMEM_NORMALMATRICES_END 0

/-- A range that starts before the region is taken to start at `XFMEM_POSTMATRICES` itself, and
so for the lights. -/
def invalidatePostMatrices : Nat → Nat → Option Span → Option Span :=
  invalidateRegion XFMEM_POSTMATRICES XFMEM_POSTMATRICES_END XFMEM_POSTMATRICES

def invalidateLights : Nat → Nat → Option Span → Option Span :=
  invalidateRegion XFMEM_LIGHTS XFMEM_LIGHTS_END XFMEM_LIGHTS

namespace XFStateManager

def InvalidateXFRange (cp : CPState) (start endAddress : Nat) (m : XFStateManager) :
    XFStateManager :=
  { m with
    m_pos_normal_matrix_changed :=
      m.m_pos_normal_matrix_changed || (posNormalWindows cp).any (Window.starts start)
    m_tex_matrices_changed_a :=
      m.m_tex_matrices_changed_a || (texWindowsA cp).any (Window.starts start)
    m_tex_matrices_changed_b :=
      m.m_tex_matrices_changed_b || (texWindowsB cp).any (Window.starts start)
    m_minmax_transform_matrices_changed :=
      invalidateTransform start endAddress m.m_minmax_transform_matrices_changed
    m_minmax_normal_matrices_changed :=
      invalidateNormals start endAddress m.m_minmax_normal_matrices_changed
    m_minmax_post_transform_matrices_changed :=
      invalidatePostMatrices start endAddress m.m_minmax_post_transform_matrices_changed
    m_minmax_lights_changed := invalidateLights start endAddress m.m_minmax_lights_changed }

def SetTexMatrixInfoChanged (m : XFStateManager) : XFStateManager :=
  { m with m_tex_mtx_info_changed := true }

def SetLightingConfigChanged (m : XFStateManager) : XFStateManager :=
  { m with m_lighting_config_changed := true }

def SetMaterialColorChanged (index : Fin 4) (m : XFStateManager) : XFStateManager :=
  { m with m_materials_changed := Function.update m.m_materials_changed index true }

end XFStateManager

end Phocoena.XF

/-! ## The transform constants of the vertex shader

`SetConstants` copies what has changed into the constants. It fails in the model where one of its
copies would leave an array of the constants or of the transform unit's memory.
-/

namespace Phocoena.XF

open CPMemory (bitField CPState)

/-- A light of the constants. -/
structure ShaderLight where
  color : Nat × Nat × Nat × Nat
  cosatt : Nat × Nat × Nat
  distatt : Nat × Nat × Nat
  pos : Nat × Nat × Nat
  dir : Nat × Nat × Nat
deriving DecidableEq

/-- Arrays of `float4` are the words in them. Of the normal matrices, and of the last three rows
of `posnormalmatrix`, which are the words 12 to 20 here, the fourth word of a row is not used. -/
structure VertexShaderConstants where
  xfmem_dualTexInfo : Nat
  xfmem_numColorChans : Nat
  posnormalmatrix : Fin 21 → Nat
  materials : Fin 4 → Nat × Nat × Nat × Nat
  lights : Fin 8 → ShaderLight
  texmatrices : Fin 96 → Nat
  transformmatrices : Fin 256 → Nat
  normalmatrices : Fin 96 → Nat
  posttransformmatrices : Fin 256 → Nat
  texMtxInfo : Fin 8 → Nat
  postMtxInfo : Fin 8 → Nat
  color : Fin 2 → Nat
  alpha : Fin 2 → Nat

structure State where
  /-- The words of `xfmem`. -/
  xfmem : Nat → Nat
  cp : CPState
  manager : XFStateManager
  constants : VertexShaderConstants
  dirty : Bool
  /-- Whether the next calls of `Flush` find vertices that are drawn. -/
  draws : Nat → Bool
  /-- Not in the source: the constants after each `SetConstants`, and those computed from
  nothing but the memory and the matrix indices of that time. -/
  uploads : List (VertexShaderConstants × VertexShaderConstants)

/-! ## Conversions -/

/-- `fabs(f) < 0.00001f`, of the bits of `f`. -/
def nearZero (f : Nat) : Bool := decide (f % 2 ^ 31 < 0x3727c5ac)

/-- The bytes of a colour register, from the highest. -/
def colorBytes (data : Nat) : Nat × Nat × Nat × Nat :=
  (data / 2 ^ 24 % 256, data / 2 ^ 16 % 256, data / 2 ^ 8 % 256, data % 256)

section
variable (normalized : Nat × Nat × Nat → Nat × Nat × Nat)

def triple (xfmem : Nat → Nat) (a : Nat) : Nat × Nat × Nat :=
  (xfmem a, xfmem (a + 1), xfmem (a + 2))

/-- The light of the 16 words from `a`: three that are not used, the colour, which is packed as
abgr, `cosatt`, `distatt`, `dpos` and `ddir`. The floating-point arithmetic that makes `ddir` a
unit vector is `normalized`. -/
def convertLight (xfmem : Nat → Nat) (a : Nat) : ShaderLight where
  color := colorBytes (xfmem (a + 3))
  cosatt := triple xfmem (a + 4)
  distatt :=
    -- dist attenuation, make sure not equal to 0!!!
    if nearZero (xfmem (a + 7)) ∧ nearZero (xfmem (a + 8)) ∧ nearZero (xfmem (a + 9)) then
      (0x3727c5ac, xfmem (a + 8), xfmem (a + 9))
    else triple xfmem (a + 7)
  pos := triple xfmem (a + 10)
  dir := normalized (triple xfmem (a + 13))

/-! ## Copies -/

/-- `memcpy` of the rows `startn`, …, `endn - 1` of `width` words to the same rows. -/
def copyRows (width : Nat) {size : Nat} (startn endn : Nat) (src : Nat → Nat)
    (dst : Fin size → Nat) : Option (Fin size → Nat) :=
  if startn ≤ endn ∧ endn * width ≤ size then
    some fun e => if startn ≤ e / width ∧ e / width < endn then src e else dst e
  else none

/-- `for (i = startn; i < endn; i++) dst[i] = src(i)`. -/
def copyEach {ν : Type} {size : Nat} (startn endn : Nat) (src : Nat → ν) (dst : Fin size → ν) :
    Option (Fin size → ν) :=
  if endn ≤ startn ∨ endn ≤ size then
    some fun e => if startn ≤ e ∧ e < endn then src e else dst e
  else none

/-- The loop of `memcpy`s of 12 bytes. -/
def copyRowsEach (width : Nat) {size : Nat} (startn endn : Nat) (src : Nat → Nat)
    (dst : Fin size → Nat) : Option (Fin size → Nat) :=
  if endn ≤ startn ∨ endn * width ≤ size then
    some fun e => if startn ≤ e / width ∧ e / width < endn then src e else dst e
  else none

/-- A copy that is made when a span is pending. -/
def whenPending {α : Type} (pending : Option Span) (copy : Span → α → Option α) (a : α) :
    Option α :=
  match pending with
  | none => some a
  | some s => copy s a

def copyTransform (xfmem : Nat → Nat) (s : Span) (dst : Fin 256 → Nat) : Option (Fin 256 → Nat) :=
  copyRows 4 (s.first 4) (s.last 4) (fun e => xfmem (XFMEM_POSMATRICES + e)) dst

def copyNormals (xfmem : Nat → Nat) (s : Span) (dst : Fin 96 → Nat) : Option (Fin 96 → Nat) :=
  copyRowsEach 3 (s.first 3) (s.last 3) (fun e => xfmem (XFMEM_NORMALMATRICES + e)) dst

def copyPostMatrices (xfmem : Nat → Nat) (s : Span) (dst : Fin 256 → Nat) :
    Option (Fin 256 → Nat) :=
  copyRows 4 (s.first 4) (s.last 4) (fun e => xfmem (XFMEM_POSTMATRICES + e)) dst

def copyLights (xfmem : Nat → Nat) (s : Span) (dst : Fin 8 → ShaderLight) :
    Option (Fin 8 → ShaderLight) :=
  copyEach (s.first 0x10) (s.last 0x10)
    (fun i => convertLight normalized xfmem (XFMEM_LIGHTS + 0x10 * i)) dst

/-- The ambient colours, then the material colours. -/
def materialData (xfmem : Nat → Nat) (i : Fin 4) : Nat :=
  if 2 ≤ (i : Nat) then xfmem (XFMEM_SETCHAN0_MATCOLOR + (i - 2))
  else xfmem (XFMEM_SETCHAN0_AMBCOLOR + i)

/-- Three rows of a matrix of positions and three of a matrix of normals. -/
def posNormal (xfmem : Nat → Nat) (cp : CPState) (e : Fin 21) : Nat :=
  if (e : Nat) < 12 then xfmem (XFMEM_POSMATRICES + (PosNormalMtxIdx cp * 4 + e))
  else xfmem (XFMEM_NORMALMATRICES + (3 * (PosNormalMtxIdx cp % 32) + (e - 12)))

/-- Twelve words for each texture. -/
def texMatrices (xfmem : Nat → Nat) (cp : CPState) (e : Fin 96) : Nat :=
  xfmem (XFMEM_POSMATRICES + (TexMtxIdx cp (e / 12) * 4 + e % 12))

/-- The constants from nothing but the memory and the matrix indices. -/
def recomputed (s : State) : VertexShaderConstants where
  xfmem_dualTexInfo := bitField 0 1 (s.xfmem XFMEM_DUALTEX)
  xfmem_numColorChans := bitField 0 2 (s.xfmem XFMEM_SETNUMCHAN)
  posnormalmatrix := posNormal s.xfmem s.cp
  materials i := colorBytes (materialData s.xfmem i)
  lights i := convertLight normalized s.xfmem (XFMEM_LIGHTS + 0x10 * i)
  texmatrices := texMatrices s.xfmem s.cp
  transformmatrices e := s.xfmem (XFMEM_POSMATRICES + e)
  normalmatrices e := s.xfmem (XFMEM_NORMALMATRICES + e)
  posttransformmatrices e := s.xfmem (XFMEM_POSTMATRICES + e)
  texMtxInfo i := s.xfmem (XFMEM_SETTEXMTXINFO + i)
  postMtxInfo i := s.xfmem (XFMEM_SETPOSTMTXINFO + i)
  color i := s.xfmem (XFMEM_SETCHAN0_COLOR + i)
  alpha i := s.xfmem (XFMEM_SETCHAN0_ALPHA + i)

/-! ## `SetConstants` -/

/-- The parts that are copied under a flag. -/
def copyFlagged (s : State) (c : VertexShaderConstants) : VertexShaderConstants :=
  { c with
    materials := fun i =>
      if s.manager.m_materials_changed i then colorBytes (materialData s.xfmem i) else c.materials i
    posnormalmatrix :=
      if s.manager.m_pos_normal_matrix_changed then posNormal s.xfmem s.cp else c.posnormalmatrix
    texmatrices := fun e =>
      if (e : Nat) < 48 then
        if s.manager.m_tex_matrices_changed_a then texMatrices s.xfmem s.cp e else c.texmatrices e
      else if s.manager.m_tex_matrices_changed_b then texMatrices s.xfmem s.cp e
      else c.texmatrices e
    xfmem_dualTexInfo :=
      if s.manager.m_tex_mtx_info_changed then bitField 0 1 (s.xfmem XFMEM_DUALTEX)
      else c.xfmem_dualTexInfo
    texMtxInfo := fun i =>
      if s.manager.m_tex_mtx_info_changed then s.xfmem (XFMEM_SETTEXMTXINFO + i)
      else c.texMtxInfo i
    postMtxInfo := fun i =>
      if s.manager.m_tex_mtx_info_changed then s.xfmem (XFMEM_SETPOSTMTXINFO + i)
      else c.postMtxInfo i
    color := fun i =>
      if s.manager.m_lighting_config_changed then s.xfmem (XFMEM_SETCHAN0_COLOR + i) else c.color i
    alpha := fun i =>
      if s.manager.m_lighting_config_changed then s.xfmem (XFMEM_SETCHAN0_ALPHA + i) else c.alpha i
    xfmem_numColorChans :=
      if s.manager.m_lighting_config_changed then bitField 0 2 (s.xfmem XFMEM_SETNUMCHAN)
      else c.xfmem_numColorChans }

/-- What the `Reset…` calls leave. -/
def resetChanges : XFStateManager where
  m_tex_matrices_changed_a := false
  m_tex_matrices_changed_b := false
  m_pos_normal_matrix_changed := false
  m_tex_mtx_info_changed := false
  m_lighting_config_changed := false
  m_materials_changed := fun _ => false
  m_minmax_transform_matrices_changed := none
  m_minmax_normal_matrices_changed := none
  m_minmax_post_transform_matrices_changed := none
  m_minmax_lights_changed := none

/-- Something is pending. -/
def XFStateManager.anyChanged (m : XFStateManager) : Bool :=
  m.m_minmax_transform_matrices_changed.isSome || m.m_minmax_normal_matrices_changed.isSome ||
    m.m_minmax_post_transform_matrices_changed.isSome || m.m_minmax_lights_changed.isSome ||
    (List.finRange 4).any m.m_materials_changed || m.m_pos_normal_matrix_changed ||
    m.m_tex_matrices_changed_a || m.m_tex_matrices_changed_b || m.m_tex_mtx_info_changed ||
    m.m_lighting_config_changed

def SetConstants (s : State) : Option State := do
  let m := s.manager
  let transform ← whenPending m.m_minmax_transform_matrices_changed (copyTransform s.xfmem)
    s.constants.transformmatrices
  let normals ← whenPending m.m_minmax_normal_matrices_changed (copyNormals s.xfmem)
    s.constants.normalmatrices
  let post ← whenPending m.m_minmax_post_transform_matrices_changed (copyPostMatrices s.xfmem)
    s.constants.posttransformmatrices
  let lights ← whenPending m.m_minmax_lights_changed (copyLights normalized s.xfmem)
    s.constants.lights
  let constants := copyFlagged s { s.constants with
    transformmatrices := transform
    normalmatrices := normals
    posttransformmatrices := post
    lights := lights }
  some { s with
    manager := resetChanges
    constants
    dirty := s.dirty || m.anyChanged
    uploads := (constants, recomputed normalized s) :: s.uploads }

/-- Vertices that wait are drawn, with constants that are set before. -/
def Flush (s : State) : Option State :=
  let s' := { s with draws := fun n => s.draws (n + 1) }
  if s.draws 0 then SetConstants normalized s' else some s'

end

end Phocoena.XF
