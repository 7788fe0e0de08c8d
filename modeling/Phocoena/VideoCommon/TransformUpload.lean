import Phocoena.Lib.Runs
import Phocoena.VideoCommon.XFStructs

/-! # Incremental upload of the transform constants

The constants are a mirror of the transform unit's memory, and what `XFStateManager` notes are its
marks. In runs whose loads begin where the code looks, `SetConstants` leaves what computing all
the constants would.
-/

namespace Phocoena.XF

open CPMemory (bitField CPState)

/-! ## The constants as a mirror -/

/-- A word of the constants, or a light or a colour. -/
inductive Entry where
  | transform (e : Fin 256)
  | normal (e : Fin 96)
  | post (e : Fin 256)
  | light (i : Fin 8)
  | material (i : Fin 4)
  | posNormal (e : Fin 21)
  | tex (e : Fin 96)
  | dualTex
  | numColorChans
  | texMtxInfo (i : Fin 8)
  | postMtxInfo (i : Fin 8)
  | color (i : Fin 2)
  | alpha (i : Fin 2)

def Entry.Value : Entry → Type
  | .light _ => ShaderLight
  | .material _ => Nat × Nat × Nat × Nat
  | _ => Nat

def VertexShaderConstants.entry (c : VertexShaderConstants) : ∀ e : Entry, e.Value
  | .transform e => c.transformmatrices e
  | .normal e => c.normalmatrices e
  | .post e => c.posttransformmatrices e
  | .light i => c.lights i
  | .material i => c.materials i
  | .posNormal e => c.posnormalmatrix e
  | .tex e => c.texmatrices e
  | .dualTex => c.xfmem_dualTexInfo
  | .numColorChans => c.xfmem_numColorChans
  | .texMtxInfo i => c.texMtxInfo i
  | .postMtxInfo i => c.postMtxInfo i
  | .color i => c.color i
  | .alpha i => c.alpha i

theorem VertexShaderConstants.eq_of_entry {c c' : VertexShaderConstants}
    (h : c.entry = c'.entry) : c = c' := by
  have each (e : Entry) : c.entry e = c'.entry e := congrFun h e
  cases c
  cases c'
  simp only [VertexShaderConstants.mk.injEq]
  exact ⟨each .dualTex, each .numColorChans, funext fun e => each (.posNormal e),
    funext fun i => each (.material i), funext fun i => each (.light i),
    funext fun e => each (.tex e), funext fun e => each (.transform e),
    funext fun e => each (.normal e), funext fun e => each (.post e),
    funext fun i => each (.texMtxInfo i), funext fun i => each (.postMtxInfo i),
    funext fun i => each (.color i), funext fun i => each (.alpha i)⟩

/-- The entry is copied by the next `SetConstants`. -/
def XFStateManager.Marked (m : XFStateManager) : Entry → Prop
  | .transform e => Span.Marks 4 m.m_minmax_transform_matrices_changed (e / 4)
  | .normal e => Span.Marks 3 m.m_minmax_normal_matrices_changed (e / 3)
  | .post e => Span.Marks 4 m.m_minmax_post_transform_matrices_changed (e / 4)
  | .light i => Span.Marks 0x10 m.m_minmax_lights_changed i
  | .material i => m.m_materials_changed i = true
  | .posNormal _ => m.m_pos_normal_matrix_changed = true
  | .tex e =>
      if (e : Nat) < 48 then m.m_tex_matrices_changed_a = true
      else m.m_tex_matrices_changed_b = true
  | .dualTex | .texMtxInfo _ | .postMtxInfo _ => m.m_tex_mtx_info_changed = true
  | .numColorChans | .color _ | .alpha _ => m.m_lighting_config_changed = true

/-- The spans lie in their regions. -/
structure XFStateManager.Fits (m : XFStateManager) : Prop where
  transform : Span.Fits 256 m.m_minmax_transform_matrices_changed
  normals : Span.Fits 96 m.m_minmax_normal_matrices_changed
  post : Span.Fits 256 m.m_minmax_post_transform_matrices_changed
  lights : Span.Fits 128 m.m_minmax_lights_changed

theorem fits_resetChanges : resetChanges.Fits :=
  ⟨Span.fits_none, Span.fits_none, Span.fits_none, Span.fits_none⟩

/-! ## What an entry is computed from -/

def Window.Holds (a : Nat) (w : Window) : Prop := w.first ≤ a ∧ a < w.first + w.count

/-- The matrices that an entry shows a copy of. -/
def texWindows (cp : CPState) (e : Fin 96) : List Window :=
  if (e : Nat) < 48 then texWindowsA cp else texWindowsB cp

/-- The words that the entry depends on. -/
def Reads (cp : CPState) : Entry → Nat → Prop
  | .transform e, a => a = XFMEM_POSMATRICES + e
  | .normal e, a => a = XFMEM_NORMALMATRICES + e
  | .post e, a => a = XFMEM_POSTMATRICES + e
  | .light i, a => XFMEM_LIGHTS + 0x10 * i ≤ a ∧ a < XFMEM_LIGHTS + 0x10 * i + 0x10
  | .material i, a => a = XFMEM_SETCHAN0_AMBCOLOR + i
  | .posNormal _, a => ∃ w ∈ posNormalWindows cp, w.Holds a
  | .tex e, a => ∃ w ∈ texWindows cp e, w.Holds a
  | .dualTex, a => a = XFMEM_DUALTEX
  | .numColorChans, a => a = XFMEM_SETNUMCHAN
  | .texMtxInfo i, a => a = XFMEM_SETTEXMTXINFO + i
  | .postMtxInfo i, a => a = XFMEM_SETPOSTMTXINFO + i
  | .color i, a => a = XFMEM_SETCHAN0_COLOR + i
  | .alpha i, a => a = XFMEM_SETCHAN0_ALPHA + i

theorem texWindow_mem (cp : CPState) (e : Fin 96) : texWindow cp (e / 12) ∈ texWindows cp e := by
  by_cases small : (e : Nat) < 48
  · have matrix : (e : Nat) / 12 = 0 ∨ (e : Nat) / 12 = 1 ∨ (e : Nat) / 12 = 2 ∨
        (e : Nat) / 12 = 3 := by omega
    rw [texWindows, if_pos small]
    rcases matrix with h | h | h | h <;> simp [h, texWindowsA]
  · have matrix : (e : Nat) / 12 = 4 ∨ (e : Nat) / 12 = 5 ∨ (e : Nat) / 12 = 6 ∨
        (e : Nat) / 12 = 7 := by omega
    rw [texWindows, if_neg small]
    rcases matrix with h | h | h | h <;> simp [h, texWindowsB]

section
variable (normalized : Nat × Nat × Nat → Nat × Nat × Nat)

theorem convertLight_congr {xfmem xfmem' : Nat → Nat} {a : Nat}
    (same : ∀ b, a ≤ b → b < a + 0x10 → xfmem b = xfmem' b) :
    convertLight normalized xfmem a = convertLight normalized xfmem' a := by
  have word (k : Nat) (h : k < 0x10) : xfmem (a + k) = xfmem' (a + k) :=
    same (a + k) (by omega) (by omega)
  simp [convertLight, triple, word, Nat.add_assoc]

theorem posNormal_congr {xfmem xfmem' : Nat → Nat} {cp : CPState} (e : Fin 21)
    (same : ∀ a, Reads cp (.posNormal e) a → xfmem a = xfmem' a) :
    posNormal xfmem cp e = posNormal xfmem' cp e := by
  unfold posNormal
  by_cases small : (e : Nat) < 12
  · rw [if_pos small, if_pos small]
    exact same _ ⟨_, List.mem_cons_self .., by simp [Window.Holds, XFMEM_POSMATRICES]; omega⟩
  · rw [if_neg small, if_neg small]
    refine same _ ⟨_, List.mem_cons_of_mem _ (List.mem_cons_self ..), ?_⟩
    simp only [Window.Holds]
    omega

theorem texMatrices_congr {xfmem xfmem' : Nat → Nat} {cp : CPState} (e : Fin 96)
    (same : ∀ a, Reads cp (.tex e) a → xfmem a = xfmem' a) :
    texMatrices xfmem cp e = texMatrices xfmem' cp e := by
  refine same _ ⟨_, texWindow_mem cp e, ?_⟩
  simp only [Window.Holds, texWindow, XFMEM_POSMATRICES]
  omega

/-- An entry depends on the words it reads only. -/
theorem recomputed_congr (s s' : State) (cp : s'.cp = s.cp) (e : Entry)
    (same : ∀ a, Reads s.cp e a → s'.xfmem a = s.xfmem a) :
    (recomputed normalized s').entry e = (recomputed normalized s).entry e := by
  cases e with
  | light i => exact convertLight_congr normalized fun b lower upper => same b ⟨lower, upper⟩
  | posNormal e =>
      show posNormal s'.xfmem s'.cp e = posNormal s.xfmem s.cp e
      rw [cp]
      exact posNormal_congr e same
  | tex e =>
      show texMatrices s'.xfmem s'.cp e = texMatrices s.xfmem s.cp e
      rw [cp]
      exact texMatrices_congr e same
  | material i =>
      have word : materialData s'.xfmem i = materialData s.xfmem i := by
        have := same (XFMEM_SETCHAN0_AMBCOLOR + i) rfl
        unfold materialData
        split
        · rwa [show XFMEM_SETCHAN0_MATCOLOR + ((i : Nat) - 2) = XFMEM_SETCHAN0_AMBCOLOR + i by
            simp only [XFMEM_SETCHAN0_MATCOLOR, XFMEM_SETCHAN0_AMBCOLOR]; omega]
        · exact this
      exact congrArg colorBytes word
  | dualTex => exact congrArg (bitField 0 1) (same _ rfl)
  | numColorChans => exact congrArg (bitField 0 2) (same _ rfl)
  | transform | normal | post | texMtxInfo | postMtxInfo | color | alpha => exact same _ rfl

/-! ## `SetConstants` -/

/-- What holds between the calls: an entry that is not what it would be is marked. -/
structure Inv (s : State) : Prop where
  mirror : Mirrors s.manager.Marked s.constants.entry (recomputed normalized s).entry
  fits : s.manager.Fits
  exact : ∀ upload ∈ s.uploads, upload.1 = upload.2

end

section Copies
variable {size width : Nat} {p : Option Span}

/-- A pending copy is made of rows of the array, and of the marked ones. -/
structure Copied {ν : Type} (copy : Option (Fin size → ν)) (marked : Fin size → Prop)
    (src dst : Fin size → ν) : Prop where
  made : ∃ d, copy = some d ∧ (∀ e, marked e → d e = src e) ∧ ∀ e, ¬ marked e → d e = dst e

/-- The entries of the rows from the first to the last of the span are copied. -/
theorem copied_of_span {ν : Type} {src dst : Fin size → ν} {row : Fin size → Nat}
    {copy : Span → (Fin size → ν) → Option (Fin size → ν)}
    (copies : ∀ s, p = some s → copy s dst = some fun e =>
      if s.first width ≤ row e ∧ row e < s.last width then src e else dst e) :
    Copied (whenPending p copy dst) (fun e => Span.Marks width p (row e)) src dst := by
  cases p with
  | none => exact ⟨dst, rfl, by simp, by simp⟩
  | some s =>
      rw [whenPending, copies s rfl]
      refine ⟨_, rfl, fun e m => ?_, fun e m => ?_⟩
      · exact if_pos (Span.marks_some.mp m)
      · exact if_neg fun h => m (Span.marks_some.mpr h)

/-- The rows of a span that fits are rows of the array. -/
theorem Span.last_mul_le {s : Span} (fits : Span.Fits size (some s)) (pos : 0 < width)
    (whole : size / width * width = size) : s.last width * width ≤ size := by
  have inside := (Span.fits_some.mp fits).2
  have last := @Span.last_le width s (size / width) pos (by omega)
  exact (Nat.mul_le_mul_right width last).trans whole.le

theorem copied_rows (width : Nat) (src : Nat → Nat) (dst : Fin size → Nat)
    (copy : Span → (Fin size → Nat) → Option (Fin size → Nat)) (fits : Span.Fits size p)
    (pos : 0 < width) (whole : size / width * width = size)
    (eq : ∀ s dst, copy s dst = copyRows width (s.first width) (s.last width) src dst) :
    Copied (whenPending p copy dst) (fun e => Span.Marks width p (e / width)) (fun e => src e)
      dst := by
  refine copied_of_span fun s pending => ?_
  subst pending
  have order := (Span.fits_some.mp fits).1
  rw [eq, copyRows, if_pos ⟨Span.first_le_last order, Span.last_mul_le fits pos whole⟩]

theorem copied_rowsEach (width : Nat) (src : Nat → Nat) (dst : Fin size → Nat)
    (copy : Span → (Fin size → Nat) → Option (Fin size → Nat)) (fits : Span.Fits size p)
    (pos : 0 < width) (whole : size / width * width = size)
    (eq : ∀ s dst, copy s dst = copyRowsEach width (s.first width) (s.last width) src dst) :
    Copied (whenPending p copy dst) (fun e => Span.Marks width p (e / width)) (fun e => src e)
      dst := by
  refine copied_of_span fun s pending => ?_
  subst pending
  rw [eq, copyRowsEach, if_pos (.inr (Span.last_mul_le fits pos whole))]

theorem copied_each {ν : Type} (width : Nat) (src : Nat → ν) (dst : Fin size → ν)
    (copy : Span → (Fin size → ν) → Option (Fin size → ν)) (fits : Span.Fits (size * width) p)
    (pos : 0 < width)
    (eq : ∀ s dst, copy s dst = copyEach (s.first width) (s.last width) src dst) :
    Copied (whenPending p copy dst) (fun e => Span.Marks width p e) (fun e => src e) dst := by
  refine copied_of_span fun s pending => ?_
  subst pending
  have last := Span.last_le size pos (Span.fits_some.mp fits).2
  rw [eq, copyEach, if_pos (.inr last)]

end Copies

section
variable {normalized : Nat × Nat × Nat → Nat × Nat × Nat} {s s' : State}

theorem copyFlagged_tex_marked {c : VertexShaderConstants} {e : Fin 96}
    (m : s.manager.Marked (.tex e)) :
    (copyFlagged s c).texmatrices e = texMatrices s.xfmem s.cp e := by
  simp only [XFStateManager.Marked] at m
  simp only [copyFlagged]
  split_ifs at m with small
  · rw [if_pos small, if_pos m]
  · rw [if_neg small, if_pos m]

theorem copyFlagged_tex_kept {c : VertexShaderConstants} {e : Fin 96}
    (m : ¬ s.manager.Marked (.tex e)) : (copyFlagged s c).texmatrices e = c.texmatrices e := by
  simp only [XFStateManager.Marked] at m
  simp only [copyFlagged]
  split_ifs at m with small
  · rw [if_pos small, if_neg m]
  · rw [if_neg small, if_neg m]

/-- `SetConstants` copies inside the arrays, and leaves all constants as they would be. -/
theorem Inv.setConstants (inv : Inv normalized s) :
    ∃ s', SetConstants normalized s = some s' ∧ Inv normalized s' ∧
      s'.constants = recomputed normalized s ∧ s'.manager = resetChanges ∧ s'.xfmem = s.xfmem ∧
      s'.cp = s.cp ∧ s'.draws = s.draws := by
  obtain ⟨transform, ht, markedT, keptT⟩ :=
    (copied_rows 4 (fun e => s.xfmem (XFMEM_POSMATRICES + e)) s.constants.transformmatrices
      (copyTransform s.xfmem) inv.fits.transform (by decide) rfl fun _ _ => rfl).made
  obtain ⟨normals, hn, markedN, keptN⟩ :=
    (copied_rowsEach 3 (fun e => s.xfmem (XFMEM_NORMALMATRICES + e)) s.constants.normalmatrices
      (copyNormals s.xfmem) inv.fits.normals (by decide) rfl fun _ _ => rfl).made
  obtain ⟨post, hp, markedP, keptP⟩ :=
    (copied_rows 4 (fun e => s.xfmem (XFMEM_POSTMATRICES + e)) s.constants.posttransformmatrices
      (copyPostMatrices s.xfmem) inv.fits.post (by decide) rfl fun _ _ => rfl).made
  obtain ⟨lights, hl, markedL, keptL⟩ :=
    (copied_each 0x10 (fun i => convertLight normalized s.xfmem (XFMEM_LIGHTS + 0x10 * i))
      s.constants.lights (copyLights normalized s.xfmem) inv.fits.lights (by decide)
      fun _ _ => rfl).made
  let c := copyFlagged s { s.constants with
    transformmatrices := transform
    normalmatrices := normals
    posttransformmatrices := post
    lights := lights }
  have all : c = recomputed normalized s := by
    refine VertexShaderConstants.eq_of_entry (inv.mirror.refresh (fun e m => ?_) fun e m => ?_)
    · cases e with
      | transform e => exact markedT e m
      | normal e => exact markedN e m
      | post e => exact markedP e m
      | light i => exact markedL i m
      | tex e => exact copyFlagged_tex_marked m
      | posNormal e => exact congrFun (if_pos m) e
      | material | dualTex | numColorChans | texMtxInfo | postMtxInfo | color | alpha =>
          exact if_pos m
    · cases e with
      | transform e => exact keptT e m
      | normal e => exact keptN e m
      | post e => exact keptP e m
      | light i => exact keptL i m
      | tex e => exact copyFlagged_tex_kept m
      | posNormal e => exact congrFun (if_neg m) e
      | material | dualTex | numColorChans | texMtxInfo | postMtxInfo | color | alpha =>
          exact if_neg m
  refine ⟨{ s with
    manager := resetChanges
    constants := c
    dirty := s.dirty || s.manager.anyChanged
    uploads := (c, recomputed normalized s) :: s.uploads }, ?_,
    ⟨.of_eq (congrArg _ all), fits_resetChanges, ?_⟩, all, rfl, rfl, rfl, rfl⟩
  · simp only [SetConstants, ht, hn, hp, hl, Option.bind_eq_bind, Option.bind_some, c]
  intro upload mem
  rcases List.mem_cons.mp mem with rfl | mem
  · exact all
  · exact inv.exact upload mem

/-- What is pending once the vertices that wait are drawn. -/
def State.pending (s : State) : XFStateManager := if s.draws 0 then resetChanges else s.manager

theorem Inv.flush (inv : Inv normalized s) :
    ∃ s', Flush normalized s = some s' ∧ Inv normalized s' ∧ s'.manager = s.pending ∧
      s'.xfmem = s.xfmem ∧ s'.cp = s.cp := by
  have shifted : Inv normalized { s with draws := fun n => s.draws (n + 1) } :=
    ⟨inv.mirror, inv.fits, inv.exact⟩
  by_cases draw : s.draws 0 = true
  · obtain ⟨s', eq, inv', -, manager, xfmem, cp, -⟩ := shifted.setConstants
    exact ⟨s', (if_pos draw).trans eq, inv', manager.trans (if_pos draw).symm, xfmem, cp⟩
  · exact ⟨_, if_neg draw, shifted, (if_neg draw).symm, rfl, rfl⟩

theorem Inv.flushIf (inv : Inv normalized s) (c : Bool) :
    ∃ s', flushIf normalized c s = some s' ∧ Inv normalized s' ∧ s'.xfmem = s.xfmem ∧
      s'.cp = s.cp := by
  cases c with
  | false => exact ⟨s, rfl, inv, rfl, rfl⟩
  | true =>
      obtain ⟨s', eq, inv', -, same⟩ := inv.flush
      exact ⟨s', eq, inv', same⟩

/-- A change of the memory, of the matrix indices or of the marks. -/
theorem Inv.change (inv : Inv normalized s) (constants : s'.constants = s.constants)
    (uploads : s'.uploads = s.uploads) (fits : s'.manager.Fits)
    (kept : ∀ e, s.manager.Marked e → s'.manager.Marked e)
    (noted : ∀ e, s'.manager.Marked e ∨
      (recomputed normalized s').entry e = (recomputed normalized s).entry e) :
    Inv normalized s' where
  mirror := by
    rw [constants]
    exact inv.mirror.write kept noted
  fits := fits
  exact := uploads ▸ inv.exact

/-! ## The flags -/

theorem Inv.lightingConfigChanged (inv : Inv normalized s) :
    Inv normalized (s.note XFStateManager.SetLightingConfigChanged) := by
  refine inv.change rfl rfl ⟨inv.fits.transform, inv.fits.normals, inv.fits.post,
    inv.fits.lights⟩ (fun e m => ?_) fun e => .inr rfl
  cases e with
  | numColorChans | color | alpha => rfl
  | transform | normal | post | light | material | posNormal | tex | dualTex | texMtxInfo
  | postMtxInfo => exact m

theorem Inv.texMatrixInfoChanged (inv : Inv normalized s) :
    Inv normalized (s.note XFStateManager.SetTexMatrixInfoChanged) := by
  refine inv.change rfl rfl ⟨inv.fits.transform, inv.fits.normals, inv.fits.post,
    inv.fits.lights⟩ (fun e m => ?_) fun e => .inr rfl
  cases e with
  | dualTex | texMtxInfo | postMtxInfo => rfl
  | transform | normal | post | light | material | posNormal | tex | numColorChans | color
  | alpha => exact m

theorem Inv.materialColorChanged (inv : Inv normalized s) (index : Fin 4) :
    Inv normalized (s.note (XFStateManager.SetMaterialColorChanged index)) := by
  refine inv.change rfl rfl ⟨inv.fits.transform, inv.fits.normals, inv.fits.post,
    inv.fits.lights⟩ (fun e m => ?_) fun e => .inr rfl
  cases e with
  | material i =>
      by_cases same : i = index
      · exact same ▸ Function.update_self ..
      · exact (Function.update_of_ne same ..).trans m
  | transform | normal | post | light | posNormal | tex | dualTex | texMtxInfo | postMtxInfo
  | numColorChans | color | alpha => exact m

/-! ## The matrix indices -/

theorem Inv.setTexMatrixChangedA (inv : Inv normalized s) (value : Nat) :
    ∃ s', SetTexMatrixChangedA normalized value s = some s' ∧ Inv normalized s' ∧
      s'.xfmem = s.xfmem ∧ s'.cp = { s.cp with matrix_index_a := value } := by
  by_cases same : s.cp.matrix_index_a = value
  · exact ⟨s, if_neg (not_not_intro same), inv, rfl, same ▸ rfl⟩
  · obtain ⟨s₁, eq, inv₁, -, xfmem, cp⟩ := inv.flush
    refine ⟨changeMatrixIndexA value s₁, by rw [SetTexMatrixChangedA, if_pos same, eq]; rfl, ?_,
      xfmem, by rw [← cp]; rfl⟩
    refine inv₁.change rfl rfl ⟨inv₁.fits.transform, inv₁.fits.normals, inv₁.fits.post,
      inv₁.fits.lights⟩ (fun e m => ?_) fun e => ?_
    · cases e with
      | posNormal => exact Bool.or_eq_true_iff.mpr (.inl m)
      | tex e =>
          simp only [XFStateManager.Marked] at m ⊢
          split_ifs at m ⊢ with small
          · rfl
          · exact m
      | transform | normal | post | light | material | dualTex | texMtxInfo | postMtxInfo
      | numColorChans | color | alpha => exact m
    · cases e with
      | posNormal e =>
          by_cases index : PosNormalMtxIdx s₁.cp = value % 64
          · right
            have same :
                PosNormalMtxIdx (changeMatrixIndexA value s₁).cp = PosNormalMtxIdx s₁.cp := by
              rw [index]
              simp [PosNormalMtxIdx, bitField, changeMatrixIndexA]
            simp only [VertexShaderConstants.entry, recomputed, posNormal, same]
            rfl
          · left
            simp [XFStateManager.Marked, changeMatrixIndexA, index]
      | tex e =>
          by_cases small : (e : Nat) < 48
          · left
            simp [XFStateManager.Marked, changeMatrixIndexA, small]
          · right
            have : ¬ (e : Nat) / 12 < 4 := by omega
            simp only [VertexShaderConstants.entry, recomputed, texMatrices, TexMtxIdx, this,
              if_false]
            rfl
      | transform | normal | post | light | material | dualTex | texMtxInfo | postMtxInfo
      | numColorChans | color | alpha => exact .inr rfl

theorem Inv.setTexMatrixChangedB (inv : Inv normalized s) (value : Nat) :
    ∃ s', SetTexMatrixChangedB normalized value s = some s' ∧ Inv normalized s' ∧
      s'.xfmem = s.xfmem ∧ s'.cp = { s.cp with matrix_index_b := value } := by
  by_cases same : s.cp.matrix_index_b = value
  · exact ⟨s, if_neg (not_not_intro same), inv, rfl, same ▸ rfl⟩
  · obtain ⟨s₁, eq, inv₁, -, xfmem, cp⟩ := inv.flush
    refine ⟨changeMatrixIndexB value s₁, by rw [SetTexMatrixChangedB, if_pos same, eq]; rfl, ?_,
      xfmem, by rw [← cp]; rfl⟩
    refine inv₁.change rfl rfl ⟨inv₁.fits.transform, inv₁.fits.normals, inv₁.fits.post,
      inv₁.fits.lights⟩ (fun e m => ?_) fun e => ?_
    · cases e with
      | tex e =>
          simp only [XFStateManager.Marked] at m ⊢
          split_ifs at m ⊢ with small
          · exact m
          · rfl
      | transform | normal | post | light | material | posNormal | dualTex | texMtxInfo
      | postMtxInfo | numColorChans | color | alpha => exact m
    · cases e with
      | tex e =>
          by_cases small : (e : Nat) < 48
          · right
            have : (e : Nat) / 12 < 4 := by omega
            simp only [VertexShaderConstants.entry, recomputed, texMatrices, TexMtxIdx, this,
              if_true]
            rfl
          · left
            simp [XFStateManager.Marked, changeMatrixIndexB, small]
      | transform | normal | post | light | material | posNormal | dualTex | texMtxInfo
      | postMtxInfo | numColorChans | color | alpha => exact .inr rfl

/-- Of the registers of the command processor, the matrix indices are all that matters here. -/
theorem Inv.onCP (inv : Inv normalized s) (is_wii : Bool) (command value : Nat) :
    ∃ s', OnCP normalized is_wii command value s = some s' ∧ Inv normalized s' := by
  have agrees {s₁ : State} (inv₁ : Inv normalized s₁)
      (a : (s₁.cp.LoadCPReg is_wii command value).matrix_index_a = s₁.cp.matrix_index_a)
      (b : (s₁.cp.LoadCPReg is_wii command value).matrix_index_b = s₁.cp.matrix_index_b) :
      Inv normalized { s₁ with cp := s₁.cp.LoadCPReg is_wii command value } := by
    refine inv₁.change rfl rfl inv₁.fits (fun _ m => m) fun e => .inr ?_
    cases e with
    | posNormal =>
        simp only [VertexShaderConstants.entry, recomputed, posNormal, PosNormalMtxIdx, a]
        rfl
    | tex =>
        simp only [VertexShaderConstants.entry, recomputed, texMatrices, TexMtxIdx, a, b]
        rfl
    | transform | normal | post | light | material | dualTex | texMtxInfo | postMtxInfo
    | numColorChans | color | alpha => rfl
  by_cases isA : command / 16 % 16 = 3
  · obtain ⟨s₁, eq, inv₁, -, cp⟩ := inv.setTexMatrixChangedA value
    refine ⟨_, by rw [OnCP, if_pos isA, eq]; rfl, agrees inv₁ ?_ ?_⟩ <;>
      simp [CPState.LoadCPReg, isA, cp]
  by_cases isB : command / 16 % 16 = 4
  · obtain ⟨s₁, eq, inv₁, -, cp⟩ := inv.setTexMatrixChangedB value
    refine ⟨_, by rw [OnCP, if_neg isA, if_pos isB, eq]; rfl, agrees inv₁ ?_ ?_⟩ <;>
      simp [CPState.LoadCPReg, isB, cp]
  · refine ⟨_, by rw [OnCP, if_neg isA, if_neg isB]; rfl, agrees inv ?_ ?_⟩ <;>
      (unfold CPState.LoadCPReg; split <;> first | rfl | contradiction)

/-! ## Registers -/

theorem inGroup_iff {first count address : Nat} :
    inGroup first count address = true ↔ first ≤ address ∧ address < first + count :=
  decide_eq_true_iff

/-- The registers that constants depend on, with the flag that stands for them. -/
theorem Reads.register {cp : CPState} {e : Entry} {a : Nat} (reads : Reads cp e a)
    (register : XFMEM_REGISTERS_START ≤ a) :
    (∃ i, e = .material i ∧ a = XFMEM_SETCHAN0_AMBCOLOR + i) ∨
    ((∀ m : XFStateManager, m.Marked e = (m.m_lighting_config_changed = true)) ∧
      (a = XFMEM_SETNUMCHAN ∨ inGroup XFMEM_SETCHAN0_COLOR 4 a = true)) ∨
    ((∀ m : XFStateManager, m.Marked e = (m.m_tex_mtx_info_changed = true)) ∧
      (a = XFMEM_DUALTEX ∨
        (inGroup XFMEM_SETTEXMTXINFO 8 a || inGroup XFMEM_SETPOSTMTXINFO 8 a) = true)) := by
  have window {w : Window} (holds : w.Holds a) (below : w.first + w.count ≤ 0x1000) : False := by
    simp only [Window.Holds, XFMEM_REGISTERS_START] at holds register
    omega
  have index (i : Nat) : texWindow cp i = ⟨TexMtxIdx cp i * 4, 12⟩ ∧ TexMtxIdx cp i < 64 := by
    refine ⟨rfl, ?_⟩
    unfold TexMtxIdx
    split <;> exact Nat.mod_lt _ (by decide)
  cases e with
  | transform e | normal e | post e | light e =>
      simp only [Reads, XFMEM_POSMATRICES, XFMEM_NORMALMATRICES, XFMEM_POSTMATRICES, XFMEM_LIGHTS,
        XFMEM_REGISTERS_START] at reads register
      omega
  | material i => exact .inl ⟨i, rfl, reads⟩
  | posNormal =>
      obtain ⟨w, mem, holds⟩ := reads
      have : PosNormalMtxIdx cp < 64 := Nat.mod_lt _ (by decide)
      refine (window holds ?_).elim
      rcases List.mem_pair.mp mem with rfl | rfl <;>
        simp only [XFMEM_NORMALMATRICES] <;> omega
  | tex e =>
      obtain ⟨w, mem, holds⟩ := reads
      obtain ⟨i, rfl⟩ : ∃ i, w = texWindow cp i := by
        unfold texWindows at mem
        split at mem <;> simp only [texWindowsA, texWindowsB, List.mem_cons, List.not_mem_nil,
          or_false] at mem <;> rcases mem with h | h | h | h <;> exact ⟨_, h⟩
      obtain ⟨eq, bound⟩ := index i
      refine (window holds ?_).elim
      rw [eq]
      dsimp only
      omega
  | dualTex => exact .inr (.inr ⟨fun _ => rfl, .inl reads⟩)
  | numColorChans => exact .inr (.inl ⟨fun _ => rfl, .inl reads⟩)
  | texMtxInfo i =>
      refine .inr (.inr ⟨fun _ => rfl, .inr ?_⟩)
      simp only [Reads] at reads
      rw [Bool.or_eq_true, inGroup_iff, inGroup_iff, reads]
      omega
  | postMtxInfo i =>
      refine .inr (.inr ⟨fun _ => rfl, .inr ?_⟩)
      simp only [Reads] at reads
      rw [Bool.or_eq_true, inGroup_iff, inGroup_iff, reads]
      omega
  | color i =>
      refine .inr (.inl ⟨fun _ => rfl, .inr ?_⟩)
      simp only [Reads] at reads
      rw [inGroup_iff, reads]
      omega
  | alpha i =>
      refine .inr (.inl ⟨fun _ => rfl, .inr ?_⟩)
      simp only [Reads, XFMEM_SETCHAN0_ALPHA] at reads
      rw [inGroup_iff, reads, XFMEM_SETCHAN0_COLOR]
      omega

/-- Words are stored that every entry which depends on a changed one has been marked for. -/
theorem Inv.store (inv : Inv normalized s) {base count : Nat} {data : Nat → Nat}
    (noted : ∀ e a, Reads s.cp e a → base ≤ a → a < base + count →
      s.manager.Marked e ∨ s.xfmem a = data (a - base)) :
    Inv normalized (s.store base count data) := by
  refine inv.change rfl rfl inv.fits (fun _ m => m) fun e => ?_
  by_cases m : s.manager.Marked e
  · exact .inl m
  · right
    refine recomputed_congr normalized s (s.store base count data) rfl e fun a reads => ?_
    simp only [State.store]
    split_ifs with mem
    · exact ((noted e a reads mem.1 mem.2).resolve_left m).symm
    · rfl

variable (normalized) in
/-- What a register's write leaves before the word is stored. -/
structure RegisterNoted (address value : Nat) (s : State) : Prop where
  inv : Inv normalized s
  noted : ∀ e, Reads s.cp e address → s.manager.Marked e ∨ s.xfmem address = value

theorem Inv.materialWritten (inv : Inv normalized s) {index : Fin 4} {address value : Nat}
    (place : address = XFMEM_SETCHAN0_AMBCOLOR + index) :
    ∃ s', XF.materialWritten normalized index address value s = some s' ∧
      RegisterNoted normalized address value s' := by
  by_cases same : s.xfmem address = value
  · exact ⟨s, if_neg (not_not_intro same), inv, fun _ _ => .inr same⟩
  obtain ⟨s₁, eq, inv₁, -, xfmem, cp⟩ := inv.flush
  refine ⟨_, by rw [XF.materialWritten, if_pos same, eq]; rfl, inv₁.materialColorChanged index, ?_⟩
  intro e reads
  have bound := index.isLt
  have register : XFMEM_REGISTERS_START ≤ address := by
    rw [place, XFMEM_REGISTERS_START, XFMEM_SETCHAN0_AMBCOLOR]
    omega
  left
  rcases reads.register register with ⟨i, rfl, eq⟩ | ⟨-, eq⟩ | ⟨-, eq⟩
  · have : i = index := Fin.ext (by omega)
    exact this ▸ Function.update_self ..
  · rw [inGroup_iff, place, XFMEM_SETCHAN0_AMBCOLOR, XFMEM_SETNUMCHAN, XFMEM_SETCHAN0_COLOR] at eq
    omega
  · rw [Bool.or_eq_true, inGroup_iff, inGroup_iff, place, XFMEM_SETCHAN0_AMBCOLOR, XFMEM_DUALTEX,
      XFMEM_SETTEXMTXINFO, XFMEM_SETPOSTMTXINFO] at eq
    omega

theorem Inv.lightingWritten (inv : Inv normalized s) {address value : Nat} (flushed : Bool)
    (place : address = XFMEM_SETNUMCHAN ∨ inGroup XFMEM_SETCHAN0_COLOR 4 address = true) :
    ∃ s', (do
        let s ← XF.flushIf normalized flushed s
        some (s.note XFStateManager.SetLightingConfigChanged)) = some s' ∧
      RegisterNoted normalized address value s' := by
  obtain ⟨s₁, eq, inv₁, xfmem, cp⟩ := inv.flushIf flushed
  refine ⟨_, by rw [eq]; rfl, inv₁.lightingConfigChanged, fun e reads => .inl ?_⟩
  rw [inGroup_iff] at place
  have bounds : XFMEM_SETNUMCHAN = 0x1009 ∧ XFMEM_SETCHAN0_COLOR = 0x100e := ⟨rfl, rfl⟩
  rcases reads.register (by rw [XFMEM_REGISTERS_START]; omega) with
    ⟨i, rfl, eq⟩ | ⟨marked, -⟩ | ⟨-, eq⟩
  · have := i.isLt
    rw [XFMEM_SETCHAN0_AMBCOLOR] at eq
    omega
  · rw [marked]
    rfl
  · rw [Bool.or_eq_true, inGroup_iff, inGroup_iff, XFMEM_DUALTEX, XFMEM_SETTEXMTXINFO,
      XFMEM_SETPOSTMTXINFO] at eq
    omega

theorem Inv.texInfoWritten (inv : Inv normalized s) {address value : Nat} (flushed : Bool)
    (place : address = XFMEM_DUALTEX ∨
      (inGroup XFMEM_SETTEXMTXINFO 8 address || inGroup XFMEM_SETPOSTMTXINFO 8 address) = true) :
    ∃ s', (do
        let s ← XF.flushIf normalized flushed s
        some (s.note XFStateManager.SetTexMatrixInfoChanged)) = some s' ∧
      RegisterNoted normalized address value s' := by
  obtain ⟨s₁, eq, inv₁, xfmem, cp⟩ := inv.flushIf flushed
  refine ⟨_, by rw [eq]; rfl, inv₁.texMatrixInfoChanged, fun e reads => .inl ?_⟩
  rw [Bool.or_eq_true, inGroup_iff, inGroup_iff] at place
  have bounds : XFMEM_DUALTEX = 0x1012 ∧ XFMEM_SETTEXMTXINFO = 0x1040 ∧
    XFMEM_SETPOSTMTXINFO = 0x1050 := ⟨rfl, rfl, rfl⟩
  rcases reads.register (by rw [XFMEM_REGISTERS_START]; omega) with
    ⟨i, rfl, eq⟩ | ⟨-, eq⟩ | ⟨marked, -⟩
  · have := i.isLt
    rw [XFMEM_SETCHAN0_AMBCOLOR] at eq
    omega
  · rw [inGroup_iff, XFMEM_SETNUMCHAN, XFMEM_SETCHAN0_COLOR] at eq
    omega
  · rw [marked]
    rfl

/-- No constant depends on the register. -/
def Unused (address : Nat) : Prop :=
  inGroup XFMEM_SETCHAN0_AMBCOLOR 4 address = false ∧ address ≠ XFMEM_SETNUMCHAN ∧
    inGroup XFMEM_SETCHAN0_COLOR 4 address = false ∧ address ≠ XFMEM_DUALTEX ∧
    (inGroup XFMEM_SETTEXMTXINFO 8 address || inGroup XFMEM_SETPOSTMTXINFO 8 address) = false

instance (address : Nat) : Decidable (Unused address) :=
  inferInstanceAs (Decidable (_ ∧ _))

theorem Inv.unusedWritten (inv : Inv normalized s) {address value : Nat} (unused : Unused address)
    (register : XFMEM_REGISTERS_START ≤ address) :
    RegisterNoted normalized address value s := by
  obtain ⟨notMaterial, notChan, notColor, notDual, notInfo⟩ := unused
  refine ⟨inv, fun e reads => ?_⟩
  rcases reads.register register with ⟨i, -, eq⟩ | ⟨-, eq | eq⟩ | ⟨-, eq | eq⟩
  · have inside : inGroup XFMEM_SETCHAN0_AMBCOLOR 4 address = true :=
      inGroup_iff.mpr (by have := i.isLt; omega)
    exact absurd inside (by rw [notMaterial]; decide)
  · exact absurd eq notChan
  · exact absurd eq (by rw [notColor]; decide)
  · exact absurd eq notDual
  · exact absurd eq (by rw [notInfo]; decide)

theorem Inv.regWritten (inv : Inv normalized s) {address : Nat} (value : Nat)
    (register : XFMEM_REGISTERS_START ≤ address) :
    ∃ s', XFRegWritten normalized address value s = some s' ∧
      RegisterNoted normalized address value s' := by
  unfold XFRegWritten
  by_cases chan : address = XFMEM_SETNUMCHAN
  · rw [if_pos chan]
    exact inv.lightingWritten _ (.inl chan)
  rw [if_neg chan]
  by_cases amb : inGroup XFMEM_SETCHAN0_AMBCOLOR 2 address = true
  · rw [if_pos amb]
    rw [inGroup_iff] at amb
    refine inv.materialWritten ?_
    rw [Fin.val_ofNat, Nat.mod_eq_of_lt (by omega)]
    omega
  rw [if_neg amb]
  by_cases mat : inGroup XFMEM_SETCHAN0_MATCOLOR 2 address = true
  · rw [if_pos mat]
    rw [inGroup_iff] at mat
    refine inv.materialWritten ?_
    rw [Fin.val_ofNat, Nat.mod_eq_of_lt (by omega)]
    simp only [XFMEM_SETCHAN0_MATCOLOR, XFMEM_SETCHAN0_AMBCOLOR] at mat ⊢
    omega
  rw [if_neg mat]
  by_cases color : inGroup XFMEM_SETCHAN0_COLOR 4 address = true
  · rw [if_pos color]
    exact inv.lightingWritten _ (.inr color)
  rw [if_neg color]
  by_cases dual : address = XFMEM_DUALTEX
  · rw [if_pos dual]
    exact inv.texInfoWritten _ (.inl dual)
  rw [if_neg dual]
  by_cases indexA : address = XFMEM_SETMATRIXINDA
  · rw [if_pos indexA]
    obtain ⟨s', eq, inv', -, -⟩ := inv.setTexMatrixChangedA value
    exact ⟨s', eq, inv'.unusedWritten (indexA ▸ by decide) register⟩
  rw [if_neg indexA]
  by_cases indexB : address = XFMEM_SETMATRIXINDB
  · rw [if_pos indexB]
    obtain ⟨s', eq, inv', -, -⟩ := inv.setTexMatrixChangedB value
    exact ⟨s', eq, inv'.unusedWritten (indexB ▸ by decide) register⟩
  rw [if_neg indexB]
  have outside : Unused address ∨
      (inGroup XFMEM_SETTEXMTXINFO 8 address || inGroup XFMEM_SETPOSTMTXINFO 8 address) = true := by
    rw [Unused, ← Bool.not_eq_true, ← Bool.not_eq_true, ← Bool.not_eq_true]
    simp only [inGroup_iff, XFMEM_SETCHAN0_AMBCOLOR, XFMEM_SETCHAN0_MATCOLOR] at amb mat ⊢
    by_cases info : (inGroup XFMEM_SETTEXMTXINFO 8 address ||
        inGroup XFMEM_SETPOSTMTXINFO 8 address) = true
    · exact .inr info
    · exact .inl ⟨by omega, chan, inGroup_iff.not.mp color, dual, info⟩
  by_cases viewport : inGroup XFMEM_SETVIEWPORT 6 address = true
  · rw [if_pos viewport]
    rw [inGroup_iff, XFMEM_SETVIEWPORT] at viewport
    obtain ⟨s', eq, inv', -⟩ := inv.flush
    refine ⟨s', eq, inv'.unusedWritten (outside.resolve_right ?_) register⟩
    rw [Bool.or_eq_true, inGroup_iff, inGroup_iff, XFMEM_SETTEXMTXINFO, XFMEM_SETPOSTMTXINFO]
    omega
  rw [if_neg viewport]
  by_cases projection : inGroup XFMEM_SETPROJECTION 7 address = true
  · rw [if_pos projection]
    rw [inGroup_iff, XFMEM_SETPROJECTION] at projection
    obtain ⟨s', eq, inv', -⟩ := inv.flush
    refine ⟨s', eq, inv'.unusedWritten (outside.resolve_right ?_) register⟩
    rw [Bool.or_eq_true, inGroup_iff, inGroup_iff, XFMEM_SETTEXMTXINFO, XFMEM_SETPOSTMTXINFO]
    omega
  rw [if_neg projection]
  by_cases texgens : address = XFMEM_SETNUMTEXGENS
  · rw [if_pos texgens]
    obtain ⟨s', eq, inv', -⟩ := inv.flushIf _
    exact ⟨s', eq, inv'.unusedWritten (texgens ▸ by decide) register⟩
  rw [if_neg texgens]
  by_cases info : (inGroup XFMEM_SETTEXMTXINFO 8 address ||
      inGroup XFMEM_SETPOSTMTXINFO 8 address) = true
  · rw [if_pos info]
    exact inv.texInfoWritten true (.inr info)
  · rw [if_neg info]
    exact ⟨s, rfl, inv.unusedWritten (outside.resolve_right info) register⟩

/-- Writing registers is always noted. -/
theorem Inv.writeRegisters (inv : Inv normalized s) (count : Nat) {address : Nat}
    (data : Nat → Nat) (register : XFMEM_REGISTERS_START ≤ address) :
    ∃ s', XF.writeRegisters normalized count address data s = some s' ∧ Inv normalized s' := by
  induction count generalizing s address data with
  | zero => exact ⟨s, rfl, inv⟩
  | succ count ih =>
      obtain ⟨s₁, eq, noted⟩ := inv.regWritten (data 0) register
      have stored : Inv normalized (s₁.store address 1 data) := by
        refine noted.inv.store fun e a reads lower upper => ?_
        obtain rfl : a = address := by omega
        rw [Nat.sub_self]
        exact noted.noted e reads
      have next : XFMEM_REGISTERS_START ≤ address + 1 := by omega
      obtain ⟨s', rest, inv'⟩ := ih stored (fun i => data (i + 1)) next
      exact ⟨s', by rw [XF.writeRegisters, eq]; exact rest, inv'⟩

end

/-! ## Spans of the regions -/

section Spans
variable {start stop size : Nat} {p : Option Span}

/-- The range begins before address `a` and goes on past it. -/
def RunsInto (start stop a : Nat) : Prop := start < a ∧ a < stop

instance (start stop a : Nat) : Decidable (RunsInto start stop a) :=
  inferInstanceAs (Decidable (_ ∧ _))

theorem invalidateTransform_marks {row : Nat} (fits : Span.Fits 256 p) (m : Span.Marks 4 p row) :
    Span.Marks 4 (invalidateTransform start stop p) row := by
  obtain ⟨s, rfl, rows⟩ := m
  have inside := (Span.fits_some.mp fits).2
  have bound : XFMEM_POSMATRICES_END = 256 := rfl
  unfold invalidateTransform
  dsimp only
  split
  · refine Span.Marks.widen ?_ ?_ (Span.marks_some.mpr rows)
    · dsimp only
      split <;> omega
    · dsimp only
      split_ifs <;> omega
  · exact Span.marks_some.mpr rows

theorem invalidateTransform_notes {a : Nat} (lower : start ≤ a) (upper : a < stop)
    (region : a < XFMEM_POSMATRICES_END) :
    Span.Marks 4 (invalidateTransform start stop p) (a / 4) := by
  unfold invalidateTransform
  dsimp only
  rw [if_pos (by omega)]
  cases p with
  | none =>
      refine Span.marks_of_mem (by decide) lower ?_
      dsimp only
      split_ifs <;> omega
  | some s =>
      refine Span.marks_of_mem (by decide) ?_ ?_
      · dsimp only
        split_ifs <;> omega
      · dsimp only
        split_ifs <;> omega

theorem invalidateTransform_fits (order : start ≤ stop) (fits : Span.Fits 256 p) :
    Span.Fits 256 (invalidateTransform start stop p) := by
  have bound : XFMEM_POSMATRICES_END = 256 := rfl
  unfold invalidateTransform
  dsimp only
  split
  · cases p with
    | none =>
        rw [Span.fits_some]
        dsimp only
        split_ifs <;> omega
    | some s =>
        rw [Span.fits_some] at fits ⊢
        dsimp only
        split_ifs <;> omega
  · exact fits

variable {region regionEnd before width : Nat}

/-- A range that runs into a region is noted from the region's first word on, or all of the words
before what it writes are pending. -/
def Begins (width region before start stop : Nat) (p : Option Span) : Prop :=
  RunsInto start stop region → before = 0 ∨ ∃ s, p = some s ∧ s.first width = 0

theorem invalidateRegion_marks {row : Nat} (m : Span.Marks width p row) :
    Span.Marks width (invalidateRegion region regionEnd before start stop p) row := by
  obtain ⟨s, rfl, rows⟩ := m
  unfold invalidateRegion
  dsimp only
  split
  · refine Span.Marks.widen ?_ ?_ (Span.marks_some.mpr rows)
    · dsimp only
      split_ifs <;> omega
    · dsimp only
      split_ifs <;> omega
  · exact Span.marks_some.mpr rows

theorem invalidateRegion_notes {a : Nat} (pos : 0 < width) (lower : start ≤ a) (upper : a < stop)
    (inside : region ≤ a ∧ a < regionEnd) (begins : Begins width region before start stop p) :
    Span.Marks width (invalidateRegion region regionEnd before start stop p)
      ((a - region) / width) := by
  unfold invalidateRegion
  dsimp only
  rw [if_pos (by omega)]
  by_cases runs : start < region
  · rcases begins ⟨runs, by omega⟩ with rfl | ⟨s, rfl, first⟩
    · cases p with
      | none =>
          refine Span.marks_of_mem pos ?_ ?_ <;> dsimp only <;> split_ifs <;> omega
      | some s =>
          refine Span.marks_of_mem pos ?_ ?_ <;> dsimp only <;> split_ifs <;> omega
    · refine Span.marks_some.mpr ⟨?_, Span.lt_last pos ?_⟩
      · refine (Nat.div_le_div_right ?_).trans (first.trans_le (Nat.zero_le _))
        dsimp only
        split_ifs <;> omega
      · dsimp only
        split_ifs <;> omega
  · cases p with
    | none => refine Span.marks_of_mem pos ?_ ?_ <;> dsimp only <;> split_ifs <;> omega
    | some s => refine Span.marks_of_mem pos ?_ ?_ <;> dsimp only <;> split_ifs <;> omega

theorem invalidateRegion_fits (order : start ≤ stop) (whole : region + size = regionEnd)
    (far : before = 0 ∨ size ≤ before) (begins : Begins width region before start stop p)
    (fits : Span.Fits size p) :
    Span.Fits size (invalidateRegion region regionEnd before start stop p) := by
  unfold invalidateRegion
  dsimp only
  split
  · rename_i touches
    by_cases runs : start < region
    · rcases begins ⟨runs, touches.2⟩ with rfl | ⟨s, rfl, -⟩
      · cases p with
        | none =>
            rw [Span.fits_some]
            dsimp only
            split_ifs <;> omega
        | some s =>
            rw [Span.fits_some] at fits ⊢
            dsimp only
            split_ifs <;> omega
      · rw [Span.fits_some] at fits ⊢
        dsimp only
        split_ifs <;> omega
    · cases p with
      | none =>
          rw [Span.fits_some]
          dsimp only
          split_ifs <;> omega
      | some s =>
          rw [Span.fits_some] at fits ⊢
          dsimp only
          split_ifs <;> omega
  · exact fits

theorem invalidateNormals_notes {e : Nat} (lower : start ≤ XFMEM_NORMALMATRICES + e)
    (upper : XFMEM_NORMALMATRICES + e < stop) (inside : e < 96) :
    Span.Marks 3 (invalidateNormals start stop p) (e / 3) := by
  have row : Span.Marks 3 _ _ := invalidateRegion_notes (p := p) (by decide) lower upper
    ⟨Nat.le_add_right .., Nat.add_lt_add_left inside _⟩ fun _ => .inl rfl
  rwa [Nat.add_sub_cancel_left] at row

theorem invalidatePostMatrices_notes {e : Nat} (lower : start ≤ XFMEM_POSTMATRICES + e)
    (upper : XFMEM_POSTMATRICES + e < stop) (inside : e < 256)
    (begins : RunsInto start stop XFMEM_POSTMATRICES → ∃ s, p = some s ∧ s.first 4 = 0) :
    Span.Marks 4 (invalidatePostMatrices start stop p) (e / 4) := by
  have from_first : Begins 4 XFMEM_POSTMATRICES XFMEM_POSTMATRICES start stop p :=
    fun runs => .inr (begins runs)
  have row := invalidateRegion_notes (by decide) lower upper
    ⟨Nat.le_add_right .., Nat.add_lt_add_left inside _⟩ from_first
  rwa [Nat.add_sub_cancel_left] at row

theorem invalidateLights_notes {e : Nat} (lower : start ≤ XFMEM_LIGHTS + e)
    (upper : XFMEM_LIGHTS + e < stop) (inside : e < 128)
    (begins : RunsInto start stop XFMEM_LIGHTS → ∃ s, p = some s ∧ s.first 0x10 = 0) :
    Span.Marks 0x10 (invalidateLights start stop p) (e / 0x10) := by
  have from_first : Begins 0x10 XFMEM_LIGHTS XFMEM_LIGHTS start stop p :=
    fun runs => .inr (begins runs)
  have row := invalidateRegion_notes (by decide) lower upper
    ⟨Nat.le_add_right .., Nat.add_lt_add_left inside _⟩ from_first
  rwa [Nat.add_sub_cancel_left] at row

end Spans

/-! ## Ranges below the registers -/

/-- The matrices of the list that a range writes are noted: their flag is set already, or the
range begins in one of them, or it runs into none of them. -/
def WindowsNoted (flag : Bool) (windows : List Window) (start stop : Nat) : Prop :=
  flag = true ∨ windows.any (Window.starts start) = true ∨
    ∀ w ∈ windows, ¬ RunsInto start stop w.first

instance (flag : Bool) (windows : List Window) (start stop : Nat) :
    Decidable (WindowsNoted flag windows start stop) :=
  inferInstanceAs (Decidable (_ ∨ _ ∨ _))

theorem WindowsNoted.flagged {flag : Bool} {windows : List Window} {start stop a : Nat}
    (noted : WindowsNoted flag windows start stop) {w : Window} (mem : w ∈ windows)
    (holds : w.Holds a) (lower : start ≤ a) (upper : a < stop) :
    (flag || windows.any (Window.starts start)) = true := by
  rcases noted with set | starts | clear
  · rw [set, Bool.true_or]
  · rw [starts, Bool.or_true]
  · have : ¬ start < w.first := fun before => clear w mem ⟨before, by
      simp only [Window.Holds] at holds
      omega⟩
    have inside : w.starts start = true := by
      simp only [Window.Holds] at holds
      simp only [Window.starts, decide_eq_true_eq]
      omega
    rw [List.any_eq_true.mpr ⟨w, mem, inside⟩, Bool.or_true]

/-- What is noted covers the range. -/
structure RangeNoted (m : XFStateManager) (cp : CPState) (start stop : Nat) : Prop where
  posNormal : WindowsNoted m.m_pos_normal_matrix_changed (posNormalWindows cp) start stop
  texA : WindowsNoted m.m_tex_matrices_changed_a (texWindowsA cp) start stop
  texB : WindowsNoted m.m_tex_matrices_changed_b (texWindowsB cp) start stop
  post : RunsInto start stop XFMEM_POSTMATRICES →
    ∃ s, m.m_minmax_post_transform_matrices_changed = some s ∧ s.first 4 = 0
  lights : RunsInto start stop XFMEM_LIGHTS →
    ∃ s, m.m_minmax_lights_changed = some s ∧ s.first 0x10 = 0

instance (width : Nat) (p : Option Span) : Decidable (∃ s, p = some s ∧ s.first width = 0) :=
  decidable_of_iff ((p.any fun s => s.first width = 0) = true) (by cases p <;> simp)

instance (m : XFStateManager) (cp : CPState) (start stop : Nat) :
    Decidable (RangeNoted m cp start stop) :=
  decidable_of_iff (_ ∧ _ ∧ _ ∧ _ ∧ _) ⟨fun ⟨a, b, c, d, e⟩ => ⟨a, b, c, d, e⟩,
    fun h => ⟨h.posNormal, h.texA, h.texB, h.post, h.lights⟩⟩

section
variable {m : XFStateManager} {cp : CPState} {start stop : Nat}

theorem RangeNoted.fits (noted : RangeNoted m cp start stop) (fits : m.Fits)
    (order : start ≤ stop) : (m.InvalidateXFRange cp start stop).Fits where
  transform := invalidateTransform_fits order fits.transform
  normals := invalidateRegion_fits order rfl (.inl rfl)
    (show Begins 3 _ _ _ _ _ from fun _ => .inl rfl) fits.normals
  post := invalidateRegion_fits order rfl (.inr (by decide)) (fun runs => .inr (noted.post runs))
    fits.post
  lights := invalidateRegion_fits order rfl (.inr (by decide))
    (fun runs => .inr (noted.lights runs)) fits.lights

theorem invalidateXFRange_kept (fits : m.Fits) {e : Entry} (marked : m.Marked e) :
    (m.InvalidateXFRange cp start stop).Marked e := by
  cases e with
  | transform => exact invalidateTransform_marks fits.transform marked
  | normal | post | light => exact invalidateRegion_marks marked
  | posNormal => exact Bool.or_eq_true_iff.mpr (.inl marked)
  | tex e =>
      simp only [XFStateManager.Marked] at marked ⊢
      split_ifs at marked ⊢
      · exact Bool.or_eq_true_iff.mpr (.inl marked)
      · exact Bool.or_eq_true_iff.mpr (.inl marked)
  | material | dualTex | texMtxInfo | postMtxInfo | numColorChans | color | alpha => exact marked

/-- Every entry that reads a word of the range, below the registers, is marked. -/
theorem RangeNoted.marked (noted : RangeNoted m cp start stop) {e : Entry} {a : Nat}
    (reads : Reads cp e a) (lower : start ≤ a) (upper : a < stop)
    (below : a < XFMEM_REGISTERS_START) : (m.InvalidateXFRange cp start stop).Marked e := by
  cases e with
  | transform e =>
      obtain rfl : a = e := reads.trans (Nat.zero_add _)
      exact invalidateTransform_notes lower upper e.isLt
  | normal e =>
      rw [reads] at lower upper
      exact invalidateNormals_notes lower upper e.isLt
  | post e =>
      rw [reads] at lower upper
      exact invalidatePostMatrices_notes lower upper e.isLt noted.post
  | light i =>
      obtain ⟨k, rfl⟩ : ∃ k, a = XFMEM_LIGHTS + k := ⟨a - XFMEM_LIGHTS, by have := reads.1; omega⟩
      have bounds := reads
      simp only [Reads] at bounds
      have place : k / 0x10 = i := by omega
      have row := invalidateLights_notes lower upper (by have := i.isLt; omega) noted.lights
      rwa [place] at row
  | posNormal =>
      obtain ⟨w, mem, holds⟩ := reads
      exact noted.posNormal.flagged mem holds lower upper
  | tex e =>
      obtain ⟨w, mem, holds⟩ := reads
      simp only [XFStateManager.Marked]
      unfold texWindows at mem
      split_ifs at mem ⊢
      · exact noted.texA.flagged mem holds lower upper
      · exact noted.texB.flagged mem holds lower upper
  | material i | texMtxInfo i | postMtxInfo i | color i | alpha i =>
      simp only [Reads, XFMEM_SETCHAN0_AMBCOLOR, XFMEM_SETTEXMTXINFO, XFMEM_SETPOSTMTXINFO,
        XFMEM_SETCHAN0_COLOR, XFMEM_SETCHAN0_ALPHA, XFMEM_REGISTERS_START] at reads below
      omega
  | dualTex | numColorChans =>
      simp only [Reads, XFMEM_DUALTEX, XFMEM_SETNUMCHAN, XFMEM_REGISTERS_START] at reads below
      omega

end

section
variable {normalized : Nat × Nat × Nat → Nat × Nat × Nat} {s s₀ : State}

theorem Inv.xfMemWritten (inv : Inv normalized s) {start count : Nat}
    (noted : RangeNoted s.pending s.cp start (start + count)) :
    ∃ s', XFMemWritten normalized count start s = some s' ∧ Inv normalized s' ∧
      s'.manager = s.pending.InvalidateXFRange s.cp start (start + count) ∧
      s'.xfmem = s.xfmem ∧ s'.cp = s.cp := by
  obtain ⟨s₁, eq, inv₁, manager, xfmem, cp⟩ := inv.flush
  rw [← manager, ← cp] at noted
  refine ⟨s₁.note (XFStateManager.InvalidateXFRange s₁.cp start (start + count)),
    by rw [XFMemWritten, eq]; rfl, ?_, by rw [← manager, ← cp]; rfl, xfmem, cp⟩
  exact inv₁.change rfl rfl (noted.fits inv₁.fits (Nat.le_add_right ..))
    (fun e => invalidateXFRange_kept inv₁.fits) fun _ => .inr rfl

theorem Inv.writeMemory (inv : Inv normalized s) {start count : Nat} (data : Nat → Nat)
    (below : start + count ≤ XFMEM_REGISTERS_START)
    (noted : RangeNoted s.pending s.cp start (start + count)) :
    ∃ s', XF.writeMemory normalized start count data s = some s' ∧ Inv normalized s' := by
  obtain ⟨s₁, eq, inv₁, manager, -, cp⟩ := inv.xfMemWritten noted
  refine ⟨_, by rw [XF.writeMemory, eq]; rfl, inv₁.store fun e a reads lower upper => .inl ?_⟩
  rw [manager]
  exact noted.marked (cp ▸ reads) lower upper (by omega)

/-! ## Runs -/

/-- The registers that an indexed load reaches are noted already. -/
structure RegistersNoted (m : XFStateManager) (stop : Nat) : Prop where
  material : ∀ i : Fin 4, XFMEM_SETCHAN0_AMBCOLOR + i < stop → m.m_materials_changed i = true
  lighting : XFMEM_SETNUMCHAN < stop → m.m_lighting_config_changed = true

instance (m : XFStateManager) (stop : Nat) : Decidable (RegistersNoted m stop) :=
  decidable_of_iff (_ ∧ _) ⟨fun ⟨a, b⟩ => ⟨a, b⟩, fun h => ⟨h.material, h.lighting⟩⟩

/-- Loads that `InvalidateXFRange` notes all of: what is pending when they are made, after the
vertices that wait have been drawn, or what they begin in covers what they write. -/
def Meets (c : Command) (s : State) : Prop :=
  match c with
  | .loadXFReg base_address transfer_size _ =>
      base_address.toNat < XFMEM_REGISTERS_START →
        RangeNoted s.pending s.cp base_address.toNat
          (min (base_address.toNat + transfer_size.toNat) XFMEM_REGISTERS_START)
  | .loadIndexedXF address size newData =>
      differs address.toNat (size.toNat + 1) newData s = true →
        RangeNoted s.pending s.cp address.toNat (address.toNat + (size.toNat + 1)) ∧
          RegistersNoted s.pending (address.toNat + (size.toNat + 1))
  | .cp .. | .setConstants => True

instance (c : Command) (s : State) : Decidable (Meets c s) :=
  match c with
  | .loadXFReg .. => inferInstanceAs (Decidable (_ → _))
  | .loadIndexedXF .. => inferInstanceAs (Decidable (_ → _ ∧ _))
  | .cp .. | .setConstants => isTrue trivial

theorem Inv.loadXFReg (inv : Inv normalized s) {base_address : BitVec 16}
    {transfer_size : BitVec 8} {data : Nat → Nat}
    (meets : Meets (.loadXFReg base_address transfer_size data) s) :
    ∃ s', LoadXFReg normalized base_address.toNat transfer_size.toNat data s = some s' ∧
      Inv normalized s' := by
  have bound := transfer_size.isLt
  unfold LoadXFReg
  by_cases past : XFMEM_REGISTERS_END < base_address.toNat
  · rw [if_pos past]
    exact ⟨s, rfl, inv⟩
  rw [if_neg past]
  dsimp only
  by_cases memory : base_address.toNat < XFMEM_REGISTERS_START
  · have noted := meets memory
    have order : XFMEM_REGISTERS_START + 255 < XFMEM_REGISTERS_END + 255 := by decide
    rw [if_pos memory]
    by_cases registers :
        XFMEM_REGISTERS_START < min (base_address.toNat + transfer_size.toNat) XFMEM_REGISTERS_END
    · have stop : min (base_address.toNat + transfer_size.toNat) XFMEM_REGISTERS_START =
          base_address.toNat + (XFMEM_REGISTERS_START - base_address.toNat) := by omega
      rw [stop] at noted
      obtain ⟨s₁, eq, inv₁⟩ := inv.writeMemory data (by omega) noted
      obtain ⟨s', rest, inv'⟩ := inv₁.writeRegisters
        (min (base_address.toNat + transfer_size.toNat) XFMEM_REGISTERS_END - XFMEM_REGISTERS_START)
        (fun i => data (XFMEM_REGISTERS_START - base_address.toNat + i))
        (le_refl XFMEM_REGISTERS_START)
      refine ⟨s', ?_, inv'⟩
      rw [if_pos registers, eq, Option.bind_eq_bind, Option.bind_some, rest]
    · have stop : min (base_address.toNat + transfer_size.toNat) XFMEM_REGISTERS_START =
          base_address.toNat + transfer_size.toNat := by omega
      rw [stop] at noted
      rw [if_neg registers]
      exact inv.writeMemory data (by omega) noted
  · rw [if_neg memory]
    exact inv.writeRegisters _ _ (by omega)

theorem Inv.loadIndexedXF (inv : Inv normalized s) {address : BitVec 12} {size : BitVec 4}
    {newData : Nat → Nat} (meets : Meets (.loadIndexedXF address size newData) s) :
    ∃ s', LoadIndexedXF normalized address.toNat (size.toNat + 1) newData s = some s' ∧
      Inv normalized s' := by
  unfold LoadIndexedXF
  by_cases changed : differs address.toNat (size.toNat + 1) newData s = true
  · obtain ⟨noted, registers⟩ := meets changed
    obtain ⟨s₁, eq, inv₁, manager, -, cp⟩ := inv.xfMemWritten noted
    rw [if_pos changed, eq]
    refine ⟨_, rfl, inv₁.store fun e a reads lower upper => .inl ?_⟩
    rw [manager]
    rw [cp] at reads
    have bounds := And.intro address.isLt size.isLt
    by_cases below : a < XFMEM_REGISTERS_START
    · exact noted.marked reads lower upper below
    · rcases reads.register (by omega) with ⟨i, rfl, eq⟩ | ⟨marked, eq⟩ | ⟨-, eq⟩
      · exact registers.material i (by omega)
      · rw [marked]
        refine registers.lighting ?_
        rcases eq with eq | eq
        · omega
        · rw [inGroup_iff, XFMEM_SETCHAN0_COLOR] at eq
          rw [XFMEM_SETNUMCHAN]
          omega
      · rw [Bool.or_eq_true, inGroup_iff, inGroup_iff, XFMEM_DUALTEX, XFMEM_SETTEXMTXINFO,
          XFMEM_SETPOSTMTXINFO] at eq
        omega
  · rw [if_neg changed]
    exact ⟨s, rfl, inv⟩

theorem Inv.step (inv : Inv normalized s) {c : Command} (meets : Meets c s) :
    ∃ s', XF.step normalized c s = some s' ∧ Inv normalized s' := by
  cases c with
  | loadXFReg => exact inv.loadXFReg meets
  | loadIndexedXF => exact inv.loadIndexedXF meets
  | cp is_wii command value => exact inv.onCP is_wii command.toNat value
  | setConstants =>
      obtain ⟨s', eq, inv', -⟩ := inv.setConstants
      exact ⟨s', eq, inv'⟩

/-- The constants are computed from scratch, and nothing is pending. -/
def FromScratch (normalized : Nat × Nat × Nat → Nat × Nat × Nat) (s : State) : Prop :=
  s.constants = recomputed normalized s ∧ s.manager = resetChanges ∧ s.uploads = []

theorem Inv.fromScratch (start : FromScratch normalized s) : Inv normalized s := by
  obtain ⟨constants, manager, uploads⟩ := start
  exact ⟨.of_eq (congrArg _ constants), manager ▸ fits_resetChanges, by simp [uploads]⟩

/-- In a run whose loads are noted, every command is carried out, no copy of a `SetConstants`
leaves an array of the constants, and each leaves the constants as computed from scratch. -/
theorem incremental_upload (start : FromScratch normalized s₀)
    (run : Reaches (XF.step normalized) Meets s₀ s) :
    (∀ c, Meets c s → ∃ s', XF.step normalized c s = some s') ∧
      (∃ s', SetConstants normalized s = some s' ∧ s'.constants = recomputed normalized s') ∧
      ∀ upload ∈ s.uploads, upload.1 = upload.2 := by
  have inv : Inv normalized s := by
    refine run.invariant (.fromScratch start) fun c s s' inv meets next => ?_
    obtain ⟨s'', eq, inv'⟩ := inv.step meets
    exact Option.some.inj (eq.symm.trans next) ▸ inv'
  refine ⟨fun c meets => ?_, ?_, inv.exact⟩
  · obtain ⟨s', eq, -⟩ := inv.step meets
    exact ⟨s', eq⟩
  · obtain ⟨s', eq, -, constants, -, xfmem, cp, -⟩ := inv.setConstants
    refine ⟨s', eq, constants.trans ?_⟩
    exact VertexShaderConstants.eq_of_entry (funext fun e =>
      (recomputed_congr normalized s s' cp e fun a _ => congrFun xfmem a).symm)

end

/-- Every word is 0, and the constants are computed from that. -/
def zeroed (normalized : Nat × Nat × Nat → Nat × Nat × Nat) : State :=
  let s : State := {
    xfmem := fun _ => 0
    cp := ⟨fun _ => 0, fun _ => 0, 0, 0, 0, 0, fun _ => ⟨0, 0, 0⟩⟩
    manager := resetChanges
    constants := ⟨0, 0, fun _ => 0, fun _ => (0, 0, 0, 0), fun _ => ⟨(0, 0, 0, 0), (0, 0, 0),
      (0, 0, 0), (0, 0, 0), (0, 0, 0)⟩, fun _ => 0, fun _ => 0, fun _ => 0, fun _ => 0,
      fun _ => 0, fun _ => 0, fun _ => 0, fun _ => 0⟩
    dirty := true
    draws := fun _ => false
    uploads := [] }
  { s with constants := recomputed normalized s }

/-- A load that begins at the matrix in use, one into the post-transform matrices, and one that
runs on from there when their first row is pending. The directions of the lights stay 0. -/
theorem incremental_upload_threeLoads :
    ∃ s, Reaches (step id) Meets (zeroed id) s ∧ s.xfmem 0x501 = 9 ∧
      (∀ c, Meets c s → ∃ s', step id c s = some s') ∧
      (∃ s', SetConstants id s = some s' ∧ s'.constants = recomputed id s') ∧
      ∀ upload ∈ s.uploads, upload.1 = upload.2 := by
  have ends : (runActions (fun c s => if Meets c s then step id c s else none)
      [.loadXFReg 0 12 (fun i => i + 1), .setConstants, .cp false 0x30 0x41,
        .loadIndexedXF 0x500 3 (fun i => i + 2), .loadXFReg 0x4ff 3 (fun i => i + 7)]
      (zeroed id)).any fun s => s.xfmem 0x501 = 9 := by
    decide +kernel
  obtain ⟨s, run, seen⟩ := (Option.any_eq_true ..).mp ends
  have reached := Reaches.of_checked run
  exact ⟨s, reached, of_decide_eq_true seen, incremental_upload ⟨rfl, rfl, rfl⟩ reached⟩

/-- A load that runs into the post-transform matrices makes `SetConstants` copy a negative number
of bytes; one that runs into the matrix in use, and an indexed one that reaches an ambient colour,
leave the old one in the constants. -/
theorem upload_missed :
    (∃ s, Reaches (step id) (fun _ _ => True) (zeroed id) s ∧ SetConstants id s = none) ∧
    (∃ s, Reaches (step id) (fun _ _ => True) (zeroed id) s ∧ ∃ s', SetConstants id s = some s' ∧
      s'.constants.posnormalmatrix 0 ≠ (recomputed id s').posnormalmatrix 0) ∧
    ∃ s, Reaches (step id) (fun _ _ => True) (zeroed id) s ∧ ∃ s', SetConstants id s = some s' ∧
      s'.constants.materials 0 ≠ (recomputed id s').materials 0 := by
  refine ⟨?_, ?_, ?_⟩
  · have ends : (runActions (step id) [.loadXFReg 0x4ff 2 (fun _ => 1)] (zeroed id)).any fun s =>
        (SetConstants id s).isNone := by decide +kernel
    obtain ⟨s, run, seen⟩ := (Option.any_eq_true ..).mp ends
    exact ⟨s, .of_runActions run, Option.isNone_iff_eq_none.mp seen⟩
  · have ends : (runActions (step id)
        [.cp false 0x30 1, .setConstants, .loadXFReg 3 2 (fun _ => 1)] (zeroed id)).any fun s =>
        (SetConstants id s).any fun s' =>
          s'.constants.posnormalmatrix 0 ≠ (recomputed id s').posnormalmatrix 0 := by
      decide +kernel
    obtain ⟨s, run, seen⟩ := (Option.any_eq_true ..).mp ends
    obtain ⟨s', eq, stale⟩ := (Option.any_eq_true ..).mp seen
    exact ⟨s, .of_runActions run, s', eq, of_decide_eq_true stale⟩
  · have ends : (runActions (step id)
        [.loadIndexedXF 0xfff 15 (fun _ => 1)] (zeroed id)).any fun s =>
        (SetConstants id s).any fun s' =>
          s'.constants.materials 0 ≠ (recomputed id s').materials 0 := by decide +kernel
    obtain ⟨s, run, seen⟩ := (Option.any_eq_true ..).mp ends
    obtain ⟨s', eq, stale⟩ := (Option.any_eq_true ..).mp seen
    exact ⟨s, .of_runActions run, s', eq, of_decide_eq_true stale⟩

end Phocoena.XF
