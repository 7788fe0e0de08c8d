import Phocoena.VideoCommon.VertexShaderManager

/-! # Loads into the transform unit

The commands that write the memory of the transform unit or the matrix indices. Each notes what
it changes, and draws the vertices that wait before it does. The words of a load are numbers in
host order already.
-/

namespace Phocoena.XF

open CPMemory (bitField CPState)

namespace State

/-- The words `data 0`, …, `data (count - 1)` are written from `base` on. -/
def store (base count : Nat) (data : Nat → Nat) (s : State) : State :=
  { s with xfmem := fun a => if base ≤ a ∧ a < base + count then data (a - base) else s.xfmem a }

def note (f : XFStateManager → XFStateManager) (s : State) : State :=
  { s with manager := f s.manager }

end State

section
variable (normalized : Nat × Nat × Nat → Nat × Nat × Nat)

/-- `if (c) Flush();` -/
def flushIf (c : Bool) (s : State) : Option State := if c then Flush normalized s else some s

def changeMatrixIndexA (value : Nat) (s : State) : State :=
  { s with
    manager := { s.manager with
      m_pos_normal_matrix_changed :=
        s.manager.m_pos_normal_matrix_changed || PosNormalMtxIdx s.cp != value % 64
      m_tex_matrices_changed_a := true }
    cp := { s.cp with matrix_index_a := value } }

def changeMatrixIndexB (value : Nat) (s : State) : State :=
  { s with
    manager := { s.manager with m_tex_matrices_changed_b := true }
    cp := { s.cp with matrix_index_b := value } }

def SetTexMatrixChangedA (value : Nat) (s : State) : Option State :=
  if s.cp.matrix_index_a ≠ value then (Flush normalized s).map (changeMatrixIndexA value)
  else some s

def SetTexMatrixChangedB (value : Nat) (s : State) : Option State :=
  if s.cp.matrix_index_b ≠ value then (Flush normalized s).map (changeMatrixIndexB value)
  else some s

def XFMemWritten (transferSize baseAddress : Nat) (s : State) : Option State := do
  let s ← Flush normalized s
  some (s.note (XFStateManager.InvalidateXFRange s.cp baseAddress (baseAddress + transferSize)))

/-- The address is one of `count` from `first`. -/
def inGroup (first count address : Nat) : Bool :=
  decide (first ≤ address ∧ address < first + count)

/-- The colour of a channel, of which `index` is the place among the materials. -/
def materialWritten (index : Fin 4) (address value : Nat) (s : State) : Option State :=
  if s.xfmem address ≠ value then do
    let s ← Flush normalized s
    some (s.note (XFStateManager.SetMaterialColorChanged index))
  else some s

def XFRegWritten (address value : Nat) (s : State) : Option State :=
  if address = XFMEM_SETNUMCHAN then do
    let s ← flushIf normalized (bitField 0 2 (s.xfmem XFMEM_SETNUMCHAN) != value % 4) s
    some (s.note XFStateManager.SetLightingConfigChanged)
  else if inGroup XFMEM_SETCHAN0_AMBCOLOR 2 address then
    materialWritten normalized (Fin.ofNat 4 (address - XFMEM_SETCHAN0_AMBCOLOR)) address value s
  else if inGroup XFMEM_SETCHAN0_MATCOLOR 2 address then
    materialWritten normalized (Fin.ofNat 4 (address - XFMEM_SETCHAN0_MATCOLOR + 2)) address value s
  else if inGroup XFMEM_SETCHAN0_COLOR 4 address then do
    let s ← flushIf normalized (s.xfmem address != value % 0x8000) s
    some (s.note XFStateManager.SetLightingConfigChanged)
  else if address = XFMEM_DUALTEX then do
    let s ← flushIf normalized (bitField 0 1 (s.xfmem XFMEM_DUALTEX) != value % 2) s
    some (s.note XFStateManager.SetTexMatrixInfoChanged)
  else if address = XFMEM_SETMATRIXINDA then SetTexMatrixChangedA normalized value s
  else if address = XFMEM_SETMATRIXINDB then SetTexMatrixChangedB normalized value s
  else if inGroup XFMEM_SETVIEWPORT 6 address then Flush normalized s
  else if inGroup XFMEM_SETPROJECTION 7 address then Flush normalized s
  else if address = XFMEM_SETNUMTEXGENS then
    flushIf normalized (bitField 0 4 (s.xfmem XFMEM_SETNUMTEXGENS) != value % 16) s
  else if inGroup XFMEM_SETTEXMTXINFO 8 address || inGroup XFMEM_SETPOSTMTXINFO 8 address then do
    let s ← Flush normalized s
    some (s.note XFStateManager.SetTexMatrixInfoChanged)
  else some s

/-- The loop over the registers from `address` on. -/
def writeRegisters : Nat → Nat → (Nat → Nat) → State → Option State
  | 0, _, _, s => some s
  | count + 1, address, data, s => do
      let s ← XFRegWritten normalized address (data 0) s
      writeRegisters count (address + 1) (fun i => data (i + 1)) (s.store address 1 data)

/-- The part of a load that is below the registers. -/
def writeMemory (base count : Nat) (data : Nat → Nat) (s : State) : Option State := do
  let s ← XFMemWritten normalized count base s
  some (s.store base count data)

def LoadXFReg (base_address transfer_size : Nat) (data : Nat → Nat) (s : State) : Option State :=
  if XFMEM_REGISTERS_END < base_address then some s
  else
    -- do not allow writes past registers
    let end_address := min (base_address + transfer_size) XFMEM_REGISTERS_END
    if base_address < XFMEM_REGISTERS_START then
      if XFMEM_REGISTERS_START < end_address then do
        let xf_mem_transfer_size := XFMEM_REGISTERS_START - base_address
        let s ← writeMemory normalized base_address xf_mem_transfer_size data s
        writeRegisters normalized (end_address - XFMEM_REGISTERS_START) XFMEM_REGISTERS_START
          (fun i => data (xf_mem_transfer_size + i)) s
      else writeMemory normalized base_address transfer_size data s
    else writeRegisters normalized (end_address - base_address) base_address data s

/-- A word of the load is not in the memory yet. -/
def differs (address size : Nat) (newData : Nat → Nat) (s : State) : Bool :=
  (List.range size).any fun i => s.xfmem (address + i) != newData i

def LoadIndexedXF (address size : Nat) (newData : Nat → Nat) (s : State) : Option State :=
  if differs address size newData s then do
    let s ← XFMemWritten normalized size address s
    some (s.store address size newData)
  else some s

/-- A register of the command processor is loaded. -/
def OnCP (is_wii : Bool) (command value : Nat) (s : State) : Option State := do
  let s ←
    if command / 16 % 16 = 3 then SetTexMatrixChangedA normalized value s
    else if command / 16 % 16 = 4 then SetTexMatrixChangedB normalized value s
    else some s
  some { s with cp := s.cp.LoadCPReg is_wii command value }

/-! ## Commands -/

inductive Command where
  /-- Any base address and size, as the function takes them. -/
  | loadXFReg (base_address : BitVec 16) (transfer_size : BitVec 8) (data : Nat → Nat)
  /-- The address and the size, less one, are fields of the command. -/
  | loadIndexedXF (address : BitVec 12) (size : BitVec 4) (newData : Nat → Nat)
  | cp (is_wii : Bool) (command : BitVec 8) (value : Nat)
  | setConstants

def step : Command → State → Option State
  | .loadXFReg base_address transfer_size data =>
      LoadXFReg normalized base_address.toNat transfer_size.toNat data
  | .loadIndexedXF address size newData =>
      LoadIndexedXF normalized address.toNat (size.toNat + 1) newData
  | .cp is_wii command value => OnCP normalized is_wii command.toNat value
  | .setConstants => SetConstants normalized

end

end Phocoena.XF
