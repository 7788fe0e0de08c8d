import Mathlib.Algebra.Order.Ring.Int
import Mathlib.Data.List.Basic
import Mathlib.Logic.Function.Basic

/-! # The command processor's memory

The registers that the commands of the FIFO load, and the size of a vertex that they describe. A
register is the number in it; its bit fields are read from that number.
-/

namespace Phocoena.CPMemory

def bitField (start count hex : Nat) : Nat := hex / 2 ^ start % 2 ^ count

structure VAT where
  g0 : Nat
  g1 : Nat
  g2 : Nat

structure CPState where
  array_bases : Nat → Nat
  array_strides : Nat → Nat
  matrix_index_a : Nat
  matrix_index_b : Nat
  vtx_desc_low : Nat
  vtx_desc_high : Nat
  vtx_attr : Nat → VAT

def GetPhysicalAddressMask (is_wii : Bool) : Nat := if is_wii then 0x1fffffff else 0x03ffffff

def CPState.LoadCPReg (is_wii : Bool) (sub_cmd value : Nat) (s : CPState) : CPState :=
  let vat := sub_cmd % 8
  let array := sub_cmd % 16
  match sub_cmd / 16 % 16 with
  | 0x3 => { s with matrix_index_a := value }
  | 0x4 => { s with matrix_index_b := value }
  | 0x5 => { s with vtx_desc_low := value }
  | 0x6 => { s with vtx_desc_high := value }
  | 0x7 => { s with
      vtx_attr := Function.update s.vtx_attr vat { s.vtx_attr vat with g0 := value } }
  | 0x8 => { s with
      vtx_attr := Function.update s.vtx_attr vat { s.vtx_attr vat with g1 := value } }
  | 0x9 => { s with
      vtx_attr := Function.update s.vtx_attr vat { s.vtx_attr vat with g2 := value } }
  | 0xa => { s with
      array_bases := Function.update s.array_bases array
        (value &&& GetPhysicalAddressMask is_wii) }
  | 0xb => { s with array_strides := Function.update s.array_strides array (value % 256) }
  | _ => s

/-! ## Bit fields of the vertex description and the attribute table -/

def Position (low : Nat) : Nat := bitField 9 2 low
def Normal (low : Nat) : Nat := bitField 11 2 low
def Color (i low : Nat) : Nat := bitField (13 + 2 * i) 2 low
def TexCoord (i high : Nat) : Nat := bitField (2 * i) 2 high

namespace VAT

def PosElements (vat : VAT) : Nat := bitField 0 1 vat.g0
def PosFormat (vat : VAT) : Nat := bitField 1 3 vat.g0
def NormalElements (vat : VAT) : Nat := bitField 9 1 vat.g0
def NormalFormat (vat : VAT) : Nat := bitField 10 3 vat.g0
def NormalIndex3 (vat : VAT) : Nat := bitField 31 1 vat.g0

def GetColorFormat (vat : VAT) : Nat → Nat
  | 0 => bitField 14 3 vat.g0
  | 1 => bitField 18 3 vat.g0
  | _ => 0

def GetTexElements (vat : VAT) : Nat → Nat
  | 0 => bitField 21 1 vat.g0
  | 1 => bitField 0 1 vat.g1
  | 2 => bitField 9 1 vat.g1
  | 3 => bitField 18 1 vat.g1
  | 4 => bitField 27 1 vat.g1
  | 5 => bitField 5 1 vat.g2
  | 6 => bitField 14 1 vat.g2
  | 7 => bitField 23 1 vat.g2
  | _ => 0

def GetTexFormat (vat : VAT) : Nat → Nat
  | 0 => bitField 22 3 vat.g0
  | 1 => bitField 1 3 vat.g1
  | 2 => bitField 10 3 vat.g1
  | 3 => bitField 19 3 vat.g1
  | 4 => bitField 28 3 vat.g1
  | 5 => bitField 6 3 vat.g2
  | 6 => bitField 15 3 vat.g2
  | 7 => bitField 24 3 vat.g2
  | _ => 0

end VAT

/-! ## Sizes

The component formats are 0 for none, 1 for a direct one, 2 for an 8-bit and 3 for a 16-bit
index.
-/

/-- The entries of the size tables for a direct component: unsigned and signed bytes, unsigned
and signed shorts, floats and what is taken for one. -/
def directSize (byte short float : Nat) : Nat → Nat
  | 0 | 1 => byte
  | 2 | 3 => short
  | _ => float

def VertexLoader_Position.GetSize (type format elements : Nat) : Nat :=
  match type, elements with
  | 0, _ => 0
  | 1, 0 => directSize 2 4 8 format
  | 1, _ => directSize 3 6 12 format
  | 2, _ => 1
  | _, _ => 2

def VertexLoader_Normal.GetSize (type format elements index3 : Nat) : Nat :=
  match type, elements, index3 with
  | 0, _, _ => 0
  | 1, 0, _ => directSize 3 6 12 format
  | 1, _, _ => directSize 9 18 36 format
  | 2, 1, 1 => 3
  | 2, _, _ => 1
  | _, 1, 1 => 6
  | _, _, _ => 2

def VertexLoader_Color.GetSize (type format : Nat) : Nat :=
  if 5 < format then 0
  else
    match type, format with
    | 0, _ => 0
    | 1, 0 | 1, 3 => 2
    | 1, 1 | 1, 4 => 3
    | 1, _ => 4
    | 2, _ => 1
    | _, _ => 2

def VertexLoader_TextCoord.GetSize (type format elements : Nat) : Nat :=
  match type, elements with
  | 0, _ => 0
  | 1, 0 => directSize 1 2 4 format
  | 1, _ => directSize 2 4 8 format
  | 2, _ => 1
  | _, _ => 2

/-- The size of a vertex of the given attribute group. -/
def CPState.GetVertexSize (s : CPState) (group : Nat) : Nat :=
  let vat := s.vtx_attr group
  -- the matrix indices that are present take a byte each
  ((List.range 9).map fun i => bitField i 1 s.vtx_desc_low).sum +
    VertexLoader_Position.GetSize (Position s.vtx_desc_low) vat.PosFormat vat.PosElements +
    VertexLoader_Normal.GetSize (Normal s.vtx_desc_low) vat.NormalFormat vat.NormalElements
      vat.NormalIndex3 +
    ((List.range 2).map fun i =>
      VertexLoader_Color.GetSize (Color i s.vtx_desc_low) (vat.GetColorFormat i)).sum +
    ((List.range 8).map fun i =>
      VertexLoader_TextCoord.GetSize (TexCoord i s.vtx_desc_high) (vat.GetTexFormat i)
        (vat.GetTexElements i)).sum

theorem directSize_le {byte short float : Nat} (short_le : byte ≤ short) (float_le : short ≤ float)
    (format : Nat) : directSize byte short float format ≤ float := by
  unfold directSize
  split <;> omega

theorem position_size_le (type format elements : Nat) :
    VertexLoader_Position.GetSize type format elements ≤ 12 := by
  unfold VertexLoader_Position.GetSize
  have two := @directSize_le 2 4 8 (by omega) (by omega) format
  have three := @directSize_le 3 6 12 (by omega) (by omega) format
  split <;> omega

theorem normal_size_le (type format elements index3 : Nat) :
    VertexLoader_Normal.GetSize type format elements index3 ≤ 36 := by
  unfold VertexLoader_Normal.GetSize
  have one := @directSize_le 3 6 12 (by omega) (by omega) format
  have three := @directSize_le 9 18 36 (by omega) (by omega) format
  split <;> omega

theorem color_size_le (type format : Nat) : VertexLoader_Color.GetSize type format ≤ 4 := by
  unfold VertexLoader_Color.GetSize
  split
  · omega
  · split <;> omega

theorem textCoord_size_le (type format elements : Nat) :
    VertexLoader_TextCoord.GetSize type format elements ≤ 8 := by
  unfold VertexLoader_TextCoord.GetSize
  have one := @directSize_le 1 2 4 (by omega) (by omega) format
  have two := @directSize_le 2 4 8 (by omega) (by omega) format
  split <;> omega

theorem sum_range_le {f : Nat → Nat} {bound : Nat} (le : ∀ i, f i ≤ bound) (count : Nat) :
    ((List.range count).map f).sum ≤ count * bound := by
  induction count with
  | zero => simp
  | succ count ih =>
      have last := le count
      rw [List.range_succ, List.map_append, List.sum_append, List.map_singleton,
        List.sum_singleton, Nat.succ_mul]
      omega

/-- A vertex has at most 129 bytes, whatever is in the registers. -/
theorem CPState.vertexSize_le (s : CPState) (group : Nat) : s.GetVertexSize group ≤ 129 := by
  have index_le (i : Nat) : bitField i 1 s.vtx_desc_low ≤ 1 :=
    Nat.lt_succ_iff.mp (Nat.mod_lt _ (by decide))
  have indices := sum_range_le index_le 9
  have colors := sum_range_le (fun i =>
    color_size_le (Color i s.vtx_desc_low) ((s.vtx_attr group).GetColorFormat i)) 2
  have coords := sum_range_le (fun i =>
    textCoord_size_le (TexCoord i s.vtx_desc_high) ((s.vtx_attr group).GetTexFormat i)
      ((s.vtx_attr group).GetTexElements i)) 8
  have position := position_size_le (Position s.vtx_desc_low) (s.vtx_attr group).PosFormat
    (s.vtx_attr group).PosElements
  have normal := normal_size_le (Normal s.vtx_desc_low) (s.vtx_attr group).NormalFormat
    (s.vtx_attr group).NormalElements (s.vtx_attr group).NormalIndex3
  unfold CPState.GetVertexSize
  dsimp only
  omega

end Phocoena.CPMemory
