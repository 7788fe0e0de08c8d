import Phocoena.VideoCommon.TextureInfo
import Mathlib.Order.Interval.Finset.Nat
import Mathlib.Data.Set.Finite.Lemmas
import Mathlib.Order.Bounds.Basic

/-! # The part of the palette in a texture's name

The indices that the texel decoder reads from a texture, and the range of the palette that
`CalculateTextureName` hashes. In the format `C14X2` the name is calculated from the first byte of
each index only, so its range is the right one only if both ends of it are multiples of 256.
-/

namespace Phocoena.Texture

open TextureFormat Tiles

/-- A texture the video hardware can describe: the registers hold width and height less one in ten
bits. -/
structure Valid (info : TextureInfo) : Prop where
  width_pos : 0 < info.raw_width
  width_le : info.raw_width ≤ 0x400
  height_pos : 0 < info.raw_height
  height_le : info.raw_height ≤ 0x400
  data_valid : info.isDataValid = true

/-- The palette indices that the texel decoder reads from the texture. -/
def indices (info : TextureInfo) : Set Nat :=
  {val | ∃ s < info.expanded_width, ∃ t < info.expanded_height,
    texelIndex info.data s t (info.raw_width - 1) info.texture_format = some val}

/-! ## Single values -/

theorem swap16_byte (b : UInt8) : (swap16 b.toUInt16 &&& 0x3fff).toNat = b.toNat % 64 * 256 := by
  have each : ∀ n < 256, (swap16 (UInt8.ofNat n).toUInt16 &&& 0x3fff).toNat = n % 64 * 256 := by
    decide +kernel
  have own := each b.toNat b.toNat_lt
  rwa [UInt8.ofNat_toNat] at own

theorem or_toNat {x y : UInt16} (low : y.toNat < 256) (high : x.toNat % 256 = 0) :
    (x ||| y).toNat = x.toNat + y.toNat := by
  have parts : x.toNat = 2 ^ 8 * (x.toNat / 256) := by omega
  rw [UInt16.toNat_or, parts, ← Nat.two_pow_add_eq_or_of_lt low]

theorem swap16_halfword (b c : UInt8) :
    (swap16 (b.toUInt16 ||| (c.toUInt16 <<< 8)) &&& 0x3fff).toNat
      = b.toNat % 64 * 256 + c.toNat := by
  have b_small : b.toNat < 256 := b.toNat_lt
  have c_small : c.toNat < 256 := c.toNat_lt
  have shifted : (c.toUInt16 <<< 8).toNat = c.toNat * 256 := by
    rw [UInt16.toNat_shiftLeft, UInt8.toNat_toUInt16, Nat.shiftLeft_eq]
    change c.toNat * 2 ^ 8 % 2 ^ 16 = _
    omega
  have joined : (b.toUInt16 ||| (c.toUInt16 <<< 8)).toNat = c.toNat * 256 + b.toNat := by
    rw [UInt16.or_comm, or_toNat (by rwa [UInt8.toNat_toUInt16]) (by rw [shifted]; omega), shifted,
      UInt8.toNat_toUInt16]
  have upper : ((b.toUInt16 ||| (c.toUInt16 <<< 8)) >>> 8).toNat = c.toNat := by
    rw [UInt16.toNat_shiftRight, joined, Nat.shiftRight_eq_div_pow]
    change (c.toNat * 256 + b.toNat) / 2 ^ 8 = _
    omega
  have lower : ((b.toUInt16 ||| (c.toUInt16 <<< 8)) <<< 8).toNat = b.toNat * 256 := by
    rw [UInt16.toNat_shiftLeft, joined, Nat.shiftLeft_eq]
    change (c.toNat * 256 + b.toNat) * 2 ^ 8 % 2 ^ 16 = _
    omega
  have swapped : (swap16 (b.toUInt16 ||| (c.toUInt16 <<< 8))).toNat
      = b.toNat * 256 + c.toNat := by
    rw [swap16, UInt16.or_comm, or_toNat (by rwa [upper]) (by rw [lower]; omega), upper, lower]
  rw [UInt16.toNat_and, swapped]
  change (b.toNat * 256 + c.toNat) &&& (2 ^ 14 - 1) = _
  rw [Nat.and_two_pow_sub_one_eq_mod]
  omega

theorem low_nibble (b : UInt8) : (b &&& 0xf).toNat = b.toNat % 16 := by
  rw [UInt8.toNat_and]
  exact Nat.and_two_pow_sub_one_eq_mod b.toNat 4

theorem high_nibble (b : UInt8) : (b >>> 4).toNat = b.toNat / 16 := by
  rw [UInt8.toNat_shiftRight, Nat.shiftRight_eq_div_pow]
  rfl

/-! ## Where the decoder reads -/

theorem alignUp_eq {value size : Nat} (pos : 0 < value) (size_pos : 0 < size) :
    alignUp value size = ((value - 1) / size + 1) * size := by
  have split := Nat.div_add_mod (value - 1) size
  have shift : value + (size - 1) = (value - 1) + size := by omega
  rw [alignUp, shift, Nat.add_mod_right, Nat.add_mul, Nat.one_mul, Nat.mul_comm]
  omega

/-- The block of a texel, and the texel in the block, are its place in the tiled texture. -/
theorem blockOf_eq (shiftS shiftT : Nat) {s t imageWidth : Nat} (s_small : s < 0x10000)
    (t_small : t < 0x10000) (width_small : imageWidth < 0xffff) :
    blockOf shiftS shiftT s t imageWidth
      = t / 2 ^ shiftT * (imageWidth / 2 ^ shiftS + 1) + s / 2 ^ shiftS := by
  have s_block := Nat.div_le_self s (2 ^ shiftS)
  have t_block := Nat.div_le_self t (2 ^ shiftT)
  have blocks := Nat.div_le_self imageWidth (2 ^ shiftS)
  rw [blockOf, Nat.shiftRight_eq_div_pow, Nat.shiftRight_eq_div_pow, Nat.shiftRight_eq_div_pow,
    u16, u16, u16, Nat.mod_eq_of_lt (by omega), Nat.mod_eq_of_lt (by omega),
    Nat.mod_eq_of_lt (by omega)]

theorem offsetInBlock_eq (shiftS shiftT s t : Nat) :
    offsetInBlock shiftS (2 ^ shiftS - 1) (2 ^ shiftT - 1) s t
      = t % 2 ^ shiftT * 2 ^ shiftS + s % 2 ^ shiftS := by
  rw [offsetInBlock, Nat.and_two_pow_sub_one_eq_mod, Nat.and_two_pow_sub_one_eq_mod,
    Nat.shiftLeft_eq]

/-- The block width and height less one, in blocks. -/
def blocks (size shift : Nat) : Nat := (size - 1) / 2 ^ shift + 1

variable {info : TextureInfo}

theorem Valid.blocks_le (valid : Valid info) (shift : Nat) :
    blocks info.raw_width shift ≤ 0x400 ∧ blocks info.raw_height shift ≤ 0x400 := by
  have columns := Nat.div_le_self (info.raw_width - 1) (2 ^ shift)
  have rows := Nat.div_le_self (info.raw_height - 1) (2 ^ shift)
  have := valid.width_pos
  have := valid.width_le
  have := valid.height_pos
  have := valid.height_le
  unfold blocks
  omega

theorem Valid.expanded (valid : Valid info) {shiftS shiftT : Nat}
    (width : getBlockWidthInTexels info.texture_format = 2 ^ shiftS)
    (height : getBlockHeightInTexels info.texture_format = 2 ^ shiftT) :
    info.expanded_width = blocks info.raw_width shiftS * 2 ^ shiftS ∧
      info.expanded_height = blocks info.raw_height shiftT * 2 ^ shiftT := by
  rw [TextureInfo.expanded_width, TextureInfo.expanded_height, width, height,
    alignUp_eq valid.width_pos (Nat.two_pow_pos shiftS),
    alignUp_eq valid.height_pos (Nat.two_pow_pos shiftT)]
  exact ⟨rfl, rfl⟩

/-- Both parts of the address of a texel, for a texel of the texture. -/
theorem Valid.texel (valid : Valid info) (shiftS shiftT : Nat) {s t : Nat} (small : 2 ^ shiftS ≤ 8)
    (low : 2 ^ shiftT ≤ 8)
    (column : s < blocks info.raw_width shiftS * 2 ^ shiftS)
    (row : t < blocks info.raw_height shiftT * 2 ^ shiftT) :
    blockOf shiftS shiftT s t (info.raw_width - 1)
      = t / 2 ^ shiftT * blocks info.raw_width shiftS + s / 2 ^ shiftS ∧
    blockOf shiftS shiftT s t (info.raw_width - 1) < 0x100000 ∧
    offsetInBlock shiftS (2 ^ shiftS - 1) (2 ^ shiftT - 1) s t
      = t % 2 ^ shiftT * 2 ^ shiftS + s % 2 ^ shiftS := by
  have width := valid.width_le
  have columns := (valid.blocks_le shiftS).1
  have rows := (valid.blocks_le shiftT).2
  have s_small : s < 0x10000 := by
    calc s < blocks info.raw_width shiftS * 2 ^ shiftS := column
      _ ≤ 0x400 * 8 := Nat.mul_le_mul columns small
      _ < 0x10000 := by decide
  have t_small : t < 0x10000 := by
    calc t < blocks info.raw_height shiftT * 2 ^ shiftT := row
      _ ≤ 0x400 * 8 := Nat.mul_le_mul rows low
      _ < 0x10000 := by decide
  have width_small : info.raw_width - 1 < 0xffff := by omega
  have block := blockOf_eq shiftS shiftT s_small t_small width_small
  refine ⟨block, ?_, offsetInBlock_eq shiftS shiftT s t⟩
  have s_tile : s / 2 ^ shiftS < blocks info.raw_width shiftS :=
    Nat.div_lt_of_lt_mul (by rwa [Nat.mul_comm] at column)
  have t_tile : t / 2 ^ shiftT + 1 ≤ blocks info.raw_height shiftT :=
    Nat.div_lt_of_lt_mul (by rwa [Nat.mul_comm] at row)
  rw [block]
  calc t / 2 ^ shiftT * blocks info.raw_width shiftS + s / 2 ^ shiftS
      < t / 2 ^ shiftT * blocks info.raw_width shiftS + blocks info.raw_width shiftS :=
        Nat.add_lt_add_left s_tile _
    _ = (t / 2 ^ shiftT + 1) * blocks info.raw_width shiftS := by ring
    _ ≤ 0x400 * 0x400 := Nat.mul_le_mul (t_tile.trans rows) columns
    _ = 0x100000 := by decide

/-! ## The values in the bytes -/

/-- The nibble at a place, the upper one of each byte first. -/
def nibble (data : List UInt8) (n : Nat) : Nat :=
  if n % 2 = 1 then (safeSpanRead8 data (n / 2)).toNat % 16
  else (safeSpanRead8 data (n / 2)).toNat / 16

theorem texelIndex_C4 (valid : Valid info) {s t : Nat}
    (column : s < blocks info.raw_width 3 * 8) (row : t < blocks info.raw_height 3 * 8) :
    texelIndex info.data s t (info.raw_width - 1) C4
      = some (nibble info.data (tileAddress (blocks info.raw_width 3) 8 8 s t)) := by
  obtain ⟨block, block_small, inside⟩ := valid.texel 3 3 (by decide)
    (by decide) column row
  change offsetInBlock 3 7 7 s t = t % 8 * 8 + s % 8 at inside
  have place : tileAddress (blocks info.raw_width 3) 8 8 s t
      = blockOf 3 3 s t (info.raw_width - 1) * 64 + offsetInBlock 3 7 7 s t := by
    rw [block, inside]
    rfl
  have within : offsetInBlock 3 7 7 s t < 64 := by
    rw [inside]
    exact inside_lt (by decide) (by decide)
  have base : u32 (blockOf 3 3 s t (info.raw_width - 1) <<< 5)
      = blockOf 3 3 s t (info.raw_width - 1) * 32 := by
    rw [u32, Nat.shiftLeft_eq]
    omega
  have parity : offsetInBlock 3 7 7 s t &&& 1 = offsetInBlock 3 7 7 s t % 2 :=
    Nat.and_two_pow_sub_one_eq_mod _ 1
  have half : offsetInBlock 3 7 7 s t >>> 1 = offsetInBlock 3 7 7 s t / 2 :=
    Nat.shiftRight_eq_div_pow _ 1
  have same_parity : tileAddress (blocks info.raw_width 3) 8 8 s t % 2
      = offsetInBlock 3 7 7 s t % 2 := by omega
  have offset : tileAddress (blocks info.raw_width 3) 8 8 s t / 2
      = blockOf 3 3 s t (info.raw_width - 1) * 32 + offsetInBlock 3 7 7 s t / 2 := by omega
  simp only [texelIndex, base, parity, half, nibble, same_parity, offset, Option.some.injEq]
  split
  · rw [low_nibble, UInt8.toNat_shiftRight]
    rfl
  · rw [low_nibble, high_nibble]
    have small := (safeSpanRead8 info.data (blockOf 3 3 s t (info.raw_width - 1) * 32
      + offsetInBlock 3 7 7 s t / 2)).toNat_lt
    omega

theorem texelIndex_C8 (valid : Valid info) {s t : Nat}
    (column : s < blocks info.raw_width 3 * 8) (row : t < blocks info.raw_height 2 * 4) :
    texelIndex info.data s t (info.raw_width - 1) C8
      = some (safeSpanRead8 info.data
        (tileAddress (blocks info.raw_width 3) 8 4 s t)).toNat := by
  obtain ⟨block, block_small, inside⟩ := valid.texel 3 2 (by decide)
    (by decide) column row
  change offsetInBlock 3 7 3 s t = t % 4 * 8 + s % 8 at inside
  have place : tileAddress (blocks info.raw_width 3) 8 4 s t
      = blockOf 3 2 s t (info.raw_width - 1) * 32 + offsetInBlock 3 7 3 s t := by
    rw [block, inside]
    rfl
  have base : u32 (blockOf 3 2 s t (info.raw_width - 1) <<< 5)
      = blockOf 3 2 s t (info.raw_width - 1) * 32 := by
    rw [u32, Nat.shiftLeft_eq]
    omega
  simp only [texelIndex, base, place]

/-- The index at a place in the format `C14X2`. -/
def halfword (data : List UInt8) (n : Nat) : Nat :=
  (safeSpanRead8 data (2 * n)).toNat % 64 * 256 + (safeSpanRead8 data (2 * n + 1)).toNat

theorem texelIndex_C14X2 (valid : Valid info) {s t : Nat}
    (column : s < blocks info.raw_width 2 * 4) (row : t < blocks info.raw_height 2 * 4) :
    texelIndex info.data s t (info.raw_width - 1) C14X2
      = some (halfword info.data (tileAddress (blocks info.raw_width 2) 4 4 s t)) := by
  obtain ⟨block, block_small, inside⟩ := valid.texel 2 2 (by decide)
    (by decide) column row
  change offsetInBlock 2 3 3 s t = t % 4 * 4 + s % 4 at inside
  have place : tileAddress (blocks info.raw_width 2) 4 4 s t
      = blockOf 2 2 s t (info.raw_width - 1) * 16 + offsetInBlock 2 3 3 s t := by
    rw [block, inside]
    rfl
  have base : u32 (blockOf 2 2 s t (info.raw_width - 1) <<< 4)
      = blockOf 2 2 s t (info.raw_width - 1) * 16 := by
    rw [u32, Nat.shiftLeft_eq]
    omega
  have double : (blockOf 2 2 s t (info.raw_width - 1) * 16 + offsetInBlock 2 3 3 s t) <<< 1
      = 2 * tileAddress (blocks info.raw_width 2) 4 4 s t := by
    rw [place, Nat.shiftLeft_eq]
    omega
  simp only [texelIndex, base, double, safeSpanRead16, swap16_halfword, halfword]

theorem read_of_lt {data : List UInt8} {n : Nat} (inside : n < data.length) :
    safeSpanRead8 data n = data[n] := by
  rw [safeSpanRead8, List.getElem?_eq_getElem inside, Option.getD_some]

theorem read_take {data : List UInt8} {n size : Nat} (inside : n < size) :
    safeSpanRead8 (data.take size) n = safeSpanRead8 data n := by
  rw [safeSpanRead8, safeSpanRead8, List.getElem?_take_of_lt inside]

theorem exists_read {data : List UInt8} {b : UInt8} (member : b ∈ data) :
    ∃ n < data.length, safeSpanRead8 data n = b := by
  obtain ⟨n, inside, eq⟩ := List.getElem_of_mem member
  exact ⟨n, inside, (read_of_lt inside).trans eq⟩

theorem read_mem {data : List UInt8} {n : Nat} (inside : n < data.length) :
    safeSpanRead8 data n ∈ data := by
  rw [read_of_lt inside]
  exact List.getElem_mem inside

def nibbles (data : List UInt8) : List Nat :=
  data.flatMap fun b => [b.toNat % 16, b.toNat / 16]

theorem scanNibbles_eq (data : List UInt8) :
    scanNibbles data = extremes (nibbles data) 0xffff 0 := by
  rw [scanNibbles, extremes, nibbles, List.foldl_flatMap]
  simp only [low_nibble, high_nibble]
  rfl

theorem scanBytes_eq (data : List UInt8) :
    scanBytes data = extremes (data.map UInt8.toNat) 0xffff 0 := by
  rw [scanBytes, extremes, List.foldl_map]

theorem scanHalfwords_eq (data : List UInt8) : scanHalfwords data
    = extremes ((everySecond data).map fun b => b.toNat % 64 * 256) 0xffff 0 := by
  rw [scanHalfwords, extremes, List.foldl_map]
  simp only [swap16_byte]

theorem mem_nibbles {data : List UInt8} {v : Nat} :
    v ∈ nibbles data ↔ ∃ n < 2 * data.length, nibble data n = v := by
  constructor
  · intro member
    obtain ⟨b, inside, part⟩ := List.mem_flatMap.mp member
    obtain ⟨n, less, rfl⟩ := exists_read inside
    rcases List.mem_cons.mp part with rfl | rest
    · refine ⟨2 * n + 1, by omega, ?_⟩
      rw [nibble, if_pos (by omega), show (2 * n + 1) / 2 = n by omega]
    · obtain rfl := List.mem_singleton.mp rest
      refine ⟨2 * n, by omega, ?_⟩
      rw [nibble, if_neg (by omega), show 2 * n / 2 = n by omega]
  · rintro ⟨n, less, rfl⟩
    refine List.mem_flatMap.mpr ⟨_, read_mem (n := n / 2) (by omega), ?_⟩
    rw [nibble]
    split
    · exact List.mem_cons_self
    · exact List.mem_cons_of_mem _ (List.mem_singleton.mpr rfl)

theorem mem_everySecond {data : List UInt8} {b : UInt8} :
    b ∈ everySecond data ↔ ∃ n, 2 * n < data.length ∧ safeSpanRead8 data (2 * n) = b := by
  induction data using everySecond.induct with
  | case1 => simp [everySecond]
  | case2 c =>
      rw [everySecond, List.mem_singleton]
      constructor
      · rintro rfl
        exact ⟨0, by simp, rfl⟩
      · rintro ⟨n, less, eq⟩
        obtain rfl : n = 0 := by
          rw [List.length_singleton] at less
          omega
        exact eq.symm
  | case3 c d data ih =>
      rw [everySecond, List.mem_cons, ih]
      constructor
      · rintro (rfl | ⟨n, less, eq⟩)
        · exact ⟨0, by simp, rfl⟩
        · exact ⟨n + 1, by simp only [List.length_cons]; omega, eq⟩
      · rintro ⟨n, less, eq⟩
        cases n with
        | zero => exact .inl eq.symm
        | succ n =>
            simp only [List.length_cons] at less
            exact .inr ⟨n, by omega, eq⟩

/-! ## The indices of a texture -/

theorem Valid.size_le (valid : Valid info) : info.texture_size ≤ info.data.length := by
  have checked := valid.data_valid
  rw [TextureInfo.isDataValid] at checked
  split at checked
  · exact absurd checked Bool.false_ne_true
  · omega

theorem Valid.palette_le (valid : Valid info) {size : Nat} (palette : info.palette_size = some size) :
    size ≤ info.tlut_data.length := by
  have checked := valid.data_valid
  rw [TextureInfo.isDataValid, palette] at checked
  split at checked
  · exact absurd checked Bool.false_ne_true
  · simp only at checked
    split at checked
    · exact absurd checked Bool.false_ne_true
    · omega

/-- The texels of the texture are at the places of a tiled grid, and every place has a texel. -/
theorem Valid.indices_eq (valid : Valid info) {shiftS shiftT : Nat} (value : Nat → Nat)
    (width : getBlockWidthInTexels info.texture_format = 2 ^ shiftS)
    (height : getBlockHeightInTexels info.texture_format = 2 ^ shiftT)
    (decode : ∀ {s t : Nat}, s < blocks info.raw_width shiftS * 2 ^ shiftS →
      t < blocks info.raw_height shiftT * 2 ^ shiftT →
      texelIndex info.data s t (info.raw_width - 1) info.texture_format
        = some (value (tileAddress (blocks info.raw_width shiftS) (2 ^ shiftS) (2 ^ shiftT) s t))) :
    indices info = {v | ∃ n < blocks info.raw_width shiftS * blocks info.raw_height shiftT
      * (2 ^ shiftS * 2 ^ shiftT), value n = v} := by
  obtain ⟨columns, rows⟩ := valid.expanded width height
  ext v
  rw [indices, columns, rows]
  constructor
  · rintro ⟨s, column, t, row, eq⟩
    rw [decode column row] at eq
    exact ⟨_, tileAddress_lt (Nat.two_pow_pos shiftS) (Nat.two_pow_pos shiftT) column row,
      Option.some.inj eq⟩
  · rintro ⟨n, inside, rfl⟩
    obtain ⟨s, column, t, row, rfl⟩ :=
      exists_tileAddress (Nat.two_pow_pos shiftS) (Nat.two_pow_pos shiftT) inside
    exact ⟨s, column, t, row, decode column row⟩

/-- Each of the formats with a palette fills blocks of 32 bytes. -/
theorem Valid.size_eq (valid : Valid info) {shiftS shiftT : Nat}
    (width : getBlockWidthInTexels info.texture_format = 2 ^ shiftS)
    (height : getBlockHeightInTexels info.texture_format = 2 ^ shiftT)
    (block : 2 ^ shiftS * 2 ^ shiftT * getTexelSizeInNibbles info.texture_format = 64) :
    info.texture_size = blocks info.raw_width shiftS * blocks info.raw_height shiftT * 32 := by
  obtain ⟨columns, rows⟩ := valid.expanded width height
  have area : blocks info.raw_width shiftS * 2 ^ shiftS * (blocks info.raw_height shiftT * 2 ^ shiftT)
      * getTexelSizeInNibbles info.texture_format
      = blocks info.raw_width shiftS * blocks info.raw_height shiftT * 64 := by
    rw [← block]
    ring
  rw [TextureInfo.texture_size, columns, rows, getTextureSizeInBytes, area]
  omega

theorem indices_C4 (valid : Valid info) (format : info.texture_format = C4) :
    indices info = {v | v ∈ nibbles (info.data.take info.texture_size)} := by
  have width : getBlockWidthInTexels info.texture_format = 2 ^ 3 := by rw [format]; rfl
  have height : getBlockHeightInTexels info.texture_format = 2 ^ 3 := by rw [format]; rfl
  have size := valid.size_eq width height (by rw [format]; rfl)
  rw [valid.indices_eq (nibble info.data) width height fun column row => by
    rw [format]
    exact texelIndex_C4 valid column row]
  have fits := valid.size_le
  ext v
  simp only [Set.mem_ofPred_eq, mem_nibbles, List.length_take]
  refine exists_congr fun n => ?_
  have bound : n < blocks info.raw_width 3 * blocks info.raw_height 3 * (2 ^ 3 * 2 ^ 3)
      ↔ n < 2 * min info.texture_size info.data.length := by omega
  rw [bound]
  refine and_congr_right fun inside => ?_
  rw [nibble, nibble, read_take (by omega)]

theorem indices_C8 (valid : Valid info) (format : info.texture_format = C8) :
    indices info = {v | v ∈ (info.data.take info.texture_size).map UInt8.toNat} := by
  have width : getBlockWidthInTexels info.texture_format = 2 ^ 3 := by rw [format]; rfl
  have height : getBlockHeightInTexels info.texture_format = 2 ^ 2 := by rw [format]; rfl
  have size := valid.size_eq width height (by rw [format]; rfl)
  have fits := valid.size_le
  rw [valid.indices_eq (fun n => (safeSpanRead8 info.data n).toNat) width height
    fun column row => by
      rw [format]
      exact texelIndex_C8 valid column row]
  ext v
  simp only [Set.mem_ofPred_eq, List.mem_map]
  constructor
  · rintro ⟨n, inside, rfl⟩
    have less : n < info.texture_size := by omega
    refine ⟨_, read_mem (n := n) ?_, ?_⟩
    · rw [List.length_take]
      omega
    · rw [read_take less]
  · rintro ⟨b, member, rfl⟩
    obtain ⟨n, inside, rfl⟩ := exists_read member
    rw [List.length_take] at inside
    exact ⟨n, by omega, by rw [read_take (by omega)]⟩

theorem indices_C14X2 (valid : Valid info) (format : info.texture_format = C14X2) :
    indices info = {v | ∃ n, 2 * n < info.texture_size ∧ halfword info.data n = v} := by
  have width : getBlockWidthInTexels info.texture_format = 2 ^ 2 := by rw [format]; rfl
  have height : getBlockHeightInTexels info.texture_format = 2 ^ 2 := by rw [format]; rfl
  have size := valid.size_eq width height (by rw [format]; rfl)
  rw [valid.indices_eq (halfword info.data) width height fun column row => by
    rw [format]
    exact texelIndex_C14X2 valid column row]
  ext v
  simp only [Set.mem_ofPred_eq]
  refine exists_congr fun n => and_congr_left fun _ => ?_
  omega

/-- What the name is calculated from in the format `C14X2`. -/
theorem mem_scanned_C14X2 (valid : Valid info) {v : Nat} :
    v ∈ (everySecond (info.data.take info.texture_size)).map (fun b => b.toNat % 64 * 256)
      ↔ ∃ n, 2 * n < info.texture_size ∧ halfword info.data n / 256 * 256 = v := by
  have fits := valid.size_le
  have upper : ∀ n, halfword info.data n / 256 * 256
      = (safeSpanRead8 info.data (2 * n)).toNat % 64 * 256 := by
    intro n
    have low := (safeSpanRead8 info.data (2 * n + 1)).toNat_lt
    rw [halfword]
    omega
  simp only [List.mem_map, mem_everySecond, List.length_take, upper]
  constructor
  · rintro ⟨b, ⟨n, inside, rfl⟩, rfl⟩
    refine ⟨n, by omega, ?_⟩
    rw [read_take (by omega)]
  · rintro ⟨n, inside, rfl⟩
    exact ⟨_, ⟨n, by omega, read_take (by omega)⟩, rfl⟩

/-! ## The range that is hashed -/

/-- The bytes of the entries from `lo` to `hi`: where they begin, and how many there are. -/
def entries (lo hi : Nat) : Nat × Nat := (2 * lo, 2 * (hi + 1 - lo))

theorem hashedPalette_of_extremes {size lo hi : Nat} (palette : info.palette_size = some size)
    (pos : 0 < size) (extremes : info.paletteExtremes = (lo, hi)) (ordered : lo ≤ hi)
    (small : hi < 0x10000) : info.hashedPalette = entries lo hi := by
  have count : 2 * (hi + 1 + 0x100000000 - lo) % 0x100000000 = 2 * (hi + 1 - lo) := by omega
  rw [TextureInfo.hashedPalette, palette, extremes]
  simp only [Option.getD_some, if_pos pos, count, entries]

theorem palette_size_of_format {format : TextureFormat} (own : info.texture_format = format)
    (indexed : isColorIndexed format = true) : info.palette_size = some (getPaletteSize format) := by
  rw [TextureInfo.palette_size, own, if_pos indexed]

variable {lo hi : Nat}

theorem hashedPalette_C4 (valid : Valid info) (format : info.texture_format = C4)
    (least : IsLeast (indices info) lo) (greatest : IsGreatest (indices info) hi) :
    info.hashedPalette = entries lo hi ∧ hi < 16 := by
  have palette := palette_size_of_format format rfl
  rw [indices_C4 valid format] at least greatest
  have small : ∀ v ∈ nibbles (info.data.take info.texture_size), v < 16 := by
    intro v member
    obtain ⟨n, _, rfl⟩ := mem_nibbles.mp member
    have byte := (safeSpanRead8 (info.data.take info.texture_size) (n / 2)).toNat_lt
    rw [nibble]
    split <;> omega
  have bound := small hi greatest.1
  refine ⟨hashedPalette_of_extremes palette (by decide) ?_ (greatest.2 least.1) (by omega), bound⟩
  rw [TextureInfo.paletteExtremes, palette]
  refine (scanNibbles_eq _).trans (extremes_eq (fun v member => ?_) (fun v _ => Nat.zero_le v)
    least greatest)
  have := small v member
  omega

theorem hashedPalette_C8 (valid : Valid info) (format : info.texture_format = C8)
    (least : IsLeast (indices info) lo) (greatest : IsGreatest (indices info) hi) :
    info.hashedPalette = entries lo hi ∧ hi < 256 := by
  have palette := palette_size_of_format format rfl
  rw [indices_C8 valid format] at least greatest
  have small : ∀ v ∈ (info.data.take info.texture_size).map UInt8.toNat, v < 256 := by
    intro v member
    obtain ⟨b, _, rfl⟩ := List.mem_map.mp member
    exact b.toNat_lt
  have bound := small hi greatest.1
  refine ⟨hashedPalette_of_extremes palette (by decide) ?_ (greatest.2 least.1) (by omega), bound⟩
  rw [TextureInfo.paletteExtremes, palette]
  refine (scanBytes_eq _).trans (extremes_eq (fun v member => ?_) (fun v _ => Nat.zero_le v)
    least greatest)
  have := small v member
  omega

/-- In the format `C14X2` both ends of the range are rounded down to a multiple of 256. -/
theorem hashedPalette_C14X2 (valid : Valid info) (format : info.texture_format = C14X2)
    (least : IsLeast (indices info) lo) (greatest : IsGreatest (indices info) hi) :
    info.hashedPalette = entries (lo / 256 * 256) (hi / 256 * 256) ∧ hi < 16384 := by
  have palette := palette_size_of_format format rfl
  rw [indices_C14X2 valid format] at least greatest
  have small : ∀ n, halfword info.data n < 16384 := by
    intro n
    have low := (safeSpanRead8 info.data (2 * n + 1)).toNat_lt
    rw [halfword]
    omega
  obtain ⟨⟨first, first_inside, first_eq⟩, below⟩ := least
  obtain ⟨⟨last, last_inside, last_eq⟩, above⟩ := greatest
  have bound : hi < 16384 := last_eq ▸ small last
  have ordered : lo ≤ hi := below ⟨last, last_inside, last_eq⟩
  have scanned : scanHalfwords (info.data.take info.texture_size)
      = (lo / 256 * 256, hi / 256 * 256) := by
    refine (scanHalfwords_eq _).trans (extremes_eq (fun v member => ?_) (fun v _ => Nat.zero_le v)
      ⟨?_, fun v member => ?_⟩ ⟨?_, fun v member => ?_⟩)
    · obtain ⟨n, _, rfl⟩ := (mem_scanned_C14X2 valid).mp member
      have := small n
      omega
    · exact (mem_scanned_C14X2 valid).mpr ⟨first, first_inside, by rw [first_eq]⟩
    · obtain ⟨n, inside, rfl⟩ := (mem_scanned_C14X2 valid).mp member
      have := below ⟨n, inside, rfl⟩
      omega
    · exact (mem_scanned_C14X2 valid).mpr ⟨last, last_inside, by rw [last_eq]⟩
    · obtain ⟨n, inside, rfl⟩ := (mem_scanned_C14X2 valid).mp member
      have := above ⟨n, inside, rfl⟩
      omega
  refine ⟨hashedPalette_of_extremes palette (by decide) ?_ (by omega) (by omega), bound⟩
  rw [TextureInfo.paletteExtremes, palette]
  exact scanned

/-! ## The name -/

theorem indices_finite (valid : Valid info) (indexed : isColorIndexed info.texture_format = true) :
    (indices info).Finite ∧ (indices info).Nonempty := by
  have column : 0 < info.expanded_width := by
    rw [TextureInfo.expanded_width, alignUp_eq valid.width_pos (by cases info.texture_format <;> decide)]
    exact Nat.mul_pos (Nat.succ_pos _) (by cases info.texture_format <;> decide)
  have row : 0 < info.expanded_height := by
    rw [TextureInfo.expanded_height,
      alignUp_eq valid.height_pos (by cases info.texture_format <;> decide)]
    exact Nat.mul_pos (Nat.succ_pos _) (by cases info.texture_format <;> decide)
  constructor
  · refine Set.Finite.subset (Set.finite_Iio 0x10000) ?_
    rintro v ⟨s, _, t, _, eq⟩
    rw [Set.mem_Iio]
    cases format : info.texture_format <;> rw [format] at eq indexed
    case C4 => exact Option.some.inj eq ▸ (UInt8.toNat_lt _).trans (by decide)
    case C8 => exact Option.some.inj eq ▸ (UInt8.toNat_lt _).trans (by decide)
    case C14X2 => exact Option.some.inj eq ▸ UInt16.toNat_lt _
    all_goals exact absurd indexed (by decide)
  · have some_value : ∃ v, texelIndex info.data 0 0 (info.raw_width - 1) info.texture_format
        = some v := by
      cases format : info.texture_format <;> rw [format] at indexed
      case C4 | C8 | C14X2 => exact ⟨_, rfl⟩
      all_goals exact absurd indexed (by decide)
    obtain ⟨v, eq⟩ := some_value
    exact ⟨v, 0, column, 0, row, eq⟩

/-- The textures differ in their palettes only. -/
structure SameTexels (info other : TextureInfo) : Prop where
  data : other.data = info.data
  texture_format : other.texture_format = info.texture_format
  raw_width : other.raw_width = info.raw_width
  raw_height : other.raw_height = info.raw_height
  mip_count : other.mip_count = info.mip_count

/-- What the hash of the palette depends on is right: exactly the entries from the smallest to the
largest index that is used. -/
structure HashesUsed (info : TextureInfo) (lo hi : Nat) : Prop where
  least : IsLeast (indices info) lo
  greatest : IsGreatest (indices info) hi
  hashed : info.hashedPalette = entries lo hi
  same_name : ∀ (XXH64 : List UInt8 → UInt64 → UInt64) (other : TextureInfo),
    SameTexels info other → Valid other →
    (∀ i, 2 * lo ≤ i → i < 2 * (hi + 1) → other.tlut_data[i]? = info.tlut_data[i]?) →
    other.calculateTextureName XXH64 = info.calculateTextureName XXH64
  inside : info.hashedPalette.1 + info.hashedPalette.2 ≤ info.palette_size.getD 0
  inside_data : info.hashedPalette.1 + info.hashedPalette.2 ≤ info.tlut_data.length
  assertion : info.sizeAssertion

/-- No palette is hashed. -/
structure HashesNothing (info : TextureInfo) : Prop where
  hashed : info.hashedPalette.2 = 0
  same_name : ∀ (XXH64 : List UInt8 → UInt64 → UInt64) (other : TextureInfo),
    SameTexels info other → Valid other →
    other.calculateTextureName XXH64 = info.calculateTextureName XXH64
  assertion : info.sizeAssertion

/-- The name depends on exactly the entries of the palette that the texture uses. -/
def NameExact (info : TextureInfo) : Prop :=
  if isColorIndexed info.texture_format then ∃ lo hi, HashesUsed info lo hi
  else HashesNothing info

theorem SameTexels.texture_size {other : TextureInfo} (same : SameTexels info other) :
    other.texture_size = info.texture_size := by
  simp only [TextureInfo.texture_size, TextureInfo.expanded_width, TextureInfo.expanded_height,
    same.texture_format, same.raw_width, same.raw_height]

theorem SameTexels.hashedPalette {other : TextureInfo} (same : SameTexels info other) :
    other.hashedPalette = info.hashedPalette := by
  have palette : other.palette_size = info.palette_size := by
    rw [TextureInfo.palette_size, TextureInfo.palette_size, same.texture_format]
  have extremes : other.paletteExtremes = info.paletteExtremes := by
    rw [TextureInfo.paletteExtremes, TextureInfo.paletteExtremes, palette, same.texture_size,
      same.data]
  rw [TextureInfo.hashedPalette, TextureInfo.hashedPalette, palette, extremes]

/-- The names are the same if the bytes that are hashed are. -/
theorem SameTexels.name {other : TextureInfo} (same : SameTexels info other) (valid : Valid info)
    (other_valid : Valid other)
    (bytes : (other.tlut_data.drop info.hashedPalette.1).take info.hashedPalette.2
      = (info.tlut_data.drop info.hashedPalette.1).take info.hashedPalette.2)
    (XXH64 : List UInt8 → UInt64 → UInt64) :
    other.calculateTextureName XXH64 = info.calculateTextureName XXH64 := by
  simp only [TextureInfo.calculateTextureName, valid.data_valid, other_valid.data_valid,
    same.hashedPalette, bytes, same.texture_size, same.data, same.raw_width, same.raw_height,
    same.mip_count, same.texture_format]

theorem sameBytes {first second : List UInt8}
    (agree : ∀ i, 2 * lo ≤ i → i < 2 * (hi + 1) → first[i]? = second[i]?) :
    (first.drop (entries lo hi).1).take (entries lo hi).2
      = (second.drop (entries lo hi).1).take (entries lo hi).2 := by
  refine List.ext_getElem? fun i => ?_
  simp only [entries, List.getElem?_take, List.getElem?_drop]
  split
  · exact agree _ (Nat.le_add_right _ _) (by omega)
  · rfl

theorem hashesUsed_of_eq (valid : Valid info) {size : Nat} (palette : info.palette_size = some size)
    (least : IsLeast (indices info) lo) (greatest : IsGreatest (indices info) hi)
    (hashed : info.hashedPalette = entries lo hi) (inside : 2 * (hi + 1) ≤ size) :
    HashesUsed info lo hi := by
  have ordered : lo ≤ hi := greatest.2 least.1
  have stop : (entries lo hi).1 + (entries lo hi).2 ≤ size := by
    simp only [entries]
    omega
  refine ⟨least, greatest, hashed, fun XXH64 other same other_valid agree => ?_, ?_, ?_, ?_⟩
  · refine same.name valid other_valid ?_ XXH64
    rw [hashed]
    exact sameBytes agree
  · rw [hashed, palette]
    exact stop
  · rw [hashed]
    exact stop.trans (valid.palette_le palette)
  · rw [TextureInfo.sizeAssertion, hashed, palette]
    exact (Nat.le_add_left _ _).trans stop

theorem entries_inj {lo' hi' : Nat} (ordered : lo ≤ hi) (ordered' : lo' ≤ hi')
    (same : entries lo hi = entries lo' hi') : lo = lo' ∧ hi = hi' := by
  obtain ⟨first, second⟩ := Prod.mk.inj same
  omega

theorem hashesNothing (valid : Valid info) (plain : isColorIndexed info.texture_format = false) :
    HashesNothing info := by
  have palette : info.palette_size = none := by
    rw [TextureInfo.palette_size, plain]
    rfl
  have hashed : info.hashedPalette = (0, 0) := by
    rw [TextureInfo.hashedPalette, palette]
    rfl
  refine ⟨by rw [hashed], fun XXH64 other same other_valid => ?_, ?_⟩
  · refine same.name valid other_valid ?_ XXH64
    rw [hashed]
    simp only [List.take_zero]
  · rw [TextureInfo.sizeAssertion, hashed]
    exact Nat.zero_le _

/-- The name depends on exactly the entries that are used, unless the format is `C14X2` and the
smallest or the largest index is not a multiple of 256. -/
theorem nameExact_iff (info : TextureInfo) (valid : Valid info) :
    NameExact info ↔ (info.texture_format = C14X2 →
      ∀ i, IsLeast (indices info) i ∨ IsGreatest (indices info) i → i % 256 = 0) := by
  cases indexed : isColorIndexed info.texture_format with
  | false =>
      have not_halfwords : info.texture_format ≠ C14X2 := fun eq => by
        rw [eq] at indexed
        exact absurd indexed (by decide)
      rw [NameExact, indexed]
      exact iff_of_true (hashesNothing valid indexed) fun eq => absurd eq not_halfwords
  | true =>
      obtain ⟨finite, nonempty⟩ := indices_finite valid indexed
      obtain ⟨lo, lo_used, below⟩ := Set.exists_min_image (indices info) id finite nonempty
      obtain ⟨hi, hi_used, above⟩ := Set.exists_max_image (indices info) id finite nonempty
      have least : IsLeast (indices info) lo := ⟨lo_used, fun i used => below i used⟩
      have greatest : IsGreatest (indices info) hi := ⟨hi_used, fun i used => above i used⟩
      rw [NameExact, if_pos indexed]
      by_cases halfwords : info.texture_format = C14X2
      · have palette := palette_size_of_format halfwords rfl
        obtain ⟨hashed, bound⟩ := hashedPalette_C14X2 valid halfwords least greatest
        constructor
        · rintro ⟨lo', hi', used⟩ _ i member
          have lo_eq := used.least.unique least
          have hi_eq := used.greatest.unique greatest
          have ordered : lo ≤ hi := greatest.2 least.1
          have same := used.hashed.symm.trans hashed
          rw [lo_eq, hi_eq] at same
          obtain ⟨lo_round, hi_round⟩ := entries_inj ordered (by omega) same
          cases member with
          | inl smallest => rw [smallest.unique least]; omega
          | inr largest => rw [largest.unique greatest]; omega
        · intro round
          have lo_round := round halfwords lo (.inl least)
          have hi_round := round halfwords hi (.inr greatest)
          have lo_eq : lo / 256 * 256 = lo :=
            Nat.div_mul_cancel (Nat.dvd_of_mod_eq_zero lo_round)
          have hi_eq : hi / 256 * 256 = hi :=
            Nat.div_mul_cancel (Nat.dvd_of_mod_eq_zero hi_round)
          rw [lo_eq, hi_eq] at hashed
          exact ⟨lo, hi, hashesUsed_of_eq valid palette least greatest hashed (by
            simp only [getPaletteSize]
            omega)⟩
      · refine iff_of_true ?_ fun eq => absurd eq halfwords
        cases format : info.texture_format <;> rw [format] at indexed halfwords
        case C4 =>
          obtain ⟨hashed, bound⟩ := hashedPalette_C4 valid format least greatest
          exact ⟨lo, hi, hashesUsed_of_eq valid (palette_size_of_format format rfl) least greatest
            hashed (by simp only [getPaletteSize]; omega)⟩
        case C8 =>
          obtain ⟨hashed, bound⟩ := hashedPalette_C8 valid format least greatest
          exact ⟨lo, hi, hashesUsed_of_eq valid (palette_size_of_format format rfl) least greatest
            hashed (by simp only [getPaletteSize]; omega)⟩
        case C14X2 => exact absurd rfl halfwords
        all_goals exact absurd indexed (by decide)

/-- One texel in the format `C14X2`; every index in its block is 1. -/
def oneTexel : TextureInfo where
  data := [0, 1, 0, 1, 0, 1, 0, 1, 0, 1, 0, 1, 0, 1, 0, 1,
    0, 1, 0, 1, 0, 1, 0, 1, 0, 1, 0, 1, 0, 1, 0, 1]
  tlut_data := List.replicate 32768 0
  texture_format := C14X2
  raw_width := 1
  raw_height := 1
  mip_count := none

theorem oneTexel_valid : Valid oneTexel := by
  have size : oneTexel.texture_size = 32 := by decide
  have palette : oneTexel.palette_size = some 32768 := palette_size_of_format rfl rfl
  have entries : oneTexel.tlut_data.length = 32768 := List.length_replicate
  refine ⟨by decide, by decide, by decide, by decide, ?_⟩
  rw [TextureInfo.isDataValid, size, palette]
  simp only [entries]
  rfl

theorem oneTexel_least : IsLeast (indices oneTexel) 1 := by
  have size : oneTexel.texture_size = 32 := by decide
  rw [indices_C14X2 oneTexel_valid rfl, size]
  refine ⟨⟨0, by decide, by decide⟩, ?_⟩
  rintro v ⟨n, inside, rfl⟩
  have each : ∀ n < 16, 1 ≤ halfword oneTexel.data n := by decide
  exact each n (by omega)

theorem nameExact_iff_oneTexel :
    NameExact oneTexel ↔ (oneTexel.texture_format = C14X2 →
      ∀ i, IsLeast (indices oneTexel) i ∨ IsGreatest (indices oneTexel) i → i % 256 = 0) :=
  nameExact_iff oneTexel oneTexel_valid

/-- The palette entry 0 is hashed instead of the entry 1. -/
theorem oneTexel_not_exact : Valid oneTexel ∧ ¬ NameExact oneTexel := by
  refine ⟨oneTexel_valid, fun exact_name => ?_⟩
  rw [NameExact, if_pos (by decide)] at exact_name
  obtain ⟨lo, hi, used⟩ := exact_name
  have lo_eq : lo = 1 := used.least.unique oneTexel_least
  have first := congrArg Prod.fst used.hashed
  rw [(hashedPalette_C14X2 oneTexel_valid rfl used.least used.greatest).1, lo_eq] at first
  simp [entries] at first

end Phocoena.Texture
