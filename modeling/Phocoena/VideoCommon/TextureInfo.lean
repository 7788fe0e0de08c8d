import Phocoena.Lib.Tiles

/-! # The name of a texture

`TextureInfo` (`VideoCommon/TextureInfo.cpp`) names a custom texture by hashes of its texels and
of the part of its palette that it uses; `TexDecoder_DecodeTexel`
(`VideoCommon/TextureDecoder_Common.cpp`) looks up the colors of the texels. Of the decoder only
the formats with a palette are embedded, up to the palette index they read.
-/

namespace Phocoena.Texture

inductive TextureFormat where
  | I4 | I8 | IA4 | IA8 | RGB565 | RGB5A3 | RGBA8 | C4 | C8 | C14X2 | CMPR | XFB
deriving DecidableEq, Repr

open TextureFormat

/-- The value of the format in the GX registers. -/
def TextureFormat.toInt : TextureFormat → Nat
  | I4 => 0x0 | I8 => 0x1 | IA4 => 0x2 | IA8 => 0x3 | RGB565 => 0x4 | RGB5A3 => 0x5
  | RGBA8 => 0x6 | C4 => 0x8 | C8 => 0x9 | C14X2 => 0xA | CMPR => 0xE | XFB => 0xF

def isColorIndexed (format : TextureFormat) : Bool :=
  format = C4 || format = C8 || format = C14X2

def getTexelSizeInNibbles : TextureFormat → Nat
  | I4 | C4 => 1
  | I8 | IA4 | C8 => 2
  | IA8 | RGB565 | RGB5A3 | C14X2 => 4
  | RGBA8 => 8
  | CMPR => 1
  | XFB => 4

def getTextureSizeInBytes (width height : Nat) (format : TextureFormat) : Nat :=
  (width * height * getTexelSizeInNibbles format) / 2

def getBlockWidthInTexels : TextureFormat → Nat
  | I4 | C4 => 8
  | I8 | IA4 | C8 => 8
  | IA8 | RGB565 | RGB5A3 | C14X2 => 4
  | RGBA8 => 4
  | CMPR => 8
  | XFB => 16

def getBlockHeightInTexels : TextureFormat → Nat
  | I4 | C4 => 8
  | I8 | IA4 | C8 => 4
  | IA8 | RGB565 | RGB5A3 | C14X2 => 4
  | RGBA8 => 4
  | CMPR => 8
  | XFB => 1

def getPaletteSize : TextureFormat → Nat
  | C4 => 16 * 2
  | C8 => 256 * 2
  | C14X2 => 16384 * 2
  | _ => 0

def alignUp (value size : Nat) : Nat :=
  (value + (size - 1)) - (value + (size - 1)) % size

def swap16 (data : UInt16) : UInt16 := (data >>> 8) ||| (data <<< 8)

/-- What the constructor of `TextureInfo` is given. -/
structure TextureInfo where
  data : List UInt8
  tlut_data : List UInt8
  texture_format : TextureFormat
  raw_width : Nat
  raw_height : Nat
  mip_count : Option Nat

namespace TextureInfo

variable (info : TextureInfo)

def palette_size : Option Nat :=
  if isColorIndexed info.texture_format then some (getPaletteSize info.texture_format) else none

def expanded_width : Nat := alignUp info.raw_width (getBlockWidthInTexels info.texture_format)

def expanded_height : Nat := alignUp info.raw_height (getBlockHeightInTexels info.texture_format)

def texture_size : Nat :=
  getTextureSizeInBytes info.expanded_width info.expanded_height info.texture_format

def isDataValid : Bool :=
  if info.data.length < info.texture_size then false
  else match info.palette_size with
    | some size => if info.tlut_data.length < size then false else true
    | none => true

end TextureInfo

/-! ## `CalculateTextureName` -/

/-- The bytes at the positions `0`, `2`, `4`, … -/
def everySecond : List UInt8 → List UInt8
  | [] => []
  | [b] => [b]
  | b :: _ :: data => b :: everySecond data

/-- The loop of the case `16 * 2`. -/
def scanNibbles (data : List UInt8) : Nat × Nat :=
  data.foldl (fun (r : Nat × Nat) (b : UInt8) =>
    let low_nibble := (b &&& 0xf).toNat
    let high_nibble := (b >>> 4).toNat
    (min (min r.1 low_nibble) high_nibble, max (max r.2 low_nibble) high_nibble)) (0xffff, 0)

/-- The loop of the case `256 * 2`. -/
def scanBytes (data : List UInt8) : Nat × Nat :=
  data.foldl (fun (r : Nat × Nat) (b : UInt8) => (min r.1 b.toNat, max r.2 b.toNat)) (0xffff, 0)

/-- The loop of the case `16384 * 2`. Its argument of `swap16` is one byte. -/
def scanHalfwords (data : List UInt8) : Nat × Nat :=
  (everySecond data).foldl (fun (r : Nat × Nat) (b : UInt8) =>
    let texture_halfword := (swap16 b.toUInt16 &&& 0x3fff).toNat
    (min r.1 texture_halfword, max r.2 texture_halfword)) (0xffff, 0)

namespace TextureInfo

variable (info : TextureInfo)

/-- `min` and `max` behind the `switch`. -/
def paletteExtremes : Nat × Nat :=
  let tlut_size := info.palette_size.getD 0
  let data := info.data.take info.texture_size
  if tlut_size = 16 * 2 then scanNibbles data
  else if tlut_size = 256 * 2 then scanBytes data
  else if tlut_size = 16384 * 2 then scanHalfwords data
  else (0xffff, 0)

/-- How far `tlut` is moved into the palette, and `tlut_size`, a difference of two `u32`. -/
def hashedPalette : Nat × Nat :=
  let tlut_size := info.palette_size.getD 0
  let min := info.paletteExtremes.1
  let max := info.paletteExtremes.2
  if 0 < tlut_size then (2 * min, 2 * (max + 1 + 0x100000000 - min) % 0x100000000)
  else (0, tlut_size)

/-- `DEBUG_ASSERT(tlut_size <= m_palette_size.value_or(0))` -/
def sizeAssertion : Prop := info.hashedPalette.2 ≤ info.palette_size.getD 0

end TextureInfo

structure NameDetails where
  base_name : String
  texture_name : String
  tlut_name : String
  format_name : String
deriving DecidableEq

/-- `fmt::format("{:016x}", hash)` -/
def hex016 (hash : UInt64) : String :=
  String.ofList ((Nat.toDigits 16 hash.toNat).leftpad 16 '0')

/-- `XXH64` is a function of the bytes and the seed. -/
def TextureInfo.calculateTextureName (XXH64 : List UInt8 → UInt64 → UInt64) (info : TextureInfo) :
    NameDetails :=
  if !info.isDataValid then ⟨"", "", "", ""⟩
  else
    let tlut := info.hashedPalette.1
    let tlut_size := info.hashedPalette.2
    let tex_hash := XXH64 (info.data.take info.texture_size) 0
    let tlut_hash := if tlut_size ≠ 0 then XXH64 ((info.tlut_data.drop tlut).take tlut_size) 0 else 0
    { base_name := "tex1_" ++ toString info.raw_width ++ "x" ++ toString info.raw_height
        ++ (if info.mip_count.isSome then "_m" else "")
      texture_name := hex016 tex_hash
      tlut_name := if tlut_size ≠ 0 then "_" ++ hex016 tlut_hash else ""
      format_name := toString info.texture_format.toInt }

/-! ## `TexDecoder_DecodeTexel` -/

def u16 (n : Nat) : Nat := n % 0x10000
def u32 (n : Nat) : Nat := n % 0x100000000

def safeSpanRead8 (src : List UInt8) (offset : Nat) : UInt8 := src[offset]?.getD 0

/-- The host is little-endian. -/
def safeSpanRead16 (src : List UInt8) (offset : Nat) : UInt16 :=
  (safeSpanRead8 src offset).toUInt16 ||| ((safeSpanRead8 src (offset + 1)).toUInt16 <<< 8)

/-- `tBlk * widthBlks + sBlk` -/
def blockOf (shiftS shiftT s t imageWidth : Nat) : Nat :=
  u16 (t >>> shiftT) * u16 ((imageWidth >>> shiftS) + 1) + u16 (s >>> shiftS)

/-- `blkOff` -/
def offsetInBlock (shiftS maskS maskT s t : Nat) : Nat :=
  ((t &&& maskT) <<< shiftS) + (s &&& maskS)

/-- `val` in the formats with a palette: the index of the entry that the texel looks up. -/
def texelIndex (src : List UInt8) (s t imageWidth : Nat) : TextureFormat → Option Nat
  | C4 =>
      let base := u32 (blockOf 3 3 s t imageWidth <<< 5)
      let blkOff := offsetInBlock 3 7 7 s t
      let rs : UInt8 := if blkOff &&& 1 = 1 then 0 else 4
      let offset := base + (blkOff >>> 1)
      some ((safeSpanRead8 src offset >>> rs) &&& 0xF).toNat
  | C8 =>
      let base := u32 (blockOf 3 2 s t imageWidth <<< 5)
      let blkOff := offsetInBlock 3 7 3 s t
      some (safeSpanRead8 src (base + blkOff)).toNat
  | C14X2 =>
      let base := u32 (blockOf 2 2 s t imageWidth <<< 4)
      let blkOff := offsetInBlock 2 3 3 s t
      let offset := (base + blkOff) <<< 1
      some (swap16 (safeSpanRead16 src offset) &&& 0x3FFF).toNat
  | _ => none

end Phocoena.Texture
