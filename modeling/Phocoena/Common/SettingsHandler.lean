import Phocoena.Lib.TextSearch

/-! # The settings of the Wii

`setting.txt` is a buffer of 256 bytes, each encrypted with the low byte of a key that is rotated
by one bit from byte to byte (`Common/SettingsHandler.cpp`).
-/

namespace Phocoena.SettingsHandler

abbrev Bytes := List UInt8

/-- `'\r'` -/
def CR : UInt8 := 0x0d
/-- `'\n'` -/
def LF : UInt8 := 0x0a
/-- `'='` -/
def equals : UInt8 := 0x3d

/-- Key used to encrypt/decrypt setting.txt contents -/
def INITIAL_SEED : UInt32 := 0x73B5DBFA

abbrev SettingsBuffer := Vector UInt8 0x100

/-- `(key >> 31) | (key << 1)` -/
def rotate (key : UInt32) : UInt32 := (key >>> 31) ||| (key <<< 1)

/-- The byte that `b ^ key` becomes in a `u8`. -/
def crypt (b : UInt8) (key : UInt32) : UInt8 := (b.toUInt32 ^^^ key).toUInt8

/-! ## Writing -/

structure SettingsWriter where
  buffer : SettingsBuffer
  position : Nat
  key : UInt32
  inside : position ≤ 0x100

namespace SettingsWriter

def init : SettingsWriter := ⟨Vector.replicate 0x100 0, 0, INITIAL_SEED, Nat.zero_le _⟩

def writeByte (w : SettingsWriter) (b : UInt8) : SettingsWriter :=
  if room : w.position < 0x100 then
    ⟨w.buffer.set w.position (crypt b w.key), w.position + 1, rotate w.key, room⟩
  else w

/-- The loop of `WriteLine` over the characters of the line. -/
def writeBytes (w : SettingsWriter) (str : Bytes) : SettingsWriter :=
  str.foldl writeByte w

/-- The bytes of the buffer from one position to another. -/
def range (w : SettingsWriter) (start stop : Nat) : Bytes :=
  (w.buffer.toList.take stop).drop start

/-- A zero byte between two positions lies inside the buffer. -/
theorem lt_of_zero_written {w : SettingsWriter} {str : Bytes}
    (zero : 0 ∈ (w.writeBytes str).range w.position (w.writeBytes str).position) :
    w.position < 0x100 := by
  by_contra outside
  have full : 0x100 ≤ w.position := Nat.not_lt.mp outside
  rw [range, List.drop_of_length_le] at zero
  · exact absurd zero List.not_mem_nil
  · rw [List.length_take, Vector.length_toList]
    omega

/-- If the encoded line contains a null byte, it is taken back and written again behind an LF. -/
def writeLine (w : SettingsWriter) (str : Bytes) : SettingsWriter :=
  let written := w.writeBytes str
  if _zero : 0 ∈ written.range w.position written.position then
    writeLine ({ written with position := w.position, key := w.key, inside := w.inside }.writeByte
      LF) str
  else written
termination_by 0x100 - w.position
decreasing_by
  have room := lt_of_zero_written _zero
  rw [writeByte, dif_pos room]
  change 0x100 - (w.position + 1) < 0x100 - w.position
  omega

/-- `fmt::format("{}={}\r\n", key, value)` -/
def addSetting (w : SettingsWriter) (key value : Bytes) : SettingsWriter :=
  w.writeLine (key ++ [equals] ++ value ++ [CR, LF])

end SettingsWriter

/-! ## Reading -/

/-- The loop of the constructor of `SettingsReader`. -/
def decode : UInt32 → Bytes → Bytes
  | _, [] => []
  | key, b :: buffer => crypt b key :: decode (rotate key) buffer

structure SettingsReader where
  decoded : Bytes

/-- The lines may be separated by CRLF or CRLFLF: every CR is removed, LF is the line ending. -/
def SettingsReader.init (buffer : SettingsBuffer) : SettingsReader :=
  ⟨(decode INITIAL_SEED buffer.toList).filter (· ≠ CR)⟩

/-- `m_decoded.substr(start, stop - start)`, where the difference is a `size_t`. -/
def substr (text : Bytes) (start stop : Nat) : Bytes :=
  (text.drop start).take ((stop + 0x10000000000000000 - start) % 0x10000000000000000)

/-- What `GetValue` returns for a `toFind` that stands at `found`. -/
def valueAt (decoded toFind : Bytes) (found : Nat) : Bytes :=
  let delimFound := (find decoded [LF] (found + toFind.length)).getD (decoded.length - 1)
  substr decoded (found + toFind.length) delimFound

def SettingsReader.getValue (r : SettingsReader) (key : Bytes) : Bytes :=
  let toFind := [LF] ++ key ++ [equals]
  match find r.decoded toFind 0 with
  | some found => valueAt r.decoded toFind found
  | none =>
      let toFind := key ++ [equals]
      if find r.decoded toFind 0 = some 0 then valueAt r.decoded toFind 0 else []

end Phocoena.SettingsHandler
