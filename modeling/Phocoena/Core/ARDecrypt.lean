import Phocoena.Common.StringUtil
import Phocoena.Lib.Feistel
import Mathlib.Logic.Function.Basic
import Mathlib.Tactic.IntervalCases

/-! # Decrypting Action Replay codes

`Core/ARDecrypt.cpp`, and the lines that `DeserializeLine` (`Core/ActionReplay.cpp`) passes to it.
A `u32` is a bit vector of 32 bits; the tables are those of the source.
-/

namespace Phocoena.ARDecrypt

open StringUtil Feistel

abbrev Word := BitVec 32

/-- Alphanumeric filter for text<->bin conversion: `"0123456789ABCDEFGHJKMNPQRTUVWXYZILOS"` -/
def alphabet : Bytes := [
  0x30, 0x31, 0x32, 0x33, 0x34, 0x35, 0x36, 0x37, 0x38, 0x39, 0x41, 0x42, 0x43, 0x44, 0x45, 0x46,
  0x47, 0x48, 0x4a, 0x4b, 0x4d, 0x4e, 0x50, 0x51, 0x52, 0x54, 0x55, 0x56, 0x57, 0x58, 0x59, 0x5a,
  0x49, 0x4c, 0x4f, 0x53]

def gentable0 : List Nat := [
  0x39, 0x31, 0x29, 0x21, 0x19, 0x11, 0x09, 0x01, 0x3A, 0x32, 0x2A, 0x22, 0x1A, 0x12,
  0x0A, 0x02, 0x3B, 0x33, 0x2B, 0x23, 0x1B, 0x13, 0x0B, 0x03, 0x3C, 0x34, 0x2C, 0x24,
  0x3F, 0x37, 0x2F, 0x27, 0x1F, 0x17, 0x0F, 0x07, 0x3E, 0x36, 0x2E, 0x26, 0x1E, 0x16,
  0x0E, 0x06, 0x3D, 0x35, 0x2D, 0x25, 0x1D, 0x15, 0x0D, 0x05, 0x1C, 0x14, 0x0C, 0x04]

def gentable1 : List Nat := [
  0x80, 0x40, 0x20, 0x10, 0x08, 0x04, 0x02, 0x01]

def gentable2 : List Nat := [
  0x01, 0x02, 0x04, 0x06, 0x08, 0x0A, 0x0C, 0x0E, 0x0F, 0x11, 0x13, 0x15, 0x17, 0x19, 0x1B, 0x1C]

def gentable3 : List Nat := [
  0x0E, 0x11, 0x0B, 0x18, 0x01, 0x05, 0x03, 0x1C, 0x0F, 0x06, 0x15, 0x0A, 0x17, 0x13, 0x0C, 0x04,
  0x1A, 0x08, 0x10, 0x07, 0x1B, 0x14, 0x0D, 0x02, 0x29, 0x34, 0x1F, 0x25, 0x2F, 0x37, 0x1E, 0x28,
  0x33, 0x2D, 0x21, 0x30, 0x2C, 0x31, 0x27, 0x38, 0x22, 0x35, 0x2E, 0x2A, 0x32, 0x24, 0x1D, 0x20]

def gensubtable : List Nat := [
  0x34, 0x1C, 0x84, 0x9E, 0xFD, 0xA4, 0xB6, 0x7B]

def crctable0 : List (BitVec 16) := [
  0x0000, 0x1081, 0x2102, 0x3183, 0x4204, 0x5285, 0x6306, 0x7387,
  0x8408, 0x9489, 0xA50A, 0xB58B, 0xC60C, 0xD68D, 0xE70E, 0xF78F]

def crctable1 : List (BitVec 16) := [
  0x0000, 0x1189, 0x2312, 0x329B, 0x4624, 0x57AD, 0x6536, 0x74BF,
  0x8C48, 0x9DC1, 0xAF5A, 0xBED3, 0xCA6C, 0xDBE5, 0xE97E, 0xF8F7]

def table0 : List (BitVec 32) := [
  0x01010400, 0x00000000, 0x00010000, 0x01010404, 0x01010004, 0x00010404, 0x00000004, 0x00010000,
  0x00000400, 0x01010400, 0x01010404, 0x00000400, 0x01000404, 0x01010004, 0x01000000, 0x00000004,
  0x00000404, 0x01000400, 0x01000400, 0x00010400, 0x00010400, 0x01010000, 0x01010000, 0x01000404,
  0x00010004, 0x01000004, 0x01000004, 0x00010004, 0x00000000, 0x00000404, 0x00010404, 0x01000000,
  0x00010000, 0x01010404, 0x00000004, 0x01010000, 0x01010400, 0x01000000, 0x01000000, 0x00000400,
  0x01010004, 0x00010000, 0x00010400, 0x01000004, 0x00000400, 0x00000004, 0x01000404, 0x00010404,
  0x01010404, 0x00010004, 0x01010000, 0x01000404, 0x01000004, 0x00000404, 0x00010404, 0x01010400,
  0x00000404, 0x01000400, 0x01000400, 0x00000000, 0x00010004, 0x00010400, 0x00000000, 0x01010004]

def table1 : List (BitVec 32) := [
  0x80108020, 0x80008000, 0x00008000, 0x00108020, 0x00100000, 0x00000020, 0x80100020, 0x80008020,
  0x80000020, 0x80108020, 0x80108000, 0x80000000, 0x80008000, 0x00100000, 0x00000020, 0x80100020,
  0x00108000, 0x00100020, 0x80008020, 0x00000000, 0x80000000, 0x00008000, 0x00108020, 0x80100000,
  0x00100020, 0x80000020, 0x00000000, 0x00108000, 0x00008020, 0x80108000, 0x80100000, 0x00008020,
  0x00000000, 0x00108020, 0x80100020, 0x00100000, 0x80008020, 0x80100000, 0x80108000, 0x00008000,
  0x80100000, 0x80008000, 0x00000020, 0x80108020, 0x00108020, 0x00000020, 0x00008000, 0x80000000,
  0x00008020, 0x80108000, 0x00100000, 0x80000020, 0x00100020, 0x80008020, 0x80000020, 0x00100020,
  0x00108000, 0x00000000, 0x80008000, 0x00008020, 0x80000000, 0x80100020, 0x80108020, 0x00108000]

def table2 : List (BitVec 32) := [
  0x00000208, 0x08020200, 0x00000000, 0x08020008, 0x08000200, 0x00000000, 0x00020208, 0x08000200,
  0x00020008, 0x08000008, 0x08000008, 0x00020000, 0x08020208, 0x00020008, 0x08020000, 0x00000208,
  0x08000000, 0x00000008, 0x08020200, 0x00000200, 0x00020200, 0x08020000, 0x08020008, 0x00020208,
  0x08000208, 0x00020200, 0x00020000, 0x08000208, 0x00000008, 0x08020208, 0x00000200, 0x08000000,
  0x08020200, 0x08000000, 0x00020008, 0x00000208, 0x00020000, 0x08020200, 0x08000200, 0x00000000,
  0x00000200, 0x00020008, 0x08020208, 0x08000200, 0x08000008, 0x00000200, 0x00000000, 0x08020008,
  0x08000208, 0x00020000, 0x08000000, 0x08020208, 0x00000008, 0x00020208, 0x00020200, 0x08000008,
  0x08020000, 0x08000208, 0x00000208, 0x08020000, 0x00020208, 0x00000008, 0x08020008, 0x00020200]

def table3 : List (BitVec 32) := [
  0x00802001, 0x00002081, 0x00002081, 0x00000080, 0x00802080, 0x00800081, 0x00800001, 0x00002001,
  0x00000000, 0x00802000, 0x00802000, 0x00802081, 0x00000081, 0x00000000, 0x00800080, 0x00800001,
  0x00000001, 0x00002000, 0x00800000, 0x00802001, 0x00000080, 0x00800000, 0x00002001, 0x00002080,
  0x00800081, 0x00000001, 0x00002080, 0x00800080, 0x00002000, 0x00802080, 0x00802081, 0x00000081,
  0x00800080, 0x00800001, 0x00802000, 0x00802081, 0x00000081, 0x00000000, 0x00000000, 0x00802000,
  0x00002080, 0x00800080, 0x00800081, 0x00000001, 0x00802001, 0x00002081, 0x00002081, 0x00000080,
  0x00802081, 0x00000081, 0x00000001, 0x00002000, 0x00800001, 0x00002001, 0x00802080, 0x00800081,
  0x00002001, 0x00002080, 0x00800000, 0x00802001, 0x00000080, 0x00800000, 0x00002000, 0x00802080]

def table4 : List (BitVec 32) := [
  0x00000100, 0x02080100, 0x02080000, 0x42000100, 0x00080000, 0x00000100, 0x40000000, 0x02080000,
  0x40080100, 0x00080000, 0x02000100, 0x40080100, 0x42000100, 0x42080000, 0x00080100, 0x40000000,
  0x02000000, 0x40080000, 0x40080000, 0x00000000, 0x40000100, 0x42080100, 0x42080100, 0x02000100,
  0x42080000, 0x40000100, 0x00000000, 0x42000000, 0x02080100, 0x02000000, 0x42000000, 0x00080100,
  0x00080000, 0x42000100, 0x00000100, 0x02000000, 0x40000000, 0x02080000, 0x42000100, 0x40080100,
  0x02000100, 0x40000000, 0x42080000, 0x02080100, 0x40080100, 0x00000100, 0x02000000, 0x42080000,
  0x42080100, 0x00080100, 0x42000000, 0x42080100, 0x02080000, 0x00000000, 0x40080000, 0x42000000,
  0x00080100, 0x02000100, 0x40000100, 0x00080000, 0x00000000, 0x40080000, 0x02080100, 0x40000100]

def table5 : List (BitVec 32) := [
  0x20000010, 0x20400000, 0x00004000, 0x20404010, 0x20400000, 0x00000010, 0x20404010, 0x00400000,
  0x20004000, 0x00404010, 0x00400000, 0x20000010, 0x00400010, 0x20004000, 0x20000000, 0x00004010,
  0x00000000, 0x00400010, 0x20004010, 0x00004000, 0x00404000, 0x20004010, 0x00000010, 0x20400010,
  0x20400010, 0x00000000, 0x00404010, 0x20404000, 0x00004010, 0x00404000, 0x20404000, 0x20000000,
  0x20004000, 0x00000010, 0x20400010, 0x00404000, 0x20404010, 0x00400000, 0x00004010, 0x20000010,
  0x00400000, 0x20004000, 0x20000000, 0x00004010, 0x20000010, 0x20404010, 0x00404000, 0x20400000,
  0x00404010, 0x20404000, 0x00000000, 0x20400010, 0x00000010, 0x00004000, 0x20400000, 0x00404010,
  0x00004000, 0x00400010, 0x20004010, 0x00000000, 0x20404000, 0x20000000, 0x00400010, 0x20004010]

def table6 : List (BitVec 32) := [
  0x00200000, 0x04200002, 0x04000802, 0x00000000, 0x00000800, 0x04000802, 0x00200802, 0x04200800,
  0x04200802, 0x00200000, 0x00000000, 0x04000002, 0x00000002, 0x04000000, 0x04200002, 0x00000802,
  0x04000800, 0x00200802, 0x00200002, 0x04000800, 0x04000002, 0x04200000, 0x04200800, 0x00200002,
  0x04200000, 0x00000800, 0x00000802, 0x04200802, 0x00200800, 0x00000002, 0x04000000, 0x00200800,
  0x04000000, 0x00200800, 0x00200000, 0x04000802, 0x04000802, 0x04200002, 0x04200002, 0x00000002,
  0x00200002, 0x04000000, 0x04000800, 0x00200000, 0x04200800, 0x00000802, 0x00200802, 0x04200800,
  0x00000802, 0x04000002, 0x04200802, 0x04200000, 0x00200800, 0x00000000, 0x00000002, 0x04200802,
  0x00000000, 0x00200802, 0x04200000, 0x00000800, 0x04000002, 0x04000800, 0x00000800, 0x00200002]

def table7 : List (BitVec 32) := [
  0x10001040, 0x00001000, 0x00040000, 0x10041040, 0x10000000, 0x10001040, 0x00000040, 0x10000000,
  0x00040040, 0x10040000, 0x10041040, 0x00041000, 0x10041000, 0x00041040, 0x00001000, 0x00000040,
  0x10040000, 0x10000040, 0x10001000, 0x00001040, 0x00041000, 0x00040040, 0x10040040, 0x10041000,
  0x00001040, 0x00000000, 0x00000000, 0x10040040, 0x10000040, 0x10001000, 0x00041040, 0x00040000,
  0x00041040, 0x00040000, 0x10041000, 0x00001000, 0x00000040, 0x10040040, 0x00001000, 0x00041040,
  0x10001000, 0x00000040, 0x10000040, 0x10040000, 0x10040040, 0x10000000, 0x00040000, 0x10001040,
  0x00000000, 0x10041040, 0x00040040, 0x10000040, 0x10040000, 0x10001000, 0x10001040, 0x00000000,
  0x10041040, 0x00041000, 0x00041000, 0x00001040, 0x00001040, 0x00040040, 0x10000000, 0x10041000]

def table (t : List Word) (i : Word) : Word := t.getD i.toNat 0

/-! ## The seeds -/

abbrev Seeds := List Word

/-- `array0`: the bits of `gensubtable` that `gentable0` selects. -/
def array0 : List Nat :=
  gentable0.map fun g =>
    let tmp := g - 1
    if gensubtable.getD (tmp >>> 3) 0 &&& gentable1.getD (tmp &&& 7) 0 = 0 then 0 else 1

/-- The place in `array0` that `array1[j]` is read from. -/
def rotatedPlace (tmp2 j : Nat) : Nat :=
  let tmp := tmp2 + j
  if 0x1B < j then (if 0x37 < tmp then tmp - 0x1C else tmp)
  else if 0x1B < tmp then tmp - 0x1C else tmp

def array1 (i : Nat) : List Nat :=
  (List.range 0x38).map fun j => array0.getD (rotatedPlace (gentable2.getD i 0) j) 0

def array2 (i : Nat) : List Nat :=
  (List.range 0x30).foldl (fun array2 j =>
    if (array1 i).getD (gentable3.getD j 0 - 1) 0 = 0 then array2
    else
      let tmp := ((j * 0x2AAB) >>> 16) - (j >>> 0x1F)
      array2.set tmp (array2.getD tmp 0 ||| (gentable1.getD (j - tmp * 6) 0 >>> 2)))
    [0, 0, 0, 0, 0, 0, 0, 0]

/-- `(a << 24) | (b << 16) | (c << 8) | d` -/
def joinBytes (a b c d : Nat) : Word :=
  BitVec.ofNat 32 ((a <<< 24) ||| (b <<< 16) ||| (c <<< 8) ||| d)

/-- The seeds before their order is turned around. -/
def forwardSeeds : Seeds :=
  (List.range 0x10).flatMap fun i =>
    let a := array2 i
    [joinBytes (a.getD 0 0) (a.getD 2 0) (a.getD 4 0) (a.getD 6 0),
      joinBytes (a.getD 1 0) (a.getD 3 0) (a.getD 5 0) (a.getD 7 0)]

/-- `seeds[i]` and `seeds[j]` exchanged. -/
def swapSeeds (seeds : Seeds) (i j : Nat) : Seeds :=
  (seeds.set i (seeds.getD j 0)).set j (seeds.getD i 0)

/-- The last loop; `j` is `0x1F - i`. -/
def genseeds : Seeds :=
  (List.range 8).foldl (fun seeds n =>
    let i := 2 * n
    let j := 0x1F - i
    swapSeeds (swapSeeds seeds i (j - 1)) (i + 1) j) forwardSeeds

/-! ## The cipher -/

def swap32 (data : Word) : Word :=
  ((data &&& 0xff) <<< 24) ||| (((data >>> 8) &&& 0xff) <<< 16) ||| (((data >>> 16) &&& 0xff) <<< 8)
    ||| (data >>> 24)

abbrev Code := Word × Word

def getCode (src : Code) : Code := (swap32 src.1, swap32 src.2)

def setCode (addr val : Word) : Code := (swap32 addr, swap32 val)

def rotl (x : Word) (n : Nat) : Word := x.rotateLeft n
def rotr (x : Word) (n : Nat) : Word := x.rotateRight n

def unscramble1 (addr val : Word) : Word × Word :=
  let val := rotl val 4

  let tmp := (addr ^^^ val) &&& 0xF0F0F0F0
  let addr := addr ^^^ tmp
  let val := rotr (val ^^^ tmp) 0x14

  let tmp := (addr ^^^ val) &&& 0xFFFF0000
  let addr := addr ^^^ tmp
  let val := rotr (val ^^^ tmp) 0x12

  let tmp := (addr ^^^ val) &&& 0x33333333
  let addr := addr ^^^ tmp
  let val := rotr (val ^^^ tmp) 6

  let tmp := (addr ^^^ val) &&& 0x00FF00FF
  let addr := addr ^^^ tmp
  let val := rotl (val ^^^ tmp) 9

  let tmp := (addr ^^^ val) &&& 0xAAAAAAAA
  (rotl (addr ^^^ tmp) 1, val ^^^ tmp)

def unscramble2 (addr val : Word) : Word × Word :=
  let val := rotr val 1

  let tmp := (addr ^^^ val) &&& 0xAAAAAAAA
  let val := val ^^^ tmp
  let addr := rotr (addr ^^^ tmp) 9

  let tmp := (addr ^^^ val) &&& 0x00FF00FF
  let val := val ^^^ tmp
  let addr := rotl (addr ^^^ tmp) 6

  let tmp := (addr ^^^ val) &&& 0x33333333
  let val := val ^^^ tmp
  let addr := rotl (addr ^^^ tmp) 0x12

  let tmp := (addr ^^^ val) &&& 0xFFFF0000
  let val := val ^^^ tmp
  let addr := rotl (addr ^^^ tmp) 0x14

  let tmp := (addr ^^^ val) &&& 0xF0F0F0F0
  (rotr (addr ^^^ tmp) 4, val ^^^ tmp)

/-- What a round adds to one half, `half` being the other one and `key` two of the seeds. -/
def roundFunction (key : Word × Word) (half : Word) : Word :=
  let tmp := rotr half 4 ^^^ key.1
  let tmp2 := half ^^^ key.2
  table table6 (tmp &&& 0x3F) ^^^ table table4 ((tmp >>> 8) &&& 0x3F) ^^^
    table table2 ((tmp >>> 16) &&& 0x3F) ^^^ table table0 ((tmp >>> 24) &&& 0x3F) ^^^
    table table7 (tmp2 &&& 0x3F) ^^^ table table5 ((tmp2 >>> 8) &&& 0x3F) ^^^
    table table3 ((tmp2 >>> 16) &&& 0x3F) ^^^ table table1 ((tmp2 >>> 24) &&& 0x3F)

/-- The seeds that the loop of `DecryptCode` takes with `i++`, four in each turn. -/
def roundKeys (seeds : Seeds) : List ((Word × Word) × (Word × Word)) :=
  (List.range 8).map fun n =>
    ((seeds.getD (4 * n) 0, seeds.getD (4 * n + 1) 0),
      (seeds.getD (4 * n + 2) 0, seeds.getD (4 * n + 3) 0))

/-- The loop of `DecryptCode`: `addr` is changed by `val`, then `val` by `addr`. -/
def rounds (keys : List ((Word × Word) × (Word × Word))) (addr val : Word) : Word × Word :=
  keys.foldl (fun b key =>
    let addr := b.1 ^^^ roundFunction key.1 b.2
    (addr, b.2 ^^^ roundFunction key.2 addr)) (addr, val)

def decryptCode (seeds : Seeds) (code : Code) : Code :=
  let (addr, val) := getCode code
  let (addr, val) := unscramble1 addr val
  let (addr, val) := rounds (roundKeys seeds) addr val
  let (addr, val) := unscramble2 addr val
  setCode val addr

/-! ## The check value -/

def getCRC16 (codes : List Word) : BitVec 16 :=
  codes.foldl (fun (ret : BitVec 16) (code : Word) =>
    (List.range 4).foldl (fun (ret : BitVec 16) (i : Nat) =>
      let tmp : BitVec 8 := ((code >>> (i <<< 3)) ^^^ ret.setWidth 32).setWidth 8
      crctable0.getD ((tmp >>> 4) &&& 0x0F).toNat 0 ^^^ crctable1.getD (tmp &&& 0x0F).toNat 0
        ^^^ (ret >>> 8)) ret) 0

def verifyCode (codes : List Word) : BitVec 8 :=
  let tmp := getCRC16 codes
  ((tmp >>> 12) ^^^ (tmp >>> 8) ^^^ (tmp >>> 4) ^^^ tmp).setWidth 8 &&& 0x0F

/-! ## The fields -/

/-- The four words of `ctrl`: the first code word, the number of the word that is being read, the
next bit of it, and the number of words. -/
structure Ctrl where
  base : Word
  word : Nat
  bit : Nat
  size : Nat
deriving DecidableEq

/-- The loop of `GetBitString`. At the end of a word `tmp` becomes `ctrl[0] + (ctrl[1] << 2)`. -/
def getBits : Nat → Word → Word → Ctrl → Bool × Word × Ctrl
  | 0, _, out, ctrl => (true, out, ctrl)
  | len + 1, tmp, out, ctrl =>
      let moves := 0x1F < ctrl.bit
      let ctrl := if moves then { ctrl with bit := 0, word := ctrl.word + 1 } else ctrl
      let tmp := if moves then ctrl.base + BitVec.ofNat 32 (ctrl.word <<< 2) else tmp
      if ctrl.size ≤ ctrl.word then (false, out, ctrl)
      else getBits len tmp ((out <<< 1) ||| ((tmp >>> (0x1F - ctrl.bit)) &&& 1))
        { ctrl with bit := ctrl.bit + 1 }

def getBitString (ctrl : Ctrl) (len : Nat) : Bool × Word × Ctrl :=
  getBits len (ctrl.base + BitVec.ofNat 32 (ctrl.word <<< 2)) 0 ctrl

structure GameIDAndRegion where
  game_id : Word
  region : Word
deriving DecidableEq

/-- The calls of `GetBitString` in `BatchDecrypt`. -/
def readFields (ctrl : Ctrl) : GameIDAndRegion :=
  let game_id := getBitString ctrl 11
  let code_id := getBitString game_id.2.2 17
  let master_code := getBitString code_id.2.2 1
  let unknown := getBitString master_code.2.2 1
  let region := getBitString unknown.2.2 2
  ⟨game_id.2.1, region.2.1⟩

/-- The loop of `BatchDecrypt`, which decrypts the words two by two. -/
def decryptAll (seeds : Seeds) : List Word → List Word
  | a :: b :: codes =>
      let code := decryptCode seeds (a, b)
      code.1 :: code.2 :: decryptAll seeds codes
  | codes => codes

/-- The result and the words, which are changed in place. -/
def batchDecrypt (seeds : Seeds) (codes : List Word) : Option GameIDAndRegion × List Word :=
  let decrypted := decryptAll seeds codes
  let tmp := decrypted.getD 0 0
  let codes := decrypted.set 0 (tmp &&& 0x0FFFFFFF)
  if (tmp >>> 28) ≠ (verifyCode codes).setWidth 32 then (none, codes)
  else (some (readFields ⟨codes.getD 0 0, 0, 4, codes.length⟩), codes)

/-! ## The text -/

/-- A line as `DeserializeLine` passes it on. -/
abbrev EncryptedLine := Vector UInt8 13

def toUpper (ch : UInt8) : UInt8 := if 0x61 ≤ ch ∧ ch ≤ 0x7a then ch - 0x20 else ch

/-- The value of a character, `none` where `strchr` does not find it in the alphabet: it returns a
null pointer, or for `'\0'` the end of the alphabet. -/
def getVal (chr : UInt8) : Option Word :=
  match alphabet.idxOf? (toUpper chr) with
  | some 32 => some 1
  | some 33 => some 1
  | some 34 => some 0
  | some 35 => some 5
  | some ret => some (BitVec.ofNat 32 ret)
  | none => none

/-- How `ConvertAlphaToBinary` ends without words: a wrong parity in the line with this index, or a
character outside the alphabet, for which `GetVal` has no value. -/
inductive ConversionError where
  | unexpected (current_index : Nat)
  | outside
deriving DecidableEq

/-- `value_a` and `value_b` for the values of the characters of a line. -/
def lineWords (v : Fin 13 → Word) : Word × Word :=
  let value_a := v 6 >>> 3
  let value_b := v 12 >>> 1
  let value_a := value_a ||| v 0 <<< 27 ||| v 1 <<< 22 ||| v 2 <<< 17 ||| v 3 <<< 12 ||| v 4 <<< 7
    ||| v 5 <<< 2
  let value_b := value_b ||| v 6 <<< 29 ||| v 7 <<< 24 ||| v 8 <<< 19 ||| v 9 <<< 14 ||| v 10 <<< 9
    ||| v 11 <<< 4
  (value_a, value_b)

/-- `std::popcount` -/
def popcount (x : Word) : Nat := ((List.range 32).map x.getLsbD).count true

/-- The values of the characters of a line. -/
def lineValues (line : EncryptedLine) : Option (Fin 13 → Word) :=
  if line.toList.all fun chr => (getVal chr).isSome then some fun i => (getVal (line.get i)).getD 0
  else none

/-- `(parity & 1) != (GetVal(line[12]) & 1)` -/
def parityDiffers (v : Fin 13 → Word) : Bool :=
  let value_a := (lineWords v).1
  let value_b := (lineWords v).2
  let parity := popcount (value_a ^^^ value_b)
  parity &&& 1 ≠ (v 12).toNat &&& 1

/-- The loop of `ConvertAlphaToBinary`. -/
def convertLines : Nat → List EncryptedLine → Except ConversionError (List Word)
  | _, [] => .ok []
  | current_index, line :: alpha =>
      match lineValues line with
      | none => .error .outside
      | some v =>
          if parityDiffers v then .error (.unexpected current_index)
          else match convertLines (current_index + 1) alpha with
            | .ok result => .ok ((lineWords v).1 :: (lineWords v).2 :: result)
            | .error e => .error e

def convertAlphaToBinary (alpha : List EncryptedLine) : Except ConversionError (List Word) :=
  convertLines 0 alpha

structure AREntry where
  cmd_addr : Word
  value : Word
deriving DecidableEq

/-- The words as entries, two by two. -/
def entries : List Word → List AREntry
  | a :: b :: codes => ⟨a, b⟩ :: entries codes
  | _ => []

/-- `DecryptARCode`: what it returns, and the entries it appends to `result`. After a lookup
outside the alphabet its behavior is undefined. -/
def decryptARCode (seeds : Seeds) (encrypted_lines : List EncryptedLine) :
    Except ConversionError (Option GameIDAndRegion × List AREntry) :=
  if encrypted_lines = [] then .ok (none, [])
  else match convertAlphaToBinary encrypted_lines with
    | .error .outside => .error .outside
    | .error (.unexpected _) => .ok (none, [])
    | .ok codes =>
        match batchDecrypt seeds codes with
        | (none, codes) => .ok (none, entries codes)
        | (some found, codes) => .ok (some found, entries (codes.drop 2))

end Phocoena.ARDecrypt

/-! ## The cipher is a bijection

The scrambles are rotations and exchanges of bits, each of which is undone by itself, and the
rounds are a Feistel network.
-/

namespace Phocoena.ARDecrypt

open Feistel

/-! ## The parts of the scrambles -/

theorem rotr_rotl (x : Word) {n : Nat} (small : n < 32) : rotr (rotl x n) n = x :=
  rotateRight_rotateLeft x small

theorem rotl_rotr (x : Word) {n : Nat} (small : n < 32) : rotl (rotr x n) n = x :=
  rotateLeft_rotateRight x small

/-- The bytes are in the opposite order. -/
theorem getLsbD_swap32 (x : Word) {i : Nat} (inside : i < 32) :
    (swap32 x).getLsbD i = x.getLsbD (24 - i / 8 * 8 + i % 8) := by
  simp only [swap32]
  interval_cases i <;> simp

theorem swap32_swap32 (x : Word) : swap32 (swap32 x) = x := by
  refine BitVec.eq_of_getLsbD_eq fun i inside => ?_
  rw [getLsbD_swap32 _ inside, getLsbD_swap32 x (by omega)]
  congr 1
  omega

theorem getCode_setCode (addr val : Word) : getCode (setCode addr val) = (addr, val) := by
  rw [getCode, setCode, swap32_swap32, swap32_swap32]

theorem setCode_getCode (code : Code) : setCode (getCode code).1 (getCode code).2 = code := by
  rw [setCode, getCode, swap32_swap32, swap32_swap32]

/-! ## The inverse -/

/-- `Unscramble1`, step by step in the opposite order. -/
def scramble1 (addr val : Word) : Word × Word :=
  let b := exchange 0xAAAAAAAA (rotr addr 1, val)
  let b := exchange 0x00FF00FF (b.1, rotr b.2 9)
  let b := exchange 0x33333333 (b.1, rotl b.2 6)
  let b := exchange 0xFFFF0000 (b.1, rotl b.2 0x12)
  let b := exchange 0xF0F0F0F0 (b.1, rotl b.2 0x14)
  (b.1, rotr b.2 4)

/-- `Unscramble2`, step by step in the opposite order. -/
def scramble2 (addr val : Word) : Word × Word :=
  let b := exchange 0xF0F0F0F0 (rotl addr 4, val)
  let b := exchange 0xFFFF0000 (rotr b.1 0x14, b.2)
  let b := exchange 0x33333333 (rotr b.1 0x12, b.2)
  let b := exchange 0x00FF00FF (rotr b.1 6, b.2)
  let b := exchange 0xAAAAAAAA (rotl b.1 9, b.2)
  (b.1, rotl b.2 1)

theorem unscramble1_eq (addr val : Word) : unscramble1 addr val =
    let b := exchange 0xF0F0F0F0 (addr, rotl val 4)
    let b := exchange 0xFFFF0000 (b.1, rotr b.2 0x14)
    let b := exchange 0x33333333 (b.1, rotr b.2 0x12)
    let b := exchange 0x00FF00FF (b.1, rotr b.2 6)
    let b := exchange 0xAAAAAAAA (b.1, rotl b.2 9)
    (rotl b.1 1, b.2) :=
  rfl

theorem unscramble2_eq (addr val : Word) : unscramble2 addr val =
    let b := exchange 0xAAAAAAAA (addr, rotr val 1)
    let b := exchange 0x00FF00FF (rotr b.1 9, b.2)
    let b := exchange 0x33333333 (rotl b.1 6, b.2)
    let b := exchange 0xFFFF0000 (rotl b.1 0x12, b.2)
    let b := exchange 0xF0F0F0F0 (rotl b.1 0x14, b.2)
    (rotr b.1 4, b.2) :=
  rfl

theorem scramble1_unscramble1 (addr val : Word) :
    scramble1 (unscramble1 addr val).1 (unscramble1 addr val).2 = (addr, val) := by
  simp (disch := decide) only [unscramble1_eq, scramble1, rotr_rotl, rotl_rotr, Prod.mk.eta,
    exchange_exchange]

theorem unscramble1_scramble1 (addr val : Word) :
    unscramble1 (scramble1 addr val).1 (scramble1 addr val).2 = (addr, val) := by
  simp (disch := decide) only [unscramble1_eq, scramble1, rotr_rotl, rotl_rotr, Prod.mk.eta,
    exchange_exchange]

theorem scramble2_unscramble2 (addr val : Word) :
    scramble2 (unscramble2 addr val).1 (unscramble2 addr val).2 = (addr, val) := by
  simp (disch := decide) only [unscramble2_eq, scramble2, rotr_rotl, rotl_rotr, Prod.mk.eta,
    exchange_exchange]

theorem unscramble2_scramble2 (addr val : Word) :
    unscramble2 (scramble2 addr val).1 (scramble2 addr val).2 = (addr, val) := by
  simp (disch := decide) only [unscramble2_eq, scramble2, rotr_rotl, rotl_rotr, Prod.mk.eta,
    exchange_exchange]

/-- The network of `DecryptCode` with the scrambles inverted and the round keys reversed. -/
def encryptCode (seeds : Seeds) (code : Code) : Code :=
  let (val, addr) := getCode code
  let (addr, val) := scramble2 addr val
  let (val, addr) := rounds (reversed (roundKeys seeds)) val addr
  let (addr, val) := scramble1 addr val
  setCode addr val

/-- The rounds are undone by the rounds with the keys reversed, on exchanged halves. -/
theorem rounds_reversed (keys : List ((Word × Word) × (Word × Word))) (addr val : Word) :
    rounds (reversed keys) (rounds keys addr val).2 (rounds keys addr val).1 = (val, addr) :=
  network_swap roundFunction keys (addr, val)

theorem encryptCode_decryptCode (seeds : Seeds) (code : Code) :
    encryptCode seeds (decryptCode seeds code) = code := by
  simp only [encryptCode, decryptCode, getCode_setCode, scramble2_unscramble2, rounds_reversed,
    scramble1_unscramble1, setCode_getCode]

theorem decryptCode_encryptCode (seeds : Seeds) (code : Code) :
    decryptCode seeds (encryptCode seeds code) = code := by
  have forward := rounds_reversed (reversed (roundKeys seeds))
  rw [reversed_reversed] at forward
  simp only [encryptCode, decryptCode, getCode_setCode, unscramble1_scramble1, forward,
    unscramble2_scramble2, setCode_getCode]

theorem decryptCode_bijective (seeds : Seeds) : Function.Bijective (decryptCode seeds) :=
  Function.bijective_iff_has_inverse.mpr
    ⟨encryptCode seeds, encryptCode_decryptCode seeds, decryptCode_encryptCode seeds⟩

end Phocoena.ARDecrypt
