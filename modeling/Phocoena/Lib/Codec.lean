import Mathlib.Data.BitVec
import Mathlib.Data.Vector.Basic

/-! # Codecs

Fixed-size binary layouts. A `Codec` writes a value as a known number of bytes and reads it back
from the front of any byte sequence; it carries the proof that reading undoes writing, so a layout
put together from smaller ones needs no proof of its own.
-/

namespace Phocoena

abbrev Byte := BitVec 8

structure Codec (α : Type) where
  size : Nat
  encode : α → List Byte
  /-- Reads one value; what is left of the input comes back with it. -/
  decode : List Byte → Option (α × List Byte)
  length_encode : ∀ a, (encode a).length = size
  decode_encode : ∀ a rest, decode (encode a ++ rest) = some (a, rest)

namespace Codec

variable {α β : Type} {m n : Nat}

attribute [simp] length_encode decode_encode

def byte : Codec Byte where
  size := 1
  encode b := [b]
  decode
    | [] => none
    | b :: rest => some (b, rest)
  length_encode _ := rfl
  decode_encode _ _ := rfl

theorem bind_decode_encode {γ : Type} (c : Codec α) (a : α) (rest : List Byte)
    (f : α × List Byte → Option γ) : (c.decode (c.encode a ++ rest) >>= f) = f (a, rest) := by
  rw [c.decode_encode]
  rfl

/-- Two values one after the other. -/
def pair (c : Codec α) (d : Codec β) : Codec (α × β) where
  size := c.size + d.size
  encode p := c.encode p.1 ++ d.encode p.2
  decode input := do
    let (a, input) ← c.decode input
    let (b, input) ← d.decode input
    return ((a, b), input)
  length_encode p := by rw [List.length_append, c.length_encode, d.length_encode]
  decode_encode p rest := by
    rw [List.append_assoc, c.decode_encode]
    simp

/-- The layout of `β` read as an `α` that it represents. -/
def map (c : Codec β) (parts : α → β) (whole : β → α) (inverse : ∀ a, whole (parts a) = a) :
    Codec α where
  size := c.size
  encode a := c.encode (parts a)
  decode input := (c.decode input).map fun (b, rest) => (whole b, rest)
  length_encode a := c.length_encode (parts a)
  decode_encode a rest := by
    rw [c.decode_encode, Option.map_some]
    exact congrArg (fun a => some (a, rest)) (inverse a)

/-! ## Arrays -/

def decodeArray (c : Codec α) : (n : Nat) → List Byte → Option (Vector α n × List Byte)
  | 0, input => some (#v[], input)
  | n + 1, input => do
    let (front, input) ← decodeArray c n input
    let (last, input) ← c.decode input
    return (front.push last, input)

theorem decodeArray_encode (c : Codec α) (v : Vector α n) (rest : List Byte) :
    decodeArray c n (v.toList.flatMap c.encode ++ rest) = some (v, rest) := by
  induction n generalizing rest with
  | zero =>
    obtain rfl : v = #v[] := Vector.eq_empty
    rfl
  | succ n ih =>
    obtain ⟨front, last, rfl⟩ := @Vector.exists_push α n v
    have bytes : (front.push last).toList.flatMap c.encode =
        front.toList.flatMap c.encode ++ c.encode last := by
      simp [← Vector.toList_toArray]
    rw [bytes, List.append_assoc]
    simp [decodeArray, ih]

theorem length_flatMap_encode (c : Codec α) (as : List α) :
    (as.flatMap c.encode).length = as.length * c.size := by
  induction as with
  | nil => simp
  | cons a as ih => rw [List.flatMap_cons, List.length_append, ih, c.length_encode,
      List.length_cons, Nat.succ_mul, Nat.add_comm]

def array (c : Codec α) (n : Nat) : Codec (Vector α n) where
  size := n * c.size
  encode v := v.toList.flatMap c.encode
  decode := decodeArray c n
  length_encode v := by rw [length_flatMap_encode, Vector.length_toList]
  decode_encode := decodeArray_encode c

@[simp] theorem array_encode (c : Codec α) (v : Vector α n) :
    (c.array n).encode v = v.toList.flatMap c.encode := rfl

/-! ## Words -/

theorem append_halves (v : BitVec (m + n)) : v.extractLsb' n m ++ v.extractLsb' 0 n = v := by
  apply BitVec.eq_of_getLsbD_eq
  intro i hi
  rw [BitVec.getLsbD_append]
  split
  · next low => simp [low]
  · next high => simp [show i - n < m by omega, show n + (i - n) = i by omega]

/-- A word of which the upper part is stored first. -/
def bigEndian (hi : Codec (BitVec m)) (lo : Codec (BitVec n)) : Codec (BitVec (m + n)) :=
  (pair hi lo).map (fun v => (v.extractLsb' n m, v.extractLsb' 0 n)) (fun p => p.1 ++ p.2)
    append_halves

/-- A word of which the lower part is stored first. -/
def littleEndian (lo : Codec (BitVec n)) (hi : Codec (BitVec m)) : Codec (BitVec (m + n)) :=
  (pair lo hi).map (fun v => (v.extractLsb' 0 n, v.extractLsb' n m)) (fun p => p.2 ++ p.1)
    append_halves

def be16 : Codec (BitVec 16) := bigEndian byte byte
def be32 : Codec (BitVec 32) := bigEndian be16 be16
def be64 : Codec (BitVec 64) := bigEndian be32 be32
def le16 : Codec (BitVec 16) := littleEndian byte byte
def le32 : Codec (BitVec 32) := littleEndian le16 le16
def le64 : Codec (BitVec 64) := littleEndian le32 le32

end Codec

end Phocoena

/-! ## Layouts without redundancy

A layout is canonical if whatever it reads is what it would have written, so that a value stands
for one sequence of bytes only.
-/

namespace Phocoena.Codec

variable {α β : Type} {m n : Nat}

/-- What is read is what is written. -/
def Canonical (c : Codec α) : Prop :=
  ∀ input a rest, c.decode input = some (a, rest) → input = c.encode a ++ rest

theorem byte_canonical : Canonical byte := by
  intro input a rest read
  cases input with
  | nil => cases read
  | cons b input =>
      cases read
      rfl

theorem Canonical.pair {c : Codec α} {d : Codec β} (first : Canonical c) (second : Canonical d) :
    Canonical (Codec.pair c d) := by
  intro input p rest read
  obtain ⟨⟨a, input'⟩, read_first, read⟩ := Option.bind_eq_some_iff.mp read
  obtain ⟨⟨b, input''⟩, read_second, read⟩ := Option.bind_eq_some_iff.mp read
  cases read
  rw [first _ _ _ read_first, second _ _ _ read_second]
  exact (List.append_assoc _ _ _).symm

theorem Canonical.map {c : Codec β} {parts : α → β} {whole : β → α}
    {inverse : ∀ a, whole (parts a) = a} (canonical : Canonical c)
    (onto : ∀ b, parts (whole b) = b) : Canonical (Codec.map c parts whole inverse) := by
  intro input a rest read
  obtain ⟨⟨b, input'⟩, read_parts, same⟩ := Option.map_eq_some_iff.mp read
  cases same
  have bytes := canonical _ _ _ read_parts
  rw [← onto b] at bytes
  exact bytes

theorem halves_append (high : BitVec m) (low : BitVec n) :
    ((high ++ low).extractLsb' 0 n, (high ++ low).extractLsb' n m) = (low, high) := by
  refine Prod.ext ?_ ?_
  · apply BitVec.eq_of_getLsbD_eq
    intro i less
    simp [BitVec.getLsbD_append, less]
  · apply BitVec.eq_of_getLsbD_eq
    intro i less
    simp [BitVec.getLsbD_append, less]

theorem Canonical.littleEndian {lo : Codec (BitVec n)} {hi : Codec (BitVec m)}
    (low : Canonical lo) (high : Canonical hi) : Canonical (Codec.littleEndian lo hi) :=
  (low.pair high).map fun p => halves_append p.2 p.1

theorem Canonical.bigEndian {hi : Codec (BitVec m)} {lo : Codec (BitVec n)}
    (high : Canonical hi) (low : Canonical lo) : Canonical (Codec.bigEndian hi lo) :=
  (high.pair low).map fun p => congrArg Prod.swap (halves_append p.1 p.2)

theorem be16_canonical : Canonical be16 := byte_canonical.bigEndian byte_canonical

theorem be32_canonical : Canonical be32 := be16_canonical.bigEndian be16_canonical

theorem le16_canonical : Canonical le16 := byte_canonical.littleEndian byte_canonical

theorem le32_canonical : Canonical le32 := le16_canonical.littleEndian le16_canonical

theorem Canonical.array {c : Codec α} (canonical : Canonical c) : Canonical (c.array n) := by
  intro input v rest read
  induction n generalizing input rest with
  | zero =>
      obtain rfl : v = #v[] := Vector.eq_empty
      cases read
      rfl
  | succ n ih =>
      obtain ⟨⟨front, input'⟩, read_front, read⟩ := Option.bind_eq_some_iff.mp read
      obtain ⟨⟨last, input''⟩, read_last, read⟩ := Option.bind_eq_some_iff.mp read
      cases read
      have bytes : (front.push last).toList.flatMap c.encode =
          front.toList.flatMap c.encode ++ c.encode last := by
        simp [← Vector.toList_toArray]
      rw [ih _ _ _ read_front, canonical _ _ _ read_last, array_encode, array_encode, bytes,
        List.append_assoc]

theorem Canonical.decode_eq_some_iff {c : Codec α} (canonical : Canonical c)
    {input rest : List Byte} {a : α} : c.decode input = some (a, rest) ↔ input = c.encode a ++ rest := by
  constructor
  · exact canonical _ _ _
  · rintro rfl
    exact c.decode_encode a rest

end Phocoena.Codec
