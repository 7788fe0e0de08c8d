import Phocoena.Lib.TextSearch

/-! # Strings

What the modules use of `Common/StringUtil.cpp`. A `std::string` is the list of its bytes and an
index of it is a number; the loops move through the text as the source does, by the positions
that `find` returns.
-/

namespace Phocoena.StringUtil

abbrev Bytes := List UInt8

/-- The loop of `ReplaceAll`; a `src` that is empty would be found at every position. -/
def replaceLoop (src dest : Bytes) (nonempty : src ≠ []) (result : Bytes) (pos : Nat) : Bytes :=
  match found : find result src pos with
  | none => result
  | some place =>
      replaceLoop src dest nonempty
        (result.take place ++ dest ++ result.drop (place + src.length)) (place + dest.length)
termination_by result.length - pos
decreasing_by
  have bounds := find_bounds found
  have := List.length_pos_iff.mpr nonempty
  simp only [List.length_append, List.length_take, List.length_drop]
  omega

def replaceAll (result src dest : Bytes) (nonempty : src ≠ []) : Bytes :=
  if src = dest then result else replaceLoop src dest nonempty result 0

/-- The lines `std::getline` returns until it fails, `line` being what the call under way has
read so far. At the end of the text it fails if it has read nothing. -/
def getlines (delim : UInt8) : Bytes → Bytes → List Bytes
  | line, [] => if line = [] then [] else [line]
  | line, c :: str => if c = delim then line :: getlines delim [] str
      else getlines delim (line ++ [c]) str

def splitString (str : Bytes) (delim : UInt8) : List Bytes :=
  getlines delim [] str

/-- `" \t\r\n"` -/
def whitespace : Bytes := [0x20, 0x09, 0x0d, 0x0a]

def stripWhitespace (str : Bytes) : Bytes :=
  ((str.dropWhile (· ∈ whitespace)).reverse.dropWhile (· ∈ whitespace)).reverse

/-- One pair of quotes; of a single quote, which begins and ends the text, nothing is left. -/
def stripQuotes (s : Bytes) : Bytes :=
  if s.head? = some 0x22 ∧ s.getLast? = some 0x22 then (s.drop 1).take (s.length - 2) else s

/-- `std::tolower` in the classic locale -/
def toLower (c : UInt8) : UInt8 := if 0x41 ≤ c ∧ c ≤ 0x5a then c + 0x20 else c

def caseInsensitiveEquals (a b : Bytes) : Bool := a.map toLower = b.map toLower

/-- The value of a digit for `std::from_chars` with base 16. -/
def hexDigitValue (c : UInt8) : Option Nat :=
  if 0x30 ≤ c ∧ c ≤ 0x39 then some (c.toNat - 0x30)
  else if 0x61 ≤ c ∧ c ≤ 0x66 then some (c.toNat - 0x61 + 10)
  else if 0x41 ≤ c ∧ c ≤ 0x46 then some (c.toNat - 0x41 + 10)
  else none

/-- The digits at the front of the text: how many there are, and their value. -/
def readHex : Bytes → Nat → Nat × Nat
  | [], value => (0, value)
  | c :: sv, value =>
      match hexDigitValue c with
      | some digit => let r := readHex sv (value * 16 + digit); (r.1 + 1, r.2)
      | none => (0, value)

/-- `FromChars(sv, value, 16)` for a `u32`: `none` is an `ec` other than `std::errc{}`, no digit
or a value out of range. -/
def fromChars16 (sv : Bytes) : Option Nat :=
  if (readHex sv 0).1 = 0 ∨ 0x100000000 ≤ (readHex sv 0).2 then none else some (readHex sv 0).2

end Phocoena.StringUtil
