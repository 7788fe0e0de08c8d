import Phocoena.Lib.MagicDivision

/-! # Constants for division by multiplication

`DivUtils.cpp`, in the 32-bit wrap-around arithmetic of the source. The loop of
`SignedDivisionConstants` runs on fuel, and a division by zero has no result.
-/

namespace Phocoena.JitCommon

structure SignedMagic where
  multiplier : BitVec 32
  shift : BitVec 8
  deriving DecidableEq, Repr

structure UnsignedMagic where
  multiplier : BitVec 32
  shift : BitVec 8
  fast : Bool
  deriving DecidableEq, Repr

/-- The variables of the loop: quotient and remainder of `2 ^ p` by `anc` and by `ad`. -/
structure SignedSearch where
  q1 : BitVec 32
  r1 : BitVec 32
  q2 : BitVec 32
  r2 : BitVec 32
  p : Nat
  deriving DecidableEq, Repr

/-- Doubles a quotient and a remainder. -/
def doubleQuotient (divisor q r : BitVec 32) : BitVec 32 × BitVec 32 :=
  if divisor ≤ r * 2 then (q * 2 + 1, r * 2 - divisor) else (q * 2, r * 2)

namespace SignedSearch

variable (anc ad : BitVec 32)

def next (s : SignedSearch) : SignedSearch :=
  let (q1, r1) := doubleQuotient anc s.q1 s.r1
  let (q2, r2) := doubleQuotient ad s.q2 s.r2
  { q1, r1, q2, r2, p := s.p + 1 }

/-- The condition of the `do … while`. -/
def unfinished (s : SignedSearch) : Bool :=
  let delta := ad - s.r2
  s.q1 < delta ∨ s.q1 = delta ∧ s.r1 = 0

def run : Nat → SignedSearch → Option SignedSearch
  | 0, _ => none
  | fuel + 1, s =>
      let s := s.next anc ad
      if s.unfinished ad then s.run fuel else some s

end SignedSearch

def signedDivisionConstants (fuel : Nat) (divisor : BitVec 32) : Option SignedMagic :=
  let two31 := 0x80000000#32
  let ad := divisor.abs
  if ad = 0 then none
  else
    let t := two31 - (if divisor.slt 0 then 1 else 0)
    let anc := t - 1 - t % ad
    if anc = 0 then none
    else
      let q1 := two31 / anc
      let q2 := two31 / ad
      let start : SignedSearch :=
        { q1, r1 := two31 - q1 * anc, q2, r2 := two31 - q2 * ad, p := 31 }
      (start.run anc ad fuel).map fun s =>
        { multiplier := if divisor.slt 0 then -(s.q2 + 1) else s.q2 + 1
          shift := BitVec.ofNat 8 (s.p - 32) }

def unsignedDivisionConstants (divisor : BitVec 32) : UnsignedMagic :=
  let shift := 31 - divisor.clz
  let magicDividend := 0x100000000#64 <<< shift.toNat
  let multiplier := (magicDividend / divisor.setWidth 64).setWidth 32
  let maxQuotient := multiplier >>> shift.toNat
  let roundUp := (((multiplier + 1).setWidth 64 * (maxQuotient * divisor - 1).setWidth 64)
    >>> (shift.toNat + 32)).setWidth 32
  let fast := roundUp == maxQuotient - 1
  if fast then
    let multiplier := multiplier + 1
    -- Use smallest magic number and shift amount possible
    let trailingZeroes := min shift.toNat multiplier.ctz.toNat
    { multiplier := multiplier >>> trailingZeroes
      shift := BitVec.ofNat 8 (shift.toNat - trailingZeroes), fast }
  else { multiplier, shift := BitVec.ofNat 8 shift.toNat, fast }

end Phocoena.JitCommon
