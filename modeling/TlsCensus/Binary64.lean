import TlsCensus.Address

/-! Double precision numbers as their 64 bits: sign, eleven bits of exponent, fraction.
A finite one is a significand times a power of two; all reading is exact in integers. -/
namespace TlsCensus

structure Binary64 where
  bits : UInt64
  deriving DecidableEq, Repr

namespace Binary64

def signBit : Nat := 1 <<< 63

def hiddenBit : Nat := 1 <<< 52

def infinite : Nat := 2047 * hiddenBit

def ofParts (negative : Bool) (magnitude : Nat) : Binary64 :=
  ⟨(magnitude + if negative then signBit else 0).toUInt64⟩

def isNegative (x : Binary64) : Bool := signBit ≤ x.bits.toNat

def exponentField (x : Binary64) : Nat := x.bits.toNat / hiddenBit % 2048

def fraction (x : Binary64) : Nat := x.bits.toNat % hiddenBit

def isNaN (x : Binary64) : Bool := x.exponentField = 2047 && x.fraction ≠ 0

def isInfinite (x : Binary64) : Bool := x.exponentField = 2047 && x.fraction = 0

def significand (x : Binary64) : Nat :=
  if x.exponentField = 0 then x.fraction else x.fraction + hiddenBit

def power (x : Binary64) : Int := max x.exponentField 1 - 1075

def ratio (x : Binary64) : Nat × Nat :=
  (x.significand <<< x.power.toNat, 1 <<< (-x.power).toNat)

/-- The quotient to the nearest integer, a half to the even neighbour. -/
def roundedQuotient (num den : Nat) : Nat :=
  let q := num / den
  let rest := num % den
  if den < 2 * rest ∨ (den = 2 * rest ∧ q % 2 = 1) then q + 1 else q

def ofRatio (negative : Bool) (num den : Nat) : Binary64 :=
  let guess : Int := Nat.log2 num - Nat.log2 den - 52
  let scaled (p : Int) : Nat × Nat := (num <<< (-p).toNat, den <<< p.toNat)
  let low := (scaled guess).1 < hiddenBit * (scaled guess).2
  let p := max (if low then guess - 1 else guess) (-1074)
  let magnitude := (p + 1074).toNat * hiddenBit + roundedQuotient (scaled p).1 (scaled p).2
  ofParts negative (min magnitude infinite)

def ofDecimal (negative : Bool) (m : Nat) (e : Int) : Binary64 :=
  if m = 0 then ofParts negative 0
  else if 310 < e then ofParts negative infinite
  else if Nat.log2 m / 3 + e + 1 < -330 then ofParts negative 0
  else ofRatio negative (m * Nat.pow 10 e.toNat) (Nat.pow 10 (-e).toNat)

def toInt? (x : Binary64) : Option Int :=
  let (num, den) := x.ratio
  if x.exponentField = 2047 ∨ num % den ≠ 0 then none
  else some (if x.isNegative then -(num / den : Nat) else (num / den : Nat))

end Binary64
end TlsCensus
