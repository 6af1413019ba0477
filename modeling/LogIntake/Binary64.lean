/-!
# Double-precision numbers

IEEE 754 binary64 numbers as their 64 bits, so that two numbers are equal exactly when their bits
are. Sign, exponent and fraction are read from the bits; widening from binary32 and truncation to an
integer are exact and use no floating-point operation.
-/
set_option autoImplicit false

namespace LogIntake

structure Binary64 where
  bits : UInt64
  deriving DecidableEq, Repr, Inhabited

namespace Binary64

def ofFloat (number : Float) : Binary64 := ⟨number.toBits⟩

def signPlace : Nat := 0x8000000000000000

def exponentPlace : Nat := 0x10000000000000

def isNegative (number : Binary64) : Bool := number.bits.toNat / signPlace = 1

/-- The biased exponent: 0 for zeros and subnormal numbers, 2047 for infinities and NaNs. -/
def biasedExponent (number : Binary64) : Nat := number.bits.toNat / exponentPlace % 0x800

def fraction (number : Binary64) : Nat := number.bits.toNat % exponentPlace

def isNaN (number : Binary64) : Bool := number.biasedExponent = 2047 && number.fraction ≠ 0

def isInfinite (number : Binary64) : Bool := number.biasedExponent = 2047 && number.fraction = 0

/-- The integer significand of a finite number: its magnitude is `significand * 2 ^ exponent`. -/
def significand (number : Binary64) : Nat :=
  if number.biasedExponent = 0 then number.fraction else exponentPlace + number.fraction

def exponent (number : Binary64) : Int := (max number.biasedExponent 1 : Nat) - 1075

def ofFields (negative : Bool) (biasedExponent fraction : Nat) : Binary64 :=
  ⟨UInt64.ofNat
    ((if negative then signPlace else 0) + biasedExponent * exponentPlace + fraction)⟩

/-- The binary64 number of equal value for the bits of a binary32 number. A NaN keeps its sign and
payload and becomes quiet. -/
def ofBinary32Bits (bits : UInt32) : Binary64 :=
  let negative : Bool := bits.toNat / 0x80000000 = 1
  let exponent := bits.toNat / 0x800000 % 0x100
  let fraction := bits.toNat % 0x800000
  if exponent = 255 then
    let quiet := if fraction = 0 ∨ fraction ≥ 0x400000 then 0 else 0x8000000000000
    ofFields negative 2047 (fraction * 0x20000000 + quiet)
  else if exponent ≠ 0 then ofFields negative (exponent + 896) (fraction * 0x20000000)
  else if fraction = 0 then ofFields negative 0 0
  else
    let top := fraction.log2
    ofFields negative (top + 874) ((fraction - Nat.pow 2 top) * Nat.pow 2 (52 - top))

def integerPart (number : Binary64) : Nat :=
  match number.exponent with
  | .ofNat up => number.significand * Nat.pow 2 up
  | .negSucc down => number.significand / Nat.pow 2 (down + 1)

/-- Truncation toward zero, clamped to the range of 64-bit words. NaN and negative numbers give 0.
-/
def toUInt64 (number : Binary64) : UInt64 :=
  if number.isNaN || number.isNegative then 0
  else if number.isInfinite then UInt64.ofNat (UInt64.size - 1)
  else UInt64.ofNat (min number.integerPart (UInt64.size - 1))

end Binary64

end LogIntake
