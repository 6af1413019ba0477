import LogIntake.Json.Basic
import LogIntake.Text.Digits

/-!
# JSON numbers

A numeral is split into its parts first and valued afterwards. Integers that fit 64 bits are exact;
every other numeral becomes a float: the digits are gathered into a significand of 64 bits, those
that no longer fit are dropped, and one multiplication or division by a power of ten gives the
value. That is not always the float nearest to the numeral. A value past the greatest float has no
reading.
-/
set_option autoImplicit false

namespace LogIntake.Json

structure Numeral where
  negative : Bool
  whole : List Char
  fraction : Option (List Char)
  power : Option Int
  deriving DecidableEq, Repr

/-- Takes digits onto a significand as long as it stays below `2 ^ 64`; gives the digits left over,
too. -/
def gather (significand : Nat) : List Char → Nat × List Char
  | [] => (significand, [])
  | digit :: rest =>
    let next := significand * 10 + (Digits.value? 10 digit).getD 0
    if next < UInt64.size then gather next rest else (significand, digit :: rest)

def powerOfTen (exponent : Nat) : Float := Float.ofScientific 1 false exponent

/-- Divides by a power of ten, in steps that stay within the range of floats. -/
def scaleDown (number : Float) (exponent : Nat) : Float :=
  if exponent ≤ 308 then number / powerOfTen exponent
  else if number == 0 then number
  else scaleDown (number / powerOfTen 308) (exponent - 308)
termination_by exponent
decreasing_by omega

/-- The float for `significand * 10 ^ exponent`, unless it is past the greatest one. -/
def scale? (significand : Nat) (exponent : Int) : Option Float :=
  let number := (UInt64.ofNat significand).toFloat
  match exponent with
  | .negSucc down => some (scaleDown number (down + 1))
  | .ofNat up =>
    if up ≤ 308 then
      let product := number * powerOfTen up
      if product.isInf then none else some product
    else if significand = 0 then some number
    else none

def signed (negative : Bool) (number : Float) : Json :=
  .float (Binary64.ofFloat (if negative then -number else number))

/-- An integer literal below `2 ^ 64`, with its sign; minus zero is a float. -/
def integer (negative : Bool) (magnitude : Nat) : Json :=
  if negative then
    match magnitude with
    | 0 => signed true 0
    | less + 1 =>
      if h : less < 0x8000000000000000 then .negative ⟨less, h⟩
      else signed true (UInt64.ofNat magnitude).toFloat
  else .natural (UInt64.ofNat magnitude)

def powerLimit : Nat := 0x80000000

def Numeral.value? (numeral : Numeral) : Option Json :=
  let (significand, dropped) := gather 0 numeral.whole
  match numeral.fraction, numeral.power, dropped with
  | none, none, [] => some (integer numeral.negative significand)
  | fraction, power, dropped =>
    let fraction := fraction.getD []
    let power := power.getD 0
    let (significand, ignored) := gather significand fraction
    let exponent := (dropped.length : Int) - (fraction.length - ignored.length : Nat) + power
    if powerLimit ≤ power.natAbs then
      if significand = 0 ∨ power < 0 then some (signed numeral.negative 0) else none
    else (signed numeral.negative ·) <$> scale? significand exponent

end LogIntake.Json
