import LogIntake.Decimal.Shortest

/-!
# Layout of decimal numbers

How the digits of a number are set on the page: which numbers are written out in full, which with an
exponent, and the words for the values that have no digits. Each place where numbers are written
fixes one `NumberLayout`.
-/
set_option autoImplicit false

namespace LogIntake

structure NumberLayout where
  /-- Whether a number whose first digit stands for this power of ten is written without an
  exponent. -/
  inFull : Int → Bool
  /-- Which digits are taken where two decimals are as short and as near. -/
  tie : Decimal.Tie
  nan : String
  infinity : String
  negativeInfinity : String

namespace NumberLayout

private def zeros (count : Nat) : List Char := List.replicate count '0'

/-- Digits written without an exponent; `leading` is the power of ten of the first one. There is
always a point with a digit on both sides. -/
def full (digits : List Char) (leading : Int) : String :=
  match leading with
  | .negSucc gap => "0." ++ String.ofList (zeros gap ++ digits)
  | .ofNat place =>
    let whole := digits.take (place + 1)
    let rest := digits.drop (place + 1)
    String.ofList (whole ++ zeros (place + 1 - whole.length)) ++ "." ++
      (if rest.isEmpty then "0" else String.ofList rest)

def withExponent (digits : List Char) (leading : Int) : String :=
  let rest := digits.drop 1
  let point := if rest.isEmpty then "" else "." ++ String.ofList rest
  let sign := if leading < 0 then "-" else "+"
  String.ofList (digits.take 1) ++ point ++ "e" ++ sign ++ toString leading.natAbs

/-- The text of a positive decimal. Zeros at the end of the coefficient are no digits. -/
def decimal (layout : NumberLayout) (number : Decimal) : String :=
  let written := Nat.toDigits 10 number.coefficient
  let leading := number.exponent + (written.length : Int) - 1
  let digits := (written.reverse.dropWhile (· = '0')).reverse
  if layout.inFull leading then full digits leading else withExponent digits leading

/-- The text of a number: the fewest digits that read back as it, set out by the layout. -/
def text (layout : NumberLayout) (number : Binary64) : String :=
  if number.isNaN then layout.nan
  else if number.isInfinite then
    if number.isNegative then layout.negativeInfinity else layout.infinity
  else
    let sign := if number.isNegative then "-" else ""
    if number.significand = 0 then sign ++ "0.0"
    else sign ++ layout.decimal (Decimal.ofBinary64 layout.tie number)

end NumberLayout

end LogIntake
