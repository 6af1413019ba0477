import LogIntake.Toml.Basic
import LogIntake.Text.Digits

/-!
# Numbers and dates of TOML

Integers of 64 bits in four radixes, floats, and the four forms of dates and times. A positive float
past the greatest one is refused. Of dates only the form is read, and that there is such a day.
-/
set_option autoImplicit false

namespace LogIntake.Toml

/-- Digits of a radix, one at least; an underscore may stand between two of them. Gives the digits
alone. -/
def readDigits (radix : Nat) : List Char → Option (List Char × List Char)
  | [] => none
  | first :: rest =>
    if (Digits.value? radix first).isSome then
      match rest with
      | '_' :: rest => (readDigits radix rest).map fun (digits, rest) => (first :: digits, rest)
      | rest =>
        match readDigits radix rest with
        | some (digits, rest) => some (first :: digits, rest)
        | none =>
          if rest.head?.any fun next => (Digits.value? radix next).isSome then none
          else some ([first], rest)
    else none

def readSign : List Char → Bool × List Char
  | '-' :: rest => (true, rest)
  | '+' :: rest => (false, rest)
  | input => (false, input)

/-- The digits of a decimal integer: a zero stands alone. -/
def readWhole (input : List Char) : Option (List Char × List Char) :=
  match input with
  | '0' :: rest => some (['0'], rest)
  | input => readDigits 10 input

def radix? : List Char → Option Nat
  | ['0', 'x'] => some 16
  | ['0', 'o'] => some 8
  | ['0', 'b'] => some 2
  | _ => none

/-- An integer that fits 64 bits. Only decimal integers have a sign. -/
def readInteger (input : List Char) : Option (Toml × List Char) :=
  match radix? (input.take 2) with
  | some radix => do
    let (digits, rest) ← readDigits radix (input.drop 2)
    return (.integer (Int64.ofNat (← Digits.below? 0x8000000000000000 radix digits)), rest)
  | none => do
    let (negative, unsigned) := readSign input
    let (digits, rest) ← readWhole unsigned
    if negative then
      return (.integer (Int64.ofInt (-(← Digits.below? 0x8000000000000001 10 digits : Nat))), rest)
    else return (.integer (Int64.ofNat (← Digits.below? 0x8000000000000000 10 digits)), rest)

def readFraction : List Char → Option (List Char × List Char)
  | '.' :: rest => readDigits 10 rest
  | _ => none

/-- The power of ten that digits write. Once it is past `0xffff`, further digits are passed over. -/
def powerOfDigits (digits : List Char) : Nat :=
  digits.foldl (fun power digit =>
    if power < 0x10000 then power * 10 + (Digits.value? 10 digit).getD 0 else power) 0

def readPower : List Char → Option (Int × List Char)
  | 'e' :: rest | 'E' :: rest => do
    let (negative, unsigned) := readSign rest
    let (digits, rest) ← readDigits 10 unsigned
    let power : Int := powerOfDigits digits
    return (if negative then -power else power, rest)
  | _ => none

/-- Half a unit past the greatest finite float; from here on numbers round to infinity. -/
def overflow : Nat := Nat.pow 2 1024 - Nat.pow 2 970

/-- Whether digits times `10 ^ exponent` round to a finite float. The count of places before the
point decides, except where it is just that of the greatest float; there the digits decide in
order. -/
def isFinite (digits : List Char) (exponent : Int) : Bool :=
  let significant := digits.dropWhile (· = '0')
  let places := significant.length + exponent
  significant.isEmpty || places ≤ 308 ||
    (places = 309 && significant < Nat.toDigits 10 overflow)

def readDecimal (input : List Char) : Option (Toml × List Char) := do
  let (negative, unsigned) := readSign input
  let (whole, rest) ← readWhole unsigned
  let (fraction, power, rest) ← match readFraction rest with
    | some (fraction, rest) =>
      match readPower rest with
      | some (power, rest) => some (fraction, power, rest)
      | none => some (fraction, 0, rest)
    | none => (readPower rest).map fun (power, rest) => ([], power, rest)
  if negative || isFinite (whole ++ fraction) (power - fraction.length) then
    return (.float, rest)
  else none

def readSpecial (input : List Char) : Option (Toml × List Char) :=
  let (_, unsigned) := readSign input
  match unsigned with
  | 'i' :: 'n' :: 'f' :: rest => some (.float, rest)
  | 'n' :: 'a' :: 'n' :: rest => some (.float, rest)
  | _ => none

def readCounted (count low high : Nat) (input : List Char) : Option (Nat × List Char) := do
  let digits := input.take count
  if digits.length = count ∧ digits.all Digits.isDecimal then
    let number := Digits.ofDigits 10 digits
    if low ≤ number ∧ number ≤ high then return (number, input.drop count) else none
  else none

def daysOf (year month : Nat) : Nat :=
  if month = 2 then if year % 4 = 0 ∧ (year % 100 ≠ 0 ∨ year % 400 = 0) then 29 else 28
  else if month ∈ [4, 6, 9, 11] then 30
  else 31

def expectOne (wanted : Char) : List Char → Option (List Char)
  | first :: rest => if first = wanted then some rest else none
  | [] => none

def readDate (input : List Char) : Option (List Char) := do
  let (year, rest) ← readCounted 4 0 9999 input
  let (month, rest) ← readCounted 2 1 12 (← expectOne '-' rest)
  let (_, rest) ← readCounted 2 1 (daysOf year month) (← expectOne '-' rest)
  return rest

def readTime (input : List Char) : Option (List Char) := do
  let (_, rest) ← readCounted 2 0 23 input
  let (_, rest) ← readCounted 2 0 59 (← expectOne ':' rest)
  let (_, rest) ← readCounted 2 0 60 (← expectOne ':' rest)
  match rest with
  | '.' :: fraction =>
    return if fraction.head?.any Digits.isDecimal then fraction.dropWhile Digits.isDecimal else rest
  | rest => return rest

def readOffset : List Char → Option (List Char)
  | 'Z' :: rest | 'z' :: rest => some rest
  | '+' :: rest | '-' :: rest => do
    let (_, rest) ← readCounted 2 0 23 rest
    let (_, rest) ← readCounted 2 0 59 (← expectOne ':' rest)
    return rest
  | _ => none

def readDateTime (input : List Char) : Option (Toml × List Char) :=
  match readDate input with
  | some rest =>
    let time := match rest with
      | first :: rest => if first ∈ ['T', 't', ' '] then readTime rest else none
      | [] => none
    match time with
    | some rest => some (.dateTime, (readOffset rest).getD rest)
    | none => some (.dateTime, rest)
  | none => (readTime input).map (.dateTime, ·)

/-- A number, a date or a time. The first of these that fits is taken. -/
def readNumber (input : List Char) : Option (Toml × List Char) :=
  readDateTime input <|> readDecimal input <|> readSpecial input <|> readInteger input

end LogIntake.Toml
