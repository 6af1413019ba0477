/-!
# Digits

Numbers written with digits of radix 2 to 16, in either case, and the signed decimal numbers that
people give as settings.
-/
set_option autoImplicit false

namespace LogIntake.Digits

def isDecimal (character : Char) : Bool := '0' ≤ character ∧ character ≤ '9'

def hexValue? (digit : Char) : Option Nat :=
  if '0' ≤ digit ∧ digit ≤ '9' then some (digit.toNat - '0'.toNat)
  else if 'a' ≤ digit ∧ digit ≤ 'f' then some (digit.toNat - 'a'.toNat + 10)
  else if 'A' ≤ digit ∧ digit ≤ 'F' then some (digit.toNat - 'A'.toNat + 10)
  else none

def value? (radix : Nat) (digit : Char) : Option Nat := (hexValue? digit).filter (· < radix)

/-- The number that digits write; characters that are no digits count as zero. -/
def ofDigits (radix : Nat) (digits : List Char) : Nat :=
  digits.foldl (fun number digit => number * radix + (value? radix digit).getD 0) 0

/-- The number that digits write, or `limit` if that is less. The work grows with the count of
digits alone, however great the number. -/
def ofDigitsUpTo (limit radix : Nat) (digits : List Char) : Nat :=
  digits.foldl (fun number digit => min (number * radix + (value? radix digit).getD 0) limit) 0

def below? (limit radix : Nat) (digits : List Char) : Option Nat :=
  let number := ofDigitsUpTo limit radix digits
  if number < limit then some number else none

def number? (limit radix : Nat) (text : List Char) : Option Nat :=
  if text ≠ [] ∧ text.all (fun digit => (value? radix digit).isSome) then below? limit radix text
  else none

/-- A decimal number below `limit`; a plus sign may stand before it. -/
def natural? (limit : Nat) (text : String) : Option Nat :=
  match text.toList with
  | '+' :: digits => number? limit 10 digits
  | digits => number? limit 10 digits

def uint64? (text : String) : Option UInt64 := (natural? UInt64.size text).map UInt64.ofNat

/-- A number of 16 bits; minus zero is one. -/
def uint16? (text : String) : Option UInt16 :=
  match text.toList with
  | '-' :: digits => (number? 1 10 digits).map UInt16.ofNat
  | _ => (natural? UInt16.size text).map UInt16.ofNat

end LogIntake.Digits
