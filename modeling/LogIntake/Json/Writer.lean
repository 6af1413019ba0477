import LogIntake.Decimal.Layout
import LogIntake.Frame.Basic

/-!
# JSON from values

Compact JSON text: no blanks, fields in key order, a binary string as the array of its bytes.
Whatever strings hold, no character below U+0020 is written, so a text takes up one line.
-/
set_option autoImplicit false

namespace LogIntake.Json

def hexDigit (digit : Nat) : Char := Nat.digitChar digit

def escape (character : Char) : List Char :=
  if character = '"' then ['\\', '"']
  else if character = '\\' then ['\\', '\\']
  else if character = '\x08' then ['\\', 'b']
  else if character = '\t' then ['\\', 't']
  else if character = '\n' then ['\\', 'n']
  else if character = '\x0c' then ['\\', 'f']
  else if character = '\r' then ['\\', 'r']
  else if character.toNat < 0x20 then
    ['\\', 'u', '0', '0', hexDigit (character.toNat / 16), hexDigit (character.toNat % 16)]
  else [character]

def writeString (content : String) : List Char :=
  '"' :: (content.toList.flatMap escape ++ ['"'])

def writeNat (number : Nat) : List Char := Nat.toDigits 10 number

def writeInt (number : Int) : List Char :=
  if number < 0 then '-' :: writeNat number.natAbs else writeNat number.natAbs

/-- Numbers from `0.00001` to below `10 ^ 16` are written out in full, and a tie goes to the even
digit. JSON has no infinities. -/
def numberLayout : NumberLayout :=
  { inFull := fun leading => -5 ≤ leading ∧ leading ≤ 15
    tie := .toEven
    nan := "null"
    infinity := "null"
    negativeInfinity := "null" }

def commas : List (List Char) → List Char
  | [] => []
  | [only] => only
  | first :: rest => first ++ ',' :: commas rest

mutual

def write : Value → List Char
  | .nil => "null".toList
  | .bool true => "true".toList
  | .bool false => "false".toList
  | .uint number => writeNat number.toNat
  | .int number => writeInt number.toInt
  | .float number => (numberLayout.text number).toList
  | .text content => writeString content
  | .binary content => '[' :: (commas (content.map fun byte => writeNat byte.toNat) ++ [']'])
  | .array items => '[' :: (commas (writeItems items) ++ [']'])
  | .map fields => '{' :: (commas (writeFields fields) ++ ['}'])

def writeItems : List Value → List (List Char)
  | [] => []
  | item :: rest => write item :: writeItems rest

def writeFields : List (String × Value) → List (List Char)
  | [] => []
  | (key, value) :: rest => (writeString key ++ ':' :: write value) :: writeFields rest

end

def writeEntry (entry : Entry) : List Char :=
  '{' :: (commas
    [ writeString "tag" ++ ':' :: writeString entry.tag
    , writeString "timestamp" ++ ':' :: writeNat entry.timestamp.toNat
    , writeString "data" ++ ':' :: write (.map entry.data) ] ++ ['}'])

end LogIntake.Json
