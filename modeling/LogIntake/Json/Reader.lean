import LogIntake.Json.Number

/-!
# JSON values from text

`read?` reads a text that is one JSON value, blanks around it allowed. Nesting is followed down to a
fixed depth. Nothing is lenient: no comma before a closing bracket, no control character in a
string, no half of a surrogate pair, no leading zeros.
-/
set_option autoImplicit false

namespace LogIntake.Json

def isBlank (character : Char) : Bool := character ∈ [' ', '\t', '\n', '\r']

def dropBlanks (input : List Char) : List Char := input.dropWhile isBlank

def unit? (a b c d : Char) : Option Nat := do
  return (← Digits.hexValue? a) * 4096 + (← Digits.hexValue? b) * 256 +
    (← Digits.hexValue? c) * 16 + (← Digits.hexValue? d)

def ofUnit? (unit : Nat) : Option Char :=
  if unit < 0xd800 ∨ 0xdfff < unit then some (Char.ofNat unit) else none

def ofPair? (high low : Nat) : Option Char :=
  if 0xd800 ≤ high ∧ high ≤ 0xdbff ∧ 0xdc00 ≤ low ∧ low ≤ 0xdfff then
    some (Char.ofNat ((high - 0xd800) * 1024 + (low - 0xdc00) + 0x10000))
  else none

/-- The character that an escape names; the input starts after the backslash. -/
def readEscape : List Char → Option (Char × List Char)
  | '"' :: rest => some ('"', rest)
  | '\\' :: rest => some ('\\', rest)
  | '/' :: rest => some ('/', rest)
  | 'b' :: rest => some ('\x08', rest)
  | 'f' :: rest => some ('\x0c', rest)
  | 'n' :: rest => some ('\n', rest)
  | 'r' :: rest => some ('\r', rest)
  | 't' :: rest => some ('\t', rest)
  | 'u' :: a :: b :: c :: d :: rest => do
    let unit ← unit? a b c d
    match ofUnit? unit with
    | some character => return (character, rest)
    | none =>
      match rest with
      | '\\' :: 'u' :: a :: b :: c :: d :: rest => return (← ofPair? unit (← unit? a b c d), rest)
      | _ => none
  | _ => none

theorem length_of_readEscape {input rest : List Char} {character : Char}
    (h : readEscape input = some (character, rest)) : rest.length < input.length := by
  unfold readEscape at h
  split at h
  case h_9 =>
    simp only [Option.bind_eq_bind, Option.bind_eq_some_iff] at h
    obtain ⟨unit, -, h⟩ := h
    split at h
    · cases h; simp +arith
    · split at h
      · simp only [Option.bind_eq_some_iff] at h
        obtain ⟨_, -, _, -, h⟩ := h
        cases h
        simp +arith
      · cases h
  all_goals cases h
  all_goals simp

/-- The characters up to the closing quote; the input starts after the opening one. -/
def readString (input : List Char) : Option (List Char × List Char) :=
  match input with
  | [] => none
  | first :: rest =>
    if first = '"' then some ([], rest)
    else if first = '\\' then
      match _run : readEscape rest with
      | none => none
      | some (character, rest) =>
        (readString rest).map fun (content, rest) => (character :: content, rest)
    else if first.toNat < 0x20 then none
    else (readString rest).map fun (content, rest) => (first :: content, rest)
termination_by input.length
decreasing_by
  · have := length_of_readEscape _run
    simp only [List.length_cons]
    omega
  · simp

def readDigits (input : List Char) : Option (List Char × List Char) :=
  match input.span Digits.isDecimal with
  | ([], _) => none
  | found => some found

def readFraction : List Char → Option (Option (List Char) × List Char)
  | '.' :: rest => (readDigits rest).map fun (digits, rest) => (some digits, rest)
  | input => some (none, input)

/-- An integer of decimal digits with a sign or without, cut to the powers that are computed
with. -/
def readSigned : List Char → Option (Int × List Char)
  | '-' :: rest =>
    (readDigits rest).map fun (digits, rest) => (-Digits.ofDigitsUpTo powerLimit 10 digits, rest)
  | '+' :: rest | rest =>
    (readDigits rest).map fun (digits, rest) => (Digits.ofDigitsUpTo powerLimit 10 digits, rest)

def readPower : List Char → Option (Option Int × List Char)
  | 'e' :: rest | 'E' :: rest => (readSigned rest).map fun (power, rest) => (some power, rest)
  | input => some (none, input)

/-- The parts of the number at the front. A zero ends the digits before the point. -/
def readNumeral (input : List Char) : Option (Numeral × List Char) := do
  let unsigned := if input.head? = some '-' then input.drop 1 else input
  let (whole, rest) ← readDigits unsigned
  if whole.head? = some '0' ∧ whole.length ≠ 1 then none
  else
    let (fraction, rest) ← readFraction rest
    let (power, rest) ← readPower rest
    return (⟨input.head? = some '-', whole, fraction, power⟩, rest)

def expect : (word : List Char) → List Char → Option (List Char)
  | [], input => some input
  | _ :: _, [] => none
  | letter :: word, first :: rest => if first = letter then expect word rest else none

/-- Items with commas between them, one at least, up to the closing bracket. There are no more of
them than `bound` has characters. -/
def separated {α : Type} (item : List Char → Option (α × List Char)) (close : Char) :
    (bound : List Char) → List Char → Option (List α × List Char)
  | [], _ => none
  | _ :: bound, input =>
    match item input with
    | none => none
    | some (first, rest) =>
      match dropBlanks rest with
      | [] => none
      | next :: rest =>
        if next = close then some ([first], rest)
        else if next = ',' then
          (separated item close bound rest).map fun (others, rest) => (first :: others, rest)
        else none

def enclosed {α : Type} (item : List Char → Option (α × List Char)) (close : Char)
    (input : List Char) : Option (List α × List Char) :=
  match dropBlanks input with
  | [] => none
  | next :: rest =>
    if next = close then some ([], rest) else separated item close input input

def readField {α : Type} (value : List Char → Option (α × List Char)) (input : List Char) :
    Option ((String × α) × List Char) :=
  match dropBlanks input with
  | '"' :: rest => do
    let (key, rest) ← readString rest
    match dropBlanks rest with
    | ':' :: rest => (value rest).map fun (found, rest) => ((String.ofList key, found), rest)
    | _ => none
  | _ => none

/-- Reads a value in which at most `depth` arrays and objects stand one inside the other. -/
def readWithin (depth : Nat) (input : List Char) : Option (Json × List Char) :=
  match dropBlanks input with
  | 'n' :: rest => (expect ['u', 'l', 'l'] rest).map (.null, ·)
  | 't' :: rest => (expect ['r', 'u', 'e'] rest).map (.bool true, ·)
  | 'f' :: rest => (expect ['a', 'l', 's', 'e'] rest).map (.bool false, ·)
  | '"' :: rest =>
    (readString rest).map fun (content, rest) => (.string (String.ofList content), rest)
  | '[' :: rest =>
    match depth with
    | 0 => none
    | depth + 1 =>
      (enclosed (readWithin depth) ']' rest).map fun (items, rest) => (.array items, rest)
  | '{' :: rest =>
    match depth with
    | 0 => none
    | depth + 1 =>
      (enclosed (readField (readWithin depth)) '}' rest).map fun (fields, rest) =>
        (.object fields, rest)
  | input => do
    let (numeral, rest) ← readNumeral input
    return (← numeral.value?, rest)

def depthLimit : Nat := 127

def read? (text : String) : Option Json :=
  match readWithin depthLimit text.toList with
  | some (value, rest) => if dropBlanks rest = [] then some value else none
  | none => none

end LogIntake.Json
