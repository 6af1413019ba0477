import LogIntake.Text.Digits

/-!
# Lines, keys and strings of TOML

The parts of a TOML text below values: blanks and comments, the ends of lines, keys, and the four
kinds of strings. Line breaks within strings read as line feeds.
-/
set_option autoImplicit false

namespace LogIntake.Toml

def isBlank (character : Char) : Bool := character = ' ' || character = '\t'

/-- What may stand in comments and, delimiters apart, in strings: everything but control characters,
and the tab. -/
def isPrintable (character : Char) : Bool :=
  character = '\t' || (' ' ≤ character && character ≠ '\x7f')

def dropBlanks (input : List Char) : List Char := input.dropWhile isBlank

def lineBreak? : List Char → Option (List Char)
  | '\n' :: rest => some rest
  | '\r' :: '\n' :: rest => some rest
  | _ => none

/-- The rest after the end of a line, before which blanks and a comment may stand. -/
def lineEnd? (input : List Char) : Option (List Char) :=
  let input := dropBlanks input
  let input := if input.head? = some '#' then input.dropWhile isPrintable else input
  if input.isEmpty then some [] else lineBreak? input

/-- Drops blanks, line breaks and comments, starting within a comment or not. -/
def dropLines : (comment : Bool) → List Char → List Char
  | _, [] => []
  | _, '\n' :: rest => dropLines false rest
  | _, '\r' :: '\n' :: rest => dropLines false rest
  | true, first :: rest => if isPrintable first then dropLines true rest else first :: rest
  | false, first :: rest =>
    if isBlank first then dropLines false rest
    else if first = '#' then dropLines true rest
    else first :: rest

def readScalar (count : Nat) (input : List Char) : Option (Char × List Char) := do
  let digits := input.take count
  let number ← Digits.number? 0x110000 16 digits
  if digits.length = count ∧ number.isValidChar then
    return (Char.ofNat number, input.drop digits.length)
  else none

def readEscape : List Char → Option (Char × List Char)
  | 'b' :: rest => some ('\x08', rest)
  | 't' :: rest => some ('\t', rest)
  | 'n' :: rest => some ('\n', rest)
  | 'f' :: rest => some ('\x0c', rest)
  | 'r' :: rest => some ('\r', rest)
  | '"' :: rest => some ('"', rest)
  | '\\' :: rest => some ('\\', rest)
  | 'u' :: rest => readScalar 4 rest
  | 'U' :: rest => readScalar 8 rest
  | _ => none

theorem length_of_readEscape {input rest : List Char} {character : Char}
    (h : readEscape input = some (character, rest)) : rest.length < input.length := by
  have scalar {count : Nat} {input : List Char}
      (h : readScalar count input = some (character, rest)) :
      rest.length ≤ input.length := by
    simp only [readScalar, Option.bind_eq_bind, Option.bind_eq_some_iff] at h
    obtain ⟨number, -, h⟩ := h
    split at h
    · cases h
      simp
    · cases h
  unfold readEscape at h
  split at h
  case h_8 => exact Nat.lt_succ_of_le (scalar h)
  case h_9 => exact Nat.lt_succ_of_le (scalar h)
  all_goals cases h
  all_goals simp

/-- A string between single marks, on one line; the input starts after the first mark. -/
def readBasic (input : List Char) : Option (List Char × List Char) :=
  match input with
  | [] => none
  | first :: rest =>
    if first = '"' then some ([], rest)
    else if first = '\\' then
      match _run : readEscape rest with
      | none => none
      | some (character, rest) =>
        (readBasic rest).map fun (content, rest) => (character :: content, rest)
    else if isPrintable first then
      (readBasic rest).map fun (content, rest) => (first :: content, rest)
    else none
termination_by input.length
decreasing_by
  · have := length_of_readEscape _run
    simp only [List.length_cons]
    omega
  · simp

def readLiteral : List Char → Option (List Char × List Char)
  | [] => none
  | first :: rest =>
    if first = '\'' then some ([], rest)
    else if isPrintable first then
      (readLiteral rest).map fun (content, rest) => (first :: content, rest)
    else none

/-- The end of a string between triple marks, after three of them: up to two more belong to the
string. -/
def readMarks (mark : Char) (input : List Char) : List Char × List Char :=
  let extra := (input.take 2).takeWhile (· = mark)
  (extra, input.drop extra.length)

def dropSpace : List Char → List Char
  | [] => []
  | '\r' :: '\n' :: rest => dropSpace rest
  | first :: rest => if isBlank first || first = '\n' then dropSpace rest else first :: rest

theorem length_dropSpace_le (input : List Char) : (dropSpace input).length ≤ input.length := by
  fun_induction dropSpace input with
  | case1 => exact Nat.le_refl _
  | case2 rest ih => simp only [List.length_cons]; omega
  | case3 first rest _ _ ih => simp only [List.length_cons]; omega
  | case4 => exact Nat.le_refl _

/-- A string between triple marks; the input starts after the first three. A backslash at the end of
a line drops the line break and the blanks and line breaks after it. -/
def readLongBasic (input : List Char) : Option (List Char × List Char) :=
  match input with
  | [] => none
  | '"' :: '"' :: '"' :: rest => some (readMarks '"' rest)
  | '\r' :: '\n' :: rest => (readLongBasic rest).map fun (content, rest) => ('\n' :: content, rest)
  | first :: rest =>
    if first = '\\' then
      if (lineBreak? (dropBlanks rest)).isSome then
        readLongBasic (dropSpace rest)
      else
        match _run : readEscape rest with
        | none => none
        | some (character, rest) =>
          (readLongBasic rest).map fun (content, rest) => (character :: content, rest)
    else if isPrintable first || first = '\n' then
      (readLongBasic rest).map fun (content, rest) => (first :: content, rest)
    else none
termination_by input.length
decreasing_by
  · simp +arith
  · have := length_dropSpace_le rest
    simp only [List.length_cons]
    omega
  · have := length_of_readEscape _run
    simp only [List.length_cons]
    omega
  · simp

def readLongLiteral : List Char → Option (List Char × List Char)
  | [] => none
  | '\'' :: '\'' :: '\'' :: rest => some (readMarks '\'' rest)
  | '\r' :: '\n' :: rest =>
    (readLongLiteral rest).map fun (content, rest) => ('\n' :: content, rest)
  | first :: rest =>
    if isPrintable first || first = '\n' then
      (readLongLiteral rest).map fun (content, rest) => (first :: content, rest)
    else none

/-- A line break right after the opening marks belongs to them. -/
def dropFirstBreak (input : List Char) : List Char := (lineBreak? input).getD input

def isBare (character : Char) : Bool :=
  character.isAlphanum || character = '-' || character = '_'

/-- One part of a key: a string on one line, or bare letters, digits, hyphens and underscores. -/
def readPart (input : List Char) : Option (String × List Char) :=
  match input with
  | '"' :: rest => (readBasic rest).map fun (content, rest) => (String.ofList content, rest)
  | '\'' :: rest => (readLiteral rest).map fun (content, rest) => (String.ofList content, rest)
  | input =>
    let bare := input.takeWhile isBare
    if bare.isEmpty then none else some (String.ofList bare, input.drop bare.length)

def readParts : Nat → List Char → Option (List String × List Char)
  | 0, _ => none
  | bound + 1, input => do
    let (first, rest) ← readPart (dropBlanks input)
    match dropBlanks rest with
    | '.' :: rest => (readParts bound rest).map fun (others, rest) => (first :: others, rest)
    | rest => return ([first], rest)

def readKey (input : List Char) : Option ((List String × String) × List Char) := do
  let (parts, rest) ← readParts 79 input
  return ((parts.dropLast, ← parts.getLast?), rest)

end LogIntake.Toml
