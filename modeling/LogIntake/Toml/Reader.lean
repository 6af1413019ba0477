import LogIntake.Toml.Number
import LogIntake.Toml.Text

/-!
# TOML tables from text

`read?` reads a whole TOML text as the fields of its outermost table. The text is a series of lines:
fields, headers, and lines with at most a comment. Nesting of arrays and inline tables is followed
down to a fixed depth.
-/
set_option autoImplicit false

namespace LogIntake.Toml

def expectWord : (word : List Char) → List Char → Option (List Char)
  | [], input => some input
  | letter :: word, input => do expectWord word (← expectOne letter input)

/-- The items of an array up to its bracket; comments and line breaks may stand between them, and a
comma after the last. There are no more of them than `bound` has characters. -/
def readItems (value : List Char → Option (Toml × List Char)) :
    (bound : List Char) → List Char → Option (List Toml × List Char)
  | [], _ => none
  | _ :: bound, input =>
    match dropLines false input with
    | ']' :: rest => some ([], rest)
    | input => do
      let (first, rest) ← value input
      match dropLines false rest with
      | ']' :: rest => return ([first], rest)
      | ',' :: rest =>
        (readItems value bound rest).map fun (others, rest) => (first :: others, rest)
      | _ => none

def readField (value : List Char → Option (Toml × List Char)) (input : List Char) :
    Option ((List String × String × Toml) × List Char) := do
  let ((path, key), rest) ← readKey input
  let (found, rest) ← value (dropBlanks (← expectOne '=' rest))
  return ((path, key, found), rest)

/-- The fields of an inline table up to its brace, one at least, added to those before them. There
are no more of them than `bound` has characters. -/
def readInline (value : List Char → Option (Toml × List Char)) :
    (bound : List Char) → Fields → List Char → Option (Fields × List Char)
  | [], _, _ => none
  | _ :: bound, fields, input => do
    let ((path, key, found), rest) ← readField value input
    let fields ← put path key found .inline fields
    match dropBlanks rest with
    | '}' :: rest => return (fields, rest)
    | ',' :: rest => readInline value bound fields rest
    | _ => none

def readWithin (depth : Nat) (input : List Char) : Option (Toml × List Char) :=
  let text (found : Option (List Char × List Char)) : Option (Toml × List Char) :=
    found.map fun (content, rest) => (.string (String.ofList content), rest)
  match input with
  | '"' :: '"' :: '"' :: rest => text (readLongBasic (dropFirstBreak rest))
  | '"' :: rest => text (readBasic rest)
  | '\'' :: '\'' :: '\'' :: rest => text (readLongLiteral (dropFirstBreak rest))
  | '\'' :: rest => text (readLiteral rest)
  | 't' :: rest => (expectWord ['r', 'u', 'e'] rest).map (.bool true, ·)
  | 'f' :: rest => (expectWord ['a', 'l', 's', 'e'] rest).map (.bool false, ·)
  | '[' :: rest =>
    match depth with
    | 0 => none
    | depth + 1 =>
      (readItems (readWithin depth) input rest).map fun (items, rest) => (.array items, rest)
  | '{' :: rest =>
    match depth with
    | 0 => none
    | depth + 1 =>
      match dropBlanks rest with
      | '}' :: rest => some (.table .inline [], rest)
      | rest =>
        (readInline (readWithin depth) input [] rest).map fun (fields, rest) =>
          (.table .inline fields, rest)
  | input => readNumber input

def depthLimit : Nat := 79

/-- What was read so far: the fields of the outermost table, and the path to the table of the last
header. -/
structure Document where
  fields : Fields := []
  header : List String := []
  deriving Repr, Inhabited

def readHeader (document : Document) (input : List Char) : Option (Document × List Char) :=
  match input with
  | '[' :: rest => do
    let ((path, key), rest) ← readKey rest
    let rest ← lineEnd? (← expectWord [']', ']'] rest)
    return ({ fields := ← openElement path key document.fields, header := path ++ [key] }, rest)
  | rest => do
    let ((path, key), rest) ← readKey rest
    let rest ← lineEnd? (← expectOne ']' rest)
    return ({ fields := ← openTable path key document.fields, header := path ++ [key] }, rest)

def readLine (document : Document) (input : List Char) : Option (Document × List Char) := do
  let ((path, key, value), rest) ← readField (readWithin depthLimit) input
  let rest ← lineEnd? rest
  let fields ← changeAt .implied (put path key value) document.header .header document.fields
  return ({ document with fields }, rest)

/-- Takes line after line up to the end of the text. Each takes a character at least, so there are
no more of them than `bound` has characters. -/
def readLines : (bound : List Char) → Document → List Char → Option Document
  | [], document, input => if input.isEmpty then some document else none
  | _ :: bound, document, input =>
    match dropBlanks input with
    | [] => some document
    | '[' :: rest => do
      let (document, rest) ← readHeader document rest
      readLines bound document rest
    | first :: rest =>
      if first ∈ ['#', '\n', '\r'] then do readLines bound document (← lineEnd? (first :: rest))
      else do
        let (document, rest) ← readLine document (first :: rest)
        readLines bound document rest

/-- The fields of the outermost table of a text, before which a byte order mark may stand. -/
def read? (text : String) : Option Fields :=
  let input := text.toList
  let input := if input.head? = some '\ufeff' then input.drop 1 else input
  (readLines input {} input).map Document.fields

end LogIntake.Toml
