/-!
# TOML tables

The tree that a TOML text writes. The text defines tables in several ways: under a header, on the
way to a header, by dotted keys, or inline. A table remembers its way, for that decides what may
still be added to it: no key twice, nothing to an inline table, no second header for one table, and
no dotted key into a table that has a header. `put` and `openTable` keep these rules.

Floats and dates are told apart from other values and not kept, because no setting is one.
-/
set_option autoImplicit false

namespace LogIntake

inductive Toml.Origin where
  | header
  /-- As a table on the way to a header. -/
  | implied
  | dotted
  | inline
  deriving DecidableEq, Repr

inductive Toml where
  | string (content : String)
  | integer (number : Int64)
  | float
  | bool (truth : Bool)
  | dateTime
  | array (items : List Toml)
  | table (origin : Toml.Origin) (fields : List (String × Toml))
  /-- An array of tables that have headers, with the fields of each; the last one comes first. -/
  | tables (elements : List (List (String × Toml)))
  deriving Repr, Inhabited

namespace Toml

abbrev Fields := List (String × Toml)

def Fields.replace (fields : Fields) (key : String) (value : Toml) : Fields :=
  fields.map fun field => if field.1 = key then (key, value) else field

/-- Changes the table at the end of a path, given the origin and fields of the table at its start. A
table that is missing on the way is made, with the origin `made`; of an array of tables the last one
is taken. Inline tables stay as they are, and dotted keys reach into no table that has a header. -/
def changeAt (made : Origin) (change : Origin → Fields → Option Fields) :
    (path : List String) → Origin → Fields → Option Fields
  | [], origin, fields => change origin fields
  | key :: path, _, fields =>
    match fields.lookup key with
    | none => do return (key, .table made (← changeAt made change path made [])) :: fields
    | some (.table origin inner) =>
      if origin = .inline ∨ made = .dotted ∧ origin = .header then none
      else do
        return Fields.replace fields key (.table origin (← changeAt made change path origin inner))
    | some (.tables []) => none
    | some (.tables (last :: others)) => do
      let last ← changeAt made change path .header last
      return Fields.replace fields key (.tables (last :: others))
    | some _ => none

/-- Adds a field under a dotted key. The table at the end of the path has to come from dotted keys
itself, if there is a path. -/
def put (path : List String) (key : String) (value : Toml) : Origin → Fields → Option Fields :=
  changeAt .dotted (fun origin fields =>
    if (origin = .dotted) ≠ (path ≠ []) ∨ (fields.lookup key).isSome then none
    else some ((key, value) :: fields)) path

/-- Opens the table of a header. It may have been implied before, and nothing else. -/
def openTable (path : List String) (key : String) : Fields → Option Fields :=
  changeAt .implied (fun _ fields =>
    match fields.lookup key with
    | none => some ((key, .table .header []) :: fields)
    | some (.table .implied inner) => some (Fields.replace fields key (.table .header inner))
    | some _ => none) path .header

def openElement (path : List String) (key : String) : Fields → Option Fields :=
  changeAt .implied (fun _ fields =>
    match fields.lookup key with
    | none => some ((key, .tables [[]]) :: fields)
    | some (.tables elements) => some (Fields.replace fields key (.tables ([] :: elements)))
    | some _ => none) path .header

end Toml

end LogIntake
