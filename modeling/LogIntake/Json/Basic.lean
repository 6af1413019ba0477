import LogIntake.Value.Basic

/-!
# JSON values

The tree that a JSON text writes, with the fields of an object in the order of the text, and the
value that it stands for.
-/
set_option autoImplicit false

namespace LogIntake

/-- A JSON value. Numbers without fraction and exponent are integers as long as they fit 64 bits. -/
inductive Json where
  | null
  | bool (truth : Bool)
  | natural (number : UInt64)
  /-- The negative of one more than the number, which is below `2 ^ 63`. -/
  | negative (number : Fin 0x8000000000000000)
  | float (number : Binary64)
  | string (content : String)
  | array (items : List Json)
  | object (fields : List (String × Json))
  deriving Repr, Inhabited

mutual

/-- The value that a JSON value stands for. Of fields with one key the last counts. -/
def Value.ofJson : Json → Value
  | .null => .nil
  | .bool truth => .bool truth
  | .natural number => .uint number
  | .negative number => .int (Int64.ofInt (-(number.val : Int) - 1))
  | .float number => .float number
  | .string content => .text content
  | .array items => .array (Value.itemsOfJson items)
  | .object fields => .map (Record.ofFields (Value.fieldsOfJson fields))

def Value.itemsOfJson : List Json → List Value
  | [] => []
  | item :: rest => Value.ofJson item :: Value.itemsOfJson rest

def Value.fieldsOfJson : List (String × Json) → List (String × Value)
  | [] => []
  | (key, field) :: rest => (key, Value.ofJson field) :: Value.fieldsOfJson rest

end

end LogIntake
