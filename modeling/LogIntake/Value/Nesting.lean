import LogIntake.Value.Basic

/-!
# Nesting of values

How many containers stand inside one another. A record counts as the map that it is.
-/
set_option autoImplicit false

namespace LogIntake

mutual

/-- The greatest number of arrays and maps, one inside the other, on a way into the value. -/
def Value.depth : Value → Nat
  | .array items => Value.itemsDepth items + 1
  | .map fields => Value.fieldsDepth fields + 1
  | _ => 0

def Value.itemsDepth : List Value → Nat
  | [] => 0
  | item :: rest => max (Value.depth item) (Value.itemsDepth rest)

def Value.fieldsDepth : List (String × Value) → Nat
  | [] => 0
  | (_, value) :: rest => max (Value.depth value) (Value.fieldsDepth rest)

end

def Record.depth (record : Record) : Nat := Value.depth (.map record)

end LogIntake
