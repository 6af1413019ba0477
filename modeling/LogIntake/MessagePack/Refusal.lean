import LogIntake.Decimal.Layout

/-!
# Why bytes are refused

The reasons for which bytes are no value, apart from ending too early, and the words for them.
-/
set_option autoImplicit false

namespace LogIntake.MessagePack

/-- What stands where the key of a map is due and is neither text nor binary. -/
inductive KeyFound where
  | integer (number : Int)
  | boolean (truth : Bool)
  | float (number : Binary64)
  | nil
  | sequence
  | map
  | extension
  deriving DecidableEq, Repr

inductive Refusal where
  | reservedMarker
  | tooDeep
  /-- An extension, which has no counterpart among values. -/
  | extension
  | key (found : KeyFound)
  deriving DecidableEq, Repr

/-- Numbers in messages are never written with an exponent, and a tie goes up. -/
def messageNumber : NumberLayout :=
  { inFull := fun _ => true
    tie := .up
    nan := "NaN"
    infinity := "inf"
    negativeInfinity := "-inf" }

def KeyFound.describe : KeyFound → String
  | integer number => s!"integer `{number}`"
  | boolean truth => s!"boolean `{truth}`"
  | float number => s!"floating point `{messageNumber.text number}`"
  | nil => "unit value"
  | sequence => "sequence"
  | map => "map"
  | extension => "newtype struct"

def Refusal.message : Refusal → String
  | reservedMarker => "wrong msgpack marker Reserved"
  | tooDeep => "depth limit exceeded"
  | extension => "invalid type: newtype struct, expected a MessagePack value"
  | key found => "invalid type: " ++ found.describe ++ ", expected a string map key"

end LogIntake.MessagePack
