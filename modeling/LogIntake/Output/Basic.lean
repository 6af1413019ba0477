import LogIntake.Json.Writer
import LogIntake.Output.Event

/-!
# Outputs

Where entries go in the end: to a stream as JSON lines, into the log, or nowhere.
-/
set_option autoImplicit false

namespace LogIntake

inductive Output where
  | lines | log | discard
  deriving DecidableEq, Repr, Inhabited

namespace Output

def words : List (String × Output) := [("stdout", lines), ("log", log), ("discard", discard)]

def eventOf (entry : Entry) : Event :=
  { level := .info
    message := "entry"
    fields :=
      [ ("tag", entry.tag)
      , ("timestamp", String.ofList (Json.writeNat entry.timestamp.toNat))
      , ("data", String.ofList (Json.write (.map entry.data))) ] }

def events (output : Output) (batch : Batch) : List Event :=
  match output with
  | log => batch.map eventOf
  | _ => []

end Output

end LogIntake
