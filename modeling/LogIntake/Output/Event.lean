/-!
# Log events

Lines for people about what the program does: a message with named fields.
-/
set_option autoImplicit false

namespace LogIntake

inductive Level where
  | trace | debug | info | warn | error
  deriving DecidableEq, Repr

def Level.name : Level → String
  | trace => "TRACE"
  | debug => "DEBUG"
  | info => "INFO"
  | warn => "WARN"
  | error => "ERROR"

structure Event where
  level : Level
  message : String
  fields : List (String × String)
  deriving DecidableEq, Repr

end LogIntake
