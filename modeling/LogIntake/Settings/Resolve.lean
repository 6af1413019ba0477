import LogIntake.Settings.File
import LogIntake.Settings.Overrides
import LogIntake.Text.Utf8
import LogIntake.Transport

/-!
# Resolving settings

From a command line to the settings that hold: the command line is read first, then the file that it
names, and what the command line says counts over the file.
-/
set_option autoImplicit false

namespace LogIntake.Settings

inductive Fault where
  | commandLine (refusal : CommandLine.Refusal)
  | unreadable (path : String) (cause : Transport.Failure)
  | invalid (path : String)
  deriving DecidableEq, Repr

def Fault.message : Fault → String
  | commandLine _ => "invalid command line"
  | unreadable path cause => s!"Failed to read config file '{path}': {cause.description}"
  | invalid path => s!"Failed to parse config file '{path}'"

/-- The settings in a file, with `contents` the files that there are. -/
def ofFile (contents : String → Except Transport.Failure Bytes) (path : String) :
    Except Fault Settings :=
  match contents path with
  | .error cause => .error (.unreadable path cause)
  | .ok bytes =>
    match Utf8.decode? bytes with
    | none => .error (.unreadable path .invalidData)
    | some text =>
      match (Toml.read? text).bind ofToml with
      | some settings => .ok settings
      | none => .error (.invalid path)

def resolve (contents : String → Except Transport.Failure Bytes) (arguments : List String) :
    Except Fault Settings :=
  match Overrides.read arguments with
  | .error refusal => .error (.commandLine refusal)
  | .ok overrides =>
    match overrides.file with
    | none => .ok (overrides.applyTo {})
    | some path => (ofFile contents path).map overrides.applyTo

end LogIntake.Settings
