import LogIntake.Settings.Basic
import LogIntake.Toml.Reader

/-!
# Settings files

The settings that a TOML table holds, in four sections. What is missing has its default, and what is
not known is passed over; a known setting of the wrong kind, or out of its range, makes the whole
file invalid. A section may also be an array, which holds its settings by position, or a date, which
holds none of them.
-/
set_option autoImplicit false

namespace LogIntake.Settings

/-- The settings of a section by name, where `names` are those that the section may hold. -/
def section? (names : List String) : Toml → Option Toml.Fields
  | .table _ fields => some fields
  | .array items => some (names.zip items)
  | .tables elements => some (names.zip (elements.reverse.map (Toml.table .header)))
  | .dateTime => some []
  | _ => none

def text? : Toml → Option String
  | .string content => some content
  | _ => none

def number? (bits : Nat) : Toml → Option Nat
  | .integer number =>
    if 0 ≤ number ∧ number.toInt < Nat.pow 2 bits then some number.toInt.toNat else none
  | _ => none

/-- An output: its word, or a table with that word as its one key and nothing in it. -/
def output? : Toml → Option Output
  | .string word => Output.words.lookup word
  | .table _ [(word, .table _ [])] => Output.words.lookup word
  | .table _ [(word, .array [])] => Output.words.lookup word
  | _ => none

def setting {α : Type} (fields : Toml.Fields) (name : String) (read : Toml → Option α)
    (default : α) : Option α :=
  match fields.lookup name with
  | some value => read value
  | none => some default

/-- The section under a name; a missing one is empty. -/
def sectionOf (fields : Toml.Fields) (name : String) (names : List String) : Option Toml.Fields :=
  setting fields name (section? names) []

def ofToml (fields : Toml.Fields) : Option Settings := do
  let defaults : Settings := {}
  let server ← sectionOf fields "server" ["host", "port", "max_connections", "max_frame_size"]
  let output ← sectionOf fields "output" ["kind"]
  let metrics ← sectionOf fields "metrics" ["interval"]
  let logging ← sectionOf fields "logging" ["level"]
  return {
    host := ← setting server "host" text? defaults.host
    port := UInt16.ofNat (← setting server "port" (number? 16) defaults.port.toNat)
    maxConnections :=
      UInt64.ofNat (← setting server "max_connections" (number? 64) defaults.maxConnections.toNat)
    maxFrameSize :=
      UInt64.ofNat (← setting server "max_frame_size" (number? 64) defaults.maxFrameSize.toNat)
    output := ← setting output "kind" output? defaults.output
    metricsInterval :=
      UInt64.ofNat (← setting metrics "interval" (number? 64) defaults.metricsInterval.toNat)
    logLevel := ← setting logging "level" text? defaults.logLevel }

end LogIntake.Settings
