import LogIntake.CommandLine
import LogIntake.Settings.Basic
import LogIntake.Text.Digits

/-!
# Settings on the command line

Every setting has an option. The log level that is the default counts as not given.
-/
set_option autoImplicit false

namespace LogIntake

structure Overrides where
  file : Option String := none
  host : Option String := none
  port : Option UInt16 := none
  maxConnections : Option UInt64 := none
  maxFrameSize : Option UInt64 := none
  output : Option Output := none
  metricsInterval : Option UInt64 := none
  logLevel : String := "info"
  deriving DecidableEq, Repr, Inhabited

namespace Overrides

open CommandLine

def grammar : Grammar Overrides where
  parameters :=
    [ { name := "config", letter := some 'c', action := .value (path fun value overrides =>
          { overrides with file := some value }) }
    , { name := "host", action := .value (word fun value overrides =>
          { overrides with host := some value }) }
    , { name := "port", letter := some 'p', action := .value (reading Digits.uint16?
          fun value overrides => { overrides with port := some value }) }
    , { name := "max-connections", action := .value (reading Digits.uint64?
          fun value overrides => { overrides with maxConnections := some value }) }
    , { name := "max-frame-size", action := .value (reading Digits.uint64?
          fun value overrides => { overrides with maxFrameSize := some value }) }
    , { name := "output", letter := some 'o', action := .value (choice Output.words
          fun value overrides => { overrides with output := some value }) }
    , { name := "metrics-interval", action := .value (reading Digits.uint64?
          fun value overrides => { overrides with metricsInterval := some value }) }
    , { name := "log-level", action := .value (word fun value overrides =>
          { overrides with logLevel := value }) } ]

def read (arguments : List String) : Except Refusal Overrides := grammar.read {} arguments

def applyTo (overrides : Overrides) (settings : Settings) : Settings where
  host := overrides.host.getD settings.host
  port := overrides.port.getD settings.port
  maxConnections := overrides.maxConnections.getD settings.maxConnections
  maxFrameSize := overrides.maxFrameSize.getD settings.maxFrameSize
  output := overrides.output.getD settings.output
  metricsInterval := overrides.metricsInterval.getD settings.metricsInterval
  logLevel := if overrides.logLevel ≠ "info" then overrides.logLevel else settings.logLevel

end Overrides

end LogIntake
