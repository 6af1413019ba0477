import LogIntake.Output.Basic

/-!
# Settings

What the collector can be told: where it listens, how much it takes on, and where entries go. Each
setting has a default; a settings file may change it, and the command line may change it again.
-/
set_option autoImplicit false

namespace LogIntake

structure Settings where
  host : String := "0.0.0.0"
  port : UInt16 := 24224
  maxConnections : UInt64 := 10000
  /-- The greatest number of bytes of an unfinished frame. -/
  maxFrameSize : UInt64 := 16777216
  output : Output := .lines
  /-- Seconds between logs of the metrics; 0 for none. -/
  metricsInterval : UInt64 := 60
  logLevel : String := "info"
  deriving DecidableEq, Repr, Inhabited

namespace Settings

/-- A host and a port as one address. A host with a colon in it is a literal IPv6 address and goes
in brackets. -/
def address (host : String) (port : UInt16) : String :=
  if ':' ∈ host.toList then s!"[{host}]:{port}" else s!"{host}:{port}"

def bindAddress (settings : Settings) : String := address settings.host settings.port

end Settings

end LogIntake
