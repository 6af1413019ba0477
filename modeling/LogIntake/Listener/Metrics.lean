import LogIntake.Listener.Basic
import LogIntake.Scoreboard

/-!
# Metrics of the listener

The topics that a listener puts on a scoreboard.
-/
set_option autoImplicit false

namespace LogIntake.Listener

def entryCount (listener : Listener) : String := toString listener.hub.entries

def connectionCount (listener : Listener) : String := toString listener.hub.registry.size

def metrics : Scoreboard Listener :=
  [ { name := "entries"
      display := "Total number of entries"
      description := "Total number of entries received so far"
      read := entryCount }
  , { name := "connections"
      display := "Connections"
      description := "Number of connections currently handled"
      read := connectionCount } ]

end LogIntake.Listener
