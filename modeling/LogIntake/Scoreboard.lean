import LogIntake.Output.Event
import LogIntake.Text.Quoted

/-!
# Scoreboards

Named metrics, each with a way to read its present value off the state of its owner. A scoreboard
lists topics in the order in which they were added and shows them together, on demand or at fixed
intervals.
-/
set_option autoImplicit false

namespace LogIntake

structure Topic (σ : Type) where
  name : String
  display : String
  description : String
  read : σ → String

abbrev Scoreboard (σ : Type) := List (Topic σ)

namespace Scoreboard

variable {σ : Type}

def add (board : Scoreboard σ) (topic : Topic σ) : Scoreboard σ := board ++ [topic]

def snapshot (board : Scoreboard σ) (state : σ) : List (String × String) :=
  board.map fun topic => (topic.name, topic.read state)

def events (board : Scoreboard σ) (state : σ) : List Event :=
  board.map fun topic =>
    { level := .info
      message := topic.display
      fields := [("metric", topic.name), ("value", topic.read state)] }

def describe (board : Scoreboard σ) : String :=
  let topics := board.map fun topic =>
    "MetricTopic \x7b name: " ++ Quoted.quote topic.name ++ ", display_name: " ++
      Quoted.quote topic.display ++ " \x7d"
  "Scoreboard \x7b topics: [" ++ ", ".intercalate topics ++ "] \x7d"

/-- The seconds between two logs. No two are further apart than thirty years of 365 days. -/
def period (interval : UInt64) : Nat := min interval.toNat (30 * 365 * 86400)

/-- How often a scoreboard is logged in a span of milliseconds when it is logged every `interval`
seconds, for the first time after one interval. An interval of 0 turns logging off. -/
def reports? (interval : UInt64) (milliseconds : Nat) : Option Nat :=
  if interval = 0 then none else some (milliseconds / (period interval * 1000))

end Scoreboard

abbrev Counters := List (String × UInt64)

namespace Counters

def value (counters : Counters) (name : String) : UInt64 := (counters.lookup name).getD 0

def add (counters : Counters) (name : String) (amount : UInt64) : Counters :=
  (name, counters.value name + amount) :: counters.filter (·.1 ≠ name)

def topic (name display description : String) : Topic Counters :=
  { name, display, description, read := fun counters => toString (counters.value name) }

end Counters

end LogIntake
