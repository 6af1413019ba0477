import LogIntake.CommandLine
import LogIntake.Json.Reader
import LogIntake.Load.Run
import LogIntake.Text.Digits

/-!
# Load runs from the command line

The options of the load generator, and the plan that they make. The payload is judged before the
plan.
-/
set_option autoImplicit false

namespace LogIntake.Load

structure Options where
  tag : String := ""
  records : UInt64 := 0
  target : String := "localhost:24224"
  perBatch : UInt64 := 1
  workers : UInt64 := 1
  /-- Frame each record by itself, whatever the framing is. -/
  separate : Bool := false
  framing : Frame.Shape := .forward
  payload : String := "\x7b \"message\": \"test\" \x7d"
  retries : UInt64 := 5
  pause : UInt64 := 0
  logLevel : String := "info"
  deriving DecidableEq, Repr

def framings : List (String × Frame.Shape) :=
  [("message", .message), ("forward", .forward), ("packed-forward", .packed)]

namespace Options

open CommandLine

def grammar : Grammar Options where
  parameters :=
    [ { name := "host", action := .value (word fun value options =>
          { options with target := value }) }
    , { name := "multi", action := .value (reading Digits.uint64? fun value options =>
          { options with perBatch := value }) }
    , { name := "concurrent", action := .value (reading Digits.uint64? fun value options =>
          { options with workers := value }) }
    , { name := "no-packed", action := .flag fun options => { options with separate := true } }
    , { name := "encoding", action := .value (choice framings fun value options =>
          { options with framing := value }) }
    , { name := "data", action := .value (word fun value options =>
          { options with payload := value }) }
    , { name := "max-retries", action := .value (reading Digits.uint64? fun value options =>
          { options with retries := value }) }
    , { name := "retry-interval-ms", action := .value (reading Digits.uint64? fun value options =>
          { options with pause := value }) }
    , { name := "log-level", action := .value (word fun value options =>
          { options with logLevel := value }) } ]
  operands :=
    [ { name := "tag", set := word fun value options => { options with tag := value } }
    , { name := "count", set := reading Digits.uint64? fun value options =>
          { options with records := value } } ]

def read (arguments : List String) : Except Refusal Options := grammar.read {} arguments

def payloadOf (text : String) : Except Misfit Record :=
  match (Json.read? text).map Value.ofJson with
  | none => .error .payloadText
  | some (.map record) => .ok record
  | some other => .error (.payloadKind other.kind)

def plan (options : Options) : Except Misfit Plan := do
  let plan : Plan :=
    { target := options.target
      framing := if options.separate then .message else options.framing
      records := options.records
      perBatch := options.perBatch
      workers := options.workers
      tag := options.tag
      payload := ← payloadOf options.payload
      retries := options.retries
      pause := options.pause }
  match plan.fault? with
  | some fault => throw (.plan fault)
  | none => return plan

end Options

end LogIntake.Load
