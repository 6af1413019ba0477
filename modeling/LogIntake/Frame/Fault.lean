import LogIntake.MessagePack.Refusal
import LogIntake.Value.Basic

/-!
# Faults of frames

Why what a sender wrote is not taken as a frame, and the words for each reason. A fault ends the
connection that it arrives on.
-/
set_option autoImplicit false

namespace LogIntake.Frame

inductive Malformed where
  | elementCount (count : Nat)
  | notArray (kind : Kind)
  | tag
  /-- The second element is none that picks a shape. -/
  | payload (kind : Kind)
  | pair
  | timestamp
  | data
  /-- The blob of a packed frame ends inside a value. -/
  | packedShort
  | packedRefused (cause : MessagePack.Refusal)
  | reservedMarker (position : Nat)
  /-- The bytes of a frame end inside its value. -/
  | short
  | other (reason : String)
  deriving DecidableEq, Repr

def Malformed.reason : Malformed → String
  | elementCount count => s!"frame has {count} elements, expected 2 or 3"
  | notArray kind => s!"frame is a {kind.name}, expected array"
  | tag => "failed to decode tag field"
  | payload kind => s!"unknown payload type: {kind.name}"
  | pair => "entry is not a [time, record] pair"
  | timestamp => "failed to decode timestamp field"
  | data => "failed to decode data field"
  | packedShort => "truncated packed entries"
  | packedRefused cause => "packed entries: " ++ cause.message
  | reservedMarker position => s!"reserved marker at offset {position}"
  | short => "truncated frame"
  | other reason => reason

inductive Fault where
  | malformed (cause : Malformed)
  /-- More than `limit` bytes of one frame arrived without its end. -/
  | tooLarge (limit : Nat)
  | undecodable (cause : MessagePack.Refusal)
  deriving DecidableEq, Repr

def Fault.message : Fault → String
  | malformed cause => "malformed entry: " ++ cause.reason
  | tooLarge limit => s!"frame exceeds {limit} bytes"
  | undecodable cause => "decode error: " ++ cause.message

end LogIntake.Frame
