import LogIntake.Frame.Basic
import LogIntake.MessagePack.Writer

/-!
# Frames onto a stream

The value that a frame is written as, and its written form. The pairs of a packed frame stand one
after the other in its blob, and frames written one after the other need nothing between them.
-/
set_option autoImplicit false

namespace LogIntake

def Stamped.toValue (content : Stamped) : Value :=
  .array [.uint content.timestamp, .map content.record]

namespace Frame

def blobOf (content : List Stamped) : Bytes :=
  content.flatMap fun pair => MessagePack.write pair.toValue

/-- The value of a frame: `[tag, time, record]`, `[tag, [pair, ...]]` or `[tag, blob]`. -/
def toValue : Frame → Value
  | message tag content => .array [.text tag, .uint content.timestamp, .map content.record]
  | forward tag content => .array [.text tag, .array (content.map Stamped.toValue)]
  | packed tag content => .array [.text tag, .binary (blobOf content)]

def write (frame : Frame) : Bytes := MessagePack.write frame.toValue

end Frame

end LogIntake
