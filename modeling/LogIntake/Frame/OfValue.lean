import LogIntake.Frame.Basic
import LogIntake.Frame.Fault
import LogIntake.MessagePack.Reader

/-!
# Frames from values

A frame is an array `[tag, payload]` or `[tag, payload, record]`, and the payload picks the shape: a
number is the time of a message, an array holds the pairs of a forward frame, a binary string those
of a packed frame. Recognition is all or nothing: the first thing that does not fit is the fault.
-/
set_option autoImplicit false

namespace LogIntake

/-- The time that an integer or float gives; fractions of a second are cut off. -/
def Value.timestamp? : Value → Option UInt64
  | .uint number => some number
  | .float number => some number.toUInt64
  | _ => none

namespace Frame

def recordOf : Value → Except Malformed Record
  | .map record => .ok record
  | _ => .error .data

def stampedOf : Value → Except Malformed Stamped
  | .array [time, data] =>
    match time.timestamp? with
    | none => .error .timestamp
    | some timestamp => (Stamped.mk timestamp ·) <$> recordOf data
  | _ => .error .pair

def blobValues (blob : Bytes) : Except Malformed (List Value) :=
  if blob = [] then .ok []
  else
    match _run : MessagePack.read blob with
    | .error .short => .error .packedShort
    | .error (.refused cause) => .error (.packedRefused cause)
    | .ok (value, rest) => (value :: ·) <$> blobValues rest
termination_by blob.length
decreasing_by exact MessagePack.length_rest_lt _run

/-- The pairs that the values of a blob are. A blob of one array that is empty, or starts with an
array, holds its pairs in that array; any other blob is the pairs themselves. -/
def blobPairs : List Value → List Value
  | [.array []] => []
  | [.array (.array first :: rest)] => .array first :: rest
  | values => values

def unpack (blob : Bytes) : Except Malformed (List Stamped) := do
  (blobPairs (← blobValues blob)).mapM stampedOf

/-- The text of a tag, which may be a string of either sort. -/
def tagOf (value : Value) : Except Malformed String :=
  match value.bytes? with
  | some bytes => .ok (Utf8.decodeLossy bytes)
  | none => .error .tag

def ofParts (tag : String) (payload : Value) (third : Option Value) : Except Malformed Frame :=
  match payload with
  | .array pairs => forward tag <$> pairs.mapM stampedOf
  | .binary blob => packed tag <$> unpack blob
  | payload =>
    match payload.timestamp? with
    | some timestamp =>
      match third with
      | some data => (fun record => message tag ⟨timestamp, record⟩) <$> recordOf data
      | none => .error .data
    | none => .error (.payload payload.kind)

def ofValue : Value → Except Malformed Frame
  | .array [tag, payload] => do ofParts (← tagOf tag) payload none
  | .array [tag, payload, third] => do ofParts (← tagOf tag) payload (some third)
  | .array items => .error (.elementCount items.length)
  | value => .error (.notArray value.kind)

end Frame

end LogIntake
