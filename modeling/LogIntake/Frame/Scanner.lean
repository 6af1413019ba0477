import LogIntake.Frame.OfValue

/-!
# Frames off a stream

Frames carry no length, so the end of a frame is found by walking markers and length fields. A
`Scanner` does that without building values and remembers how far it came, so that while a long
frame arrives piece by piece no byte is walked twice. When the walk is complete the bytes are read
as a value once, and the value as a frame. Main statement: a frame that is parsed takes at least one
byte and no more than there are.
-/
set_option autoImplicit false

namespace LogIntake

namespace MessagePack

/-- How the bytes of one item are laid out after its marker, the values nested in it left out. -/
inductive Layout where
  | inline (count : Nat)
  /-- A length field, `extra` bytes, and as many bytes as the length says. -/
  | blob (width : LengthWidth) (extra : Nat)
  | fixed (nested : Nat)
  /-- A count; `each` times that many values are nested in the item. -/
  | counted (width : CountWidth) (each : Nat)
  deriving DecidableEq, Repr

def Marker.layout? : Marker → Option Layout
  | smallUInt _ | smallInt _ | nil | bool _ => some (.inline 0)
  | smallMap fields => some (.fixed (2 * fields.val))
  | smallArray items => some (.fixed items.val)
  | smallStr length => some (.inline length.val)
  | reserved => none
  | bin width | str width => some (.blob width 0)
  | ext width => some (.blob width 1)
  | float32 => some (.inline 4)
  | float64 => some (.inline 8)
  | uint width | int width => some (.inline width.bytes)
  | fixedExt size => some (.inline (1 + size.bytes))
  | array width => some (.counted width 1)
  | map width => some (.counted width 2)

structure Extent where
  size : Nat
  nested : Nat
  deriving DecidableEq, Repr

def field? (width : Nat) (bytes : Bytes) : Option Nat :=
  (Bytes.drop? width bytes).map fun _ => Bytes.toNat (bytes.take width)

def Layout.extent? (layout : Layout) (bytes : Bytes) : Option Extent :=
  let available (size : Nat) : Option Extent :=
    (Bytes.drop? size bytes).map fun _ => ⟨size, 0⟩
  match layout with
  | inline count => available count
  | blob width extra => do available (width.bytes + extra + (← field? width.bytes bytes))
  | fixed nested => some ⟨0, nested⟩
  | counted width each => do return ⟨width.bytes, each * (← field? width.bytes bytes)⟩

end MessagePack

namespace Frame

open MessagePack (Marker)

structure Scanner where
  /-- End of the items that were walked. -/
  offset : Nat := 0
  /-- Values still due before the outermost one is complete. -/
  pending : Nat := 1
  deriving DecidableEq, Repr, Inhabited

inductive Scan where
  | complete (stop : Nat)
  | incomplete
  | reserved (position : Nat)
  deriving DecidableEq, Repr

namespace Scanner

/-- The greatest count of pending values; larger counts stay there. -/
def pendingLimit : Nat := UInt64.size - 1

def walk (scanner : Scanner) (bytes : Bytes) : Scanner × Scan :=
  if scanner.pending = 0 then (scanner, .complete scanner.offset)
  else
    match bytes with
    | [] => (scanner, .incomplete)
    | first :: rest =>
      match (Marker.ofByte first).layout? with
      | none => (scanner, .reserved scanner.offset)
      | some layout =>
        match layout.extent? rest with
        | none => (scanner, .incomplete)
        | some extent =>
          let pending := min (scanner.pending - 1 + extent.nested) pendingLimit
          walk ⟨scanner.offset + 1 + extent.size, pending⟩ (rest.drop extent.size)
termination_by bytes.length
decreasing_by simp +arith

def scan (scanner : Scanner) (buffer : Bytes) : Scanner × Scan :=
  scanner.walk (buffer.drop scanner.offset)

end Scanner

inductive Parsed where
  | complete (frame : Frame) (consumed : Nat)
  | incomplete
  | faulty (fault : Fault)
  deriving Repr

def parseItem (bytes : Bytes) : Parsed :=
  match MessagePack.decode bytes with
  | .error cause => .faulty (.undecodable cause)
  | .ok none => .faulty (.malformed .short)
  | .ok (some (value, consumed)) =>
    match ofValue value with
    | .error cause => .faulty (.malformed cause)
    | .ok frame => .complete frame consumed

/-- What is wrong with bytes that end in a reserved marker: what a reader meets first, or the marker
itself. -/
def reservedFault (bytes : Bytes) (position : Nat) : Fault :=
  match MessagePack.decode bytes with
  | .error cause => .undecodable cause
  | .ok _ => .malformed (.reservedMarker position)

/-- Parses the front of a buffer, going on where the scanner stopped; between calls the buffer may
only grow at its end. After any answer but `incomplete` the scanner starts afresh. -/
def Scanner.parse (scanner : Scanner) (buffer : Bytes) : Scanner × Parsed :=
  match scanner.scan buffer with
  | (scanner, .incomplete) => (scanner, .incomplete)
  | (_, .reserved position) =>
    ({}, .faulty (reservedFault (buffer.take (position + 1)) position))
  | (_, .complete stop) => ({}, parseItem (buffer.take stop))

def parse (buffer : Bytes) : Parsed := (Scanner.parse {} buffer).2

theorem consumed_of_parseItem {bytes : Bytes} {frame : Frame} {consumed : Nat}
    (h : parseItem bytes = .complete frame consumed) : 0 < consumed ∧ consumed ≤ bytes.length := by
  unfold parseItem at h
  split at h
  · cases h
  · cases h
  · next run =>
    split at h
    · cases h
    · cases h
      exact MessagePack.consumed_of_decode run

theorem Scanner.consumed_of_parse {scanner after : Scanner} {buffer : Bytes} {frame : Frame}
    {consumed : Nat} (h : scanner.parse buffer = (after, .complete frame consumed)) :
    0 < consumed ∧ consumed ≤ buffer.length := by
  unfold Scanner.parse at h
  split at h
  · cases h
  · cases h
  · have bounds := consumed_of_parseItem (congrArg Prod.snd h)
    rw [List.length_take] at bounds
    omega

end Frame

end LogIntake
