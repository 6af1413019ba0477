import LogIntake.Value.Normal

/-!
# Entries and frames

An entry is one log record with its tag and time. Senders put entries into frames of three shapes: a
message frame carries one entry, a forward frame a list of them, and a packed frame a list in one
binary string. All entries of a frame have the frame's tag.
-/
set_option autoImplicit false

namespace LogIntake

structure Stamped where
  timestamp : UInt64
  record : Record
  deriving Repr, Inhabited

structure Entry where
  tag : String
  timestamp : UInt64
  data : Record
  deriving Repr, Inhabited

def Entry.normalize (entry : Entry) : Entry := { entry with data := entry.data.normalize }

abbrev Batch := List Entry

inductive Frame where
  | message (tag : String) (content : Stamped)
  | forward (tag : String) (content : List Stamped)
  | packed (tag : String) (content : List Stamped)
  deriving Repr, Inhabited

inductive Frame.Shape where
  | message | forward | packed
  deriving DecidableEq, Repr

namespace Frame

def shape : Frame → Shape
  | message .. => .message
  | forward .. => .forward
  | packed .. => .packed

def tag : Frame → String
  | message tag _ | forward tag _ | packed tag _ => tag

/-- The timed records of the frame, in the order of the wire. -/
def content : Frame → List Stamped
  | message _ content => [content]
  | forward _ content | packed _ content => content

def size (frame : Frame) : Nat := frame.content.length

def isEmpty (frame : Frame) : Bool := frame.size = 0

def entries (frame : Frame) : Batch :=
  frame.content.map fun content => ⟨frame.tag, content.timestamp, content.record⟩

@[simp] theorem length_entries (frame : Frame) : frame.entries.length = frame.size := by
  simp [entries, size]

end Frame

end LogIntake
