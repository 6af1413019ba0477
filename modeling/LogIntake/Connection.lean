import LogIntake.Frame.Scanner
import LogIntake.Transport

/-!
# Connections

One connection turns arriving bytes into frames. Between arrivals it holds the start of one frame at
most, never more bytes of it than the limit. `examine` is one look at the buffer, `settle` takes
every complete frame off its front, and `run` follows a whole script of arrivals. Each frame takes
at least one byte, so settling comes to an end.
-/
set_option autoImplicit false

namespace LogIntake

inductive Exit where
  | endOfStream
  | closed
  | fault (fault : Frame.Fault)
  | transport (failure : Transport.Failure)
  deriving DecidableEq, Repr

inductive Arrival where
  /-- The next bytes of the stream; none at all are its end. -/
  | bytes (piece : Bytes)
  | failure (cause : Transport.Failure)
  | close
  deriving DecidableEq, Repr

structure Connection where
  /-- The greatest number of bytes of an unfinished frame. -/
  limit : Nat
  buffer : Bytes := []
  scanner : Frame.Scanner := {}
  deriving DecidableEq, Repr, Inhabited

inductive Finding where
  | frame (frame : Frame) (after : Connection)
  /-- The start of a frame within the limit, or nothing. -/
  | wait (after : Connection)
  | fault (fault : Frame.Fault)
  deriving Repr

/-- What goes downstream for a frame: its entries without binary strings, as one batch, and nothing
for a frame without entries. -/
def Frame.delivery (frame : Frame) : List Batch :=
  if frame.isEmpty then [] else [frame.entries.map Entry.normalize]

namespace Connection

def examine (connection : Connection) : Finding :=
  match connection.scanner.parse connection.buffer with
  | (scanner, .complete frame consumed) =>
    .frame frame
      { connection with buffer := connection.buffer.drop consumed, scanner := scanner }
  | (scanner, .incomplete) =>
    if connection.limit < connection.buffer.length then .fault (.tooLarge connection.limit)
    else .wait { connection with scanner := scanner }
  | (_, .faulty fault) => .fault fault

theorem length_of_examine {connection after : Connection} {frame : Frame}
    (h : connection.examine = .frame frame after) :
    after.buffer.length < connection.buffer.length := by
  unfold examine at h
  split at h
  · next run =>
    have bounds := Frame.Scanner.consumed_of_parse run
    cases h
    simp only [List.length_drop]
    omega
  · split at h <;> cases h
  · cases h

def settle (connection : Connection) : List Frame × Except Exit Connection :=
  match _look : connection.examine with
  | .frame frame after =>
    let (frames, standing) := settle after
    (frame :: frames, standing)
  | .wait after => ([], .ok after)
  | .fault fault => ([], .error (.fault fault))
termination_by connection.buffer.length
decreasing_by exact length_of_examine _look

/-- What an arrival makes of a connection before it looks at its buffer again. -/
def take (connection : Connection) : Arrival → Except Exit Connection
  | .bytes [] => .error .endOfStream
  | .bytes piece => .ok { connection with buffer := connection.buffer ++ piece }
  | .failure cause =>
    match cause.severity with
    | .temporary => .ok connection
    | .endOfStream => .error .endOfStream
    | .fatal => .error (.transport cause)
  | .close => .error .closed

def receive (connection : Connection) (arrival : Arrival) : List Frame × Except Exit Connection :=
  match connection.take arrival with
  | .ok connection => connection.settle
  | .error exit => ([], .error exit)

def run (connection : Connection) : List Arrival → List Frame × Except Exit Connection
  | [] => ([], .ok connection)
  | arrival :: script =>
    match connection.receive arrival with
    | (frames, .ok connection) =>
      let (more, standing) := run connection script
      (frames ++ more, standing)
    | ended => ended

end Connection

end LogIntake
