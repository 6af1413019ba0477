import LogIntake.Frame.Scanner

/-!
# Streams of frames

What a stream of bytes holds when all of it is there: the frames that stand one after the other at
its front, and what follows them.
-/
set_option autoImplicit false

namespace LogIntake.Frame

inductive Remainder where
  /-- The start of a frame, or nothing. -/
  | unfinished (bytes : Bytes)
  | faulty (fault : Fault)
  deriving DecidableEq, Repr

theorem consumed_of_parse {buffer : Bytes} {frame : Frame} {consumed : Nat}
    (h : parse buffer = .complete frame consumed) : 0 < consumed ∧ consumed ≤ buffer.length :=
  Scanner.consumed_of_parse (Prod.ext (Eq.refl (Scanner.parse {} buffer).1) h)

def ofStream (bytes : Bytes) : List Frame × Remainder :=
  match _look : parse bytes with
  | .complete frame consumed =>
    let (frames, remainder) := ofStream (bytes.drop consumed)
    (frame :: frames, remainder)
  | .incomplete => ([], .unfinished bytes)
  | .faulty fault => ([], .faulty fault)
termination_by bytes.length
decreasing_by
  have bounds := consumed_of_parse _look
  simp only [List.length_drop]
  omega

end LogIntake.Frame
