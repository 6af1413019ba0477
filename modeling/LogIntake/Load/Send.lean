import LogIntake.Bytes
import LogIntake.Transport

/-!
# Sending

Writing some bytes to a stream that takes them piece by piece and fails now and then. Temporary
failures are tried again where they happened, so what the stream has accepted is at every moment the
start of what is to be sent.
-/
set_option autoImplicit false

namespace LogIntake.Load

inductive WriteOutcome where
  | accepted (count : Nat)
  | failed (cause : Transport.Failure)
  deriving DecidableEq, Repr

inductive Sent where
  | done
  | failed (cause : Transport.Failure)
  /-- No further write was made, and these bytes remain. -/
  | pending (rest : Bytes)
  deriving DecidableEq, Repr

structure Sending where
  accepted : Bytes
  result : Sent
  unused : List WriteOutcome
  deriving DecidableEq, Repr

/-- Writes until everything is accepted or a write fails for good. A stream that takes nothing of
something has failed. -/
def send (bytes : Bytes) : List WriteOutcome → Sending
  | [] => ⟨[], if bytes = [] then .done else .pending bytes, []⟩
  | outcome :: rest =>
    if bytes = [] then ⟨[], .done, outcome :: rest⟩
    else
      match outcome with
      | .accepted 0 => ⟨[], .failed .writeZero, rest⟩
      | .accepted count =>
        let later := send (bytes.drop count) rest
        { later with accepted := bytes.take count ++ later.accepted }
      | .failed cause =>
        match cause.severity with
        | .temporary => send bytes rest
        | _ => ⟨[], .failed cause, rest⟩

end LogIntake.Load
