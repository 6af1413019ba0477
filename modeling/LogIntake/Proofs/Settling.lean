import LogIntake.Connection
import LogIntake.Proofs.Streams

/-!
# Settling

What a connection takes off its buffer is what the bytes in it hold, although its scanner goes on
where an earlier look stopped: such a scanner meets what a fresh one would meet (`Resumes`). So the
frames that a connection takes, and how it stands afterwards, depend on its bytes alone
(`settle_eq`).
-/
set_option autoImplicit false

namespace LogIntake

namespace Frame.Scanner

/-- Whether a scanner stands in a buffer where the walk of a fresh one over it, and over whatever
may follow, comes by. -/
def Resumes (scanner : Scanner) (buffer : Bytes) : Prop :=
  ∃ walked left : Bytes, buffer = walked ++ left ∧ scanner.offset = walked.length ∧
    ∀ more, walk {} (buffer ++ more) = scanner.walk (left ++ more)

theorem resumes_fresh (buffer : Bytes) : Resumes {} buffer :=
  ⟨[], buffer, rfl, rfl, fun _ => rfl⟩

theorem Resumes.append {scanner : Scanner} {buffer : Bytes} (resumes : Resumes scanner buffer)
    (piece : Bytes) : Resumes scanner (buffer ++ piece) := by
  obtain ⟨walked, left, rfl, offset, same⟩ := resumes
  refine ⟨walked, left ++ piece, by rw [List.append_assoc], offset, fun more => ?_⟩
  have here := same (piece ++ more)
  rwa [← List.append_assoc, ← List.append_assoc] at here

theorem Resumes.scan {scanner : Scanner} {buffer : Bytes} (resumes : Resumes scanner buffer) :
    scanner.scan buffer = Scanner.scan {} buffer := by
  obtain ⟨walked, left, rfl, offset, same⟩ := resumes
  have whole := same []
  rw [List.append_nil, List.append_nil] at whole
  rw [Scanner.scan, offset, List.drop_left, ← whole]
  rfl

theorem Resumes.parse {scanner : Scanner} {buffer : Bytes} (resumes : Resumes scanner buffer) :
    scanner.parse buffer = Scanner.parse {} buffer := by
  rw [Scanner.parse, Scanner.parse, resumes.scan]

theorem resumes_of_incomplete {after : Scanner} {buffer : Bytes}
    (run : Scanner.scan {} buffer = (after, .incomplete)) : Resumes after buffer := by
  obtain ⟨walked, left, split, offset, same⟩ := walk_append_of_incomplete run
  refine ⟨walked, left, split, ?_, same⟩
  rw [offset]
  exact Nat.zero_add walked.length

theorem parseItem_ne_incomplete (bytes : Bytes) : parseItem bytes ≠ .incomplete := by
  unfold parseItem
  split
  · simp
  · simp
  · split <;> simp

theorem parse_cases (buffer : Bytes) :
    ∃ after, Scanner.parse {} buffer = (after, Frame.parse buffer) ∧
      (Frame.parse buffer = .incomplete ∧ Resumes after buffer ∨
        Frame.parse buffer ≠ .incomplete ∧ after = {}) := by
  refine ⟨(Scanner.parse {} buffer).1, rfl, ?_⟩
  rw [Frame.parse, Scanner.parse]
  rcases run : Scanner.scan {} buffer with ⟨after, met⟩
  cases met with
  | incomplete => exact .inl ⟨rfl, resumes_of_incomplete run⟩
  | reserved position => exact .inr ⟨by simp, rfl⟩
  | complete stop => exact .inr ⟨parseItem_ne_incomplete _, rfl⟩

end Frame.Scanner

namespace Connection

open LogIntake.Frame

inductive Settled (limit : Nat) : Remainder → Except Exit Connection → Prop where
  | faulty (fault : Fault) : Settled limit (.faulty fault) (.error (.fault fault))
  | tooLarge (rest : Bytes) (long : limit < rest.length) :
    Settled limit (.unfinished rest) (.error (.fault (.tooLarge limit)))
  | waiting (rest : Bytes) (scanner : Scanner) (short : rest.length ≤ limit)
    (resumes : scanner.Resumes rest) :
    Settled limit (.unfinished rest) (.ok ⟨limit, rest, scanner⟩)

theorem examine_eq {connection : Connection}
    (resumes : connection.scanner.Resumes connection.buffer) :
    (∃ frame consumed, parse connection.buffer = .complete frame consumed ∧
      connection.examine =
        .frame frame ⟨connection.limit, connection.buffer.drop consumed, {}⟩) ∨
    (∃ fault, parse connection.buffer = .faulty fault ∧ connection.examine = .fault fault) ∨
    ∃ scanner, parse connection.buffer = .incomplete ∧ scanner.Resumes connection.buffer ∧
      connection.examine =
        if connection.limit < connection.buffer.length then .fault (.tooLarge connection.limit)
        else .wait ⟨connection.limit, connection.buffer, scanner⟩ := by
  obtain ⟨after, run, kept⟩ := Scanner.parse_cases connection.buffer
  rw [examine, resumes.parse, run]
  cases answer : parse connection.buffer with
  | complete frame consumed =>
      rcases kept with ⟨incomplete, -⟩ | ⟨-, rfl⟩
      · rw [answer] at incomplete
        cases incomplete
      · exact .inl ⟨frame, consumed, rfl, rfl⟩
  | faulty fault => exact .inr (.inl ⟨fault, rfl, rfl⟩)
  | incomplete =>
      rcases kept with ⟨-, resumes⟩ | ⟨decided, -⟩
      · exact .inr (.inr ⟨after, rfl, resumes, rfl⟩)
      · exact absurd answer decided

/-- The frames that are taken off a buffer are those of the bytes in it, and so is what follows. -/
theorem settle_eq {connection : Connection}
    (resumes : connection.scanner.Resumes connection.buffer) :
    connection.settle.1 = (ofStream connection.buffer).1 ∧
      Settled connection.limit (ofStream connection.buffer).2 connection.settle.2 := by
  fun_induction settle connection with
  | case1 connection frame after look others standing run ih =>
      rcases examine_eq resumes with ⟨found, consumed, answer, seen⟩ | ⟨fault, -, seen⟩ |
        ⟨scanner, -, -, seen⟩
      · rw [look] at seen
        cases seen
        have later := ih (Scanner.resumes_fresh _)
        rw [ofStream_of_complete answer]
        rw [run] at later
        exact ⟨congrArg (frame :: ·) later.1, later.2⟩
      · rw [look] at seen
        cases seen
      · rw [look] at seen
        split at seen <;> cases seen
  | case2 connection after look =>
      rcases examine_eq resumes with ⟨found, consumed, -, seen⟩ | ⟨fault, -, seen⟩ |
        ⟨scanner, answer, kept, seen⟩
      · rw [look] at seen
        cases seen
      · rw [look] at seen
        cases seen
      · rw [look] at seen
        rw [ofStream_of_incomplete answer]
        split at seen
        · cases seen
        · next short =>
          cases seen
          exact ⟨rfl, .waiting _ scanner (Nat.le_of_not_lt short) kept⟩
  | case3 connection fault look =>
      rcases examine_eq resumes with ⟨found, consumed, -, seen⟩ | ⟨other, answer, seen⟩ |
        ⟨scanner, answer, -, seen⟩
      · rw [look] at seen
        cases seen
      · rw [look] at seen
        cases seen
        rw [ofStream_of_faulty answer]
        exact ⟨rfl, .faulty fault⟩
      · rw [look] at seen
        rw [ofStream_of_incomplete answer]
        split at seen
        · next long =>
          cases seen
          exact ⟨rfl, .tooLarge _ long⟩
        · cases seen

end Connection

end LogIntake
