import LogIntake.Proofs.Finality

/-!
# Streams cut between frames

Every stream is the bytes of its frames, one after the other, and what follows the last of them
(`tiled_ofStream`), and a stream that is put together so has just these frames (`Tiled.ofStream`).
While a stream of frames arrives no more of it is unfinished than one frame
(`length_le_of_unfinished`).
-/
set_option autoImplicit false

namespace LogIntake.Frame

/-- Whether a stream is the bytes of these frames, each of them whole, and then the rest. -/
inductive Tiled : Bytes → List Frame → List Bytes → Bytes → Prop
  | done (rest : Bytes) : Tiled rest [] [] rest
  | next {whole stream rest : Bytes} {frame : Frame} {frames : List Frame} {wholes : List Bytes}
      (first : parse whole = .complete frame whole.length)
      (later : Tiled stream frames wholes rest) :
      Tiled (whole ++ stream) (frame :: frames) (whole :: wholes) rest

theorem tiled_ofStream (stream : Bytes) :
    ∃ wholes rest, Tiled stream (ofStream stream).1 wholes rest ∧
      ofStream rest = ([], (ofStream stream).2) := by
  fun_induction ofStream stream with
  | case1 stream frame consumed look frames remainder run ih =>
      rw [run] at ih
      obtain ⟨wholes, rest, tiled, remains⟩ := ih
      have bounds := consumed_of_parse look
      have first : parse (stream.take consumed) =
          .complete frame (stream.take consumed).length := by
        rw [List.length_take_of_le bounds.2]
        exact parse_take_of_complete look
      have cut := Tiled.next first tiled
      rw [List.take_append_drop] at cut
      exact ⟨_, rest, cut, remains⟩
  | case2 stream look => exact ⟨[], stream, .done stream, ofStream_of_incomplete look⟩
  | case3 stream fault look => exact ⟨[], stream, .done stream, ofStream_of_faulty look⟩

theorem eq_of_ofStream_eq_unfinished {stream rest : Bytes}
    (found : ofStream stream = ([], .unfinished rest)) :
    stream = rest ∧ parse stream = .incomplete := by
  rw [ofStream.eq_def] at found
  split at found
  · cases found
  · next look =>
    cases found
    exact ⟨rfl, look⟩
  · cases found

namespace Tiled

variable {stream rest : Bytes} {frames : List Frame} {wholes : List Bytes}

theorem ofStream (tiled : Tiled stream frames wholes rest) :
    Frame.ofStream stream =
      (frames ++ (Frame.ofStream rest).1, (Frame.ofStream rest).2) := by
  induction tiled with
  | done rest => rfl
  | @next whole stream rest frame frames wholes first later ih =>
      have same := parse_append first (by simp) stream
      rw [ofStream_of_complete same, List.drop_left, ih]
      rfl

theorem length_le (tiled : Tiled stream frames wholes rest) :
    ∀ whole ∈ wholes, whole.length ≤ stream.length := by
  induction tiled with
  | done rest => exact fun whole member => absurd member List.not_mem_nil
  | next first later ih =>
      intro whole member
      rw [List.length_append]
      rcases List.mem_cons.mp member with rfl | member
      · exact Nat.le_add_right _ _
      · exact Nat.le_add_left_of_le (ih whole member)

end Tiled

/-- A stream that ends inside a frame, or between two, is the bytes of its frames and the start of
one that is waited for, or nothing. -/
theorem ofStream_eq_unfinished {stream rest : Bytes} {frames : List Frame} :
    ofStream stream = (frames, .unfinished rest) ↔
      ∃ wholes, Tiled stream frames wholes rest ∧ parse rest = .incomplete := by
  constructor
  · intro found
    obtain ⟨wholes, other, tiled, remains⟩ := tiled_ofStream stream
    rw [found] at tiled remains
    obtain ⟨rfl, waits⟩ := eq_of_ofStream_eq_unfinished remains
    exact ⟨wholes, tiled, waits⟩
  · rintro ⟨wholes, tiled, waits⟩
    rw [tiled.ofStream, ofStream_of_incomplete waits, List.append_nil]

/-- Whether the bytes are one frame, or are refused before or where it ends. -/
def Whole (bytes : Bytes) : Prop :=
  (∃ frame, parse bytes = .complete frame bytes.length) ∨ ∃ fault, parse bytes = .faulty fault

theorem length_le_of_start {whole start rest : Bytes} (decided : Whole whole)
    (inside : start <+: whole) (found : (ofStream start).2 = .unfinished rest) :
    rest.length ≤ whole.length := by
  obtain ⟨more, rfl⟩ := inside
  rw [List.length_append]
  cases parsed : parse start with
  | incomplete =>
      rw [ofStream_of_incomplete parsed] at found
      cases found
      exact Nat.le_add_right _ _
  | faulty fault =>
      rw [ofStream_of_faulty parsed] at found
      cases found
  | complete frame consumed =>
      -- what is found is the whole frame, so nothing of it is missing
      have same := parse_append parsed (by simp) more
      have bounds := consumed_of_parse parsed
      rcases decided with ⟨other, complete⟩ | ⟨fault, refused⟩
      · rw [same, List.length_append] at complete
        cases complete
        rw [ofStream_of_complete parsed, List.drop_eq_nil_of_le (by omega), ofStream_nil] at found
        cases found
        exact Nat.zero_le _
      · rw [same] at refused
        cases refused

theorem length_le_of_unfinished {wholes : List Bytes} {limit : Nat}
    (each : ∀ whole ∈ wholes, Whole whole ∧ whole.length ≤ limit) {start rest : Bytes}
    (first : start <+: wholes.flatten) (found : (ofStream start).2 = .unfinished rest) :
    rest.length ≤ limit := by
  induction wholes generalizing start with
  | nil =>
      rw [List.flatten_nil, List.prefix_nil] at first
      rw [first, ofStream_nil] at found
      cases found
      exact Nat.zero_le limit
  | cons whole others ih =>
      obtain ⟨decided, short⟩ := each whole List.mem_cons_self
      rw [List.flatten_cons] at first
      -- The start ends inside the first frame, or holds it and the start of the others.
      rcases List.prefix_or_prefix_of_prefix first (List.prefix_append whole others.flatten) with
        inside | ⟨later, rfl⟩
      · exact Nat.le_trans (length_le_of_start decided inside found) short
      · have beyond : later <+: others.flatten := (List.prefix_append_right_inj whole).mp first
        rcases decided with ⟨frame, complete⟩ | ⟨fault, refused⟩
        · rw [ofStream_of_complete (parse_append complete (by simp) later),
            List.drop_left] at found
          exact ih (fun other member => each other (List.mem_cons_of_mem _ member)) beyond found
        · rw [ofStream_of_faulty (parse_append refused (by simp) later)] at found
          cases found

end LogIntake.Frame
