import LogIntake.Proofs.Streams

/-!
# Answers are final

A reader that has given something, or refused, does so whatever follows its input
(`Reader.Final`); it waits only while the bytes end too early. So the decoder's answer about the
front of a buffer stays when the buffer grows (`decode_append`), like that of a parse, and the start
of a value is never refused.
-/
set_option autoImplicit false

namespace LogIntake

namespace MessagePack

/-- Once the reader has given something or refused, more bytes only lengthen what it leaves. -/
def Reader.Final {α : Type} (reader : Reader α) : Prop :=
  ∀ input more, reader input ≠ .error .short →
    reader (input ++ more) = (reader input).map fun step => (step.1, step.2 ++ more)

namespace Reader.Final

theorem pure {α : Type} (value : α) : Final (Pure.pure value) := by
  intro input more decided
  rfl

theorem refuse {α : Type} (cause : Refusal) : Final (Reader.refuse cause : Reader α) := by
  intro input more decided
  rfl

theorem bind {α β : Type} {lead : Reader α} {next : α → Reader β} (first : Final lead)
    (second : ∀ value, Final (next value)) : Final (lead >>= next) := by
  intro input more decided
  cases outcome : lead input with
  | error stop =>
      rw [bind_of_error next outcome] at decided
      have longer := first input more (by rw [outcome]; simpa using decided)
      rw [outcome] at longer
      rw [bind_of_error next outcome, bind_of_error next longer]
      rfl
  | ok step =>
      rw [bind_of_ok next outcome] at decided
      have longer := first input more (by rw [outcome]; simp)
      rw [outcome] at longer
      rw [bind_of_ok next outcome, bind_of_ok next longer]
      exact second step.1 step.2 more decided

theorem map {α β : Type} {reader : Reader α} (final : Final reader) (f : α → β) :
    Final (f <$> reader) :=
  bind final fun value => pure (f value)

theorem byte : Final Reader.byte := by
  intro input more decided
  cases input with
  | nil => exact absurd rfl decided
  | cons first rest => rfl

theorem bytes (count : Nat) : Final (Reader.bytes count) := by
  intro input more decided
  by_cases enough : count ≤ input.length
  · have longer : count ≤ (input ++ more).length := by
      rw [List.length_append]
      omega
    simp only [Reader.bytes, Bytes.drop?_eq, if_pos enough, if_pos longer, Except.map,
      List.take_append_of_le_length enough, List.drop_append_of_le_length enough]
  · simp [Reader.bytes, Bytes.drop?_eq, enough] at decided

theorem nat (width : Nat) : Final (Reader.nat width) := map (bytes width) Bytes.toNat

theorem int (width : Nat) : Final (Reader.int width) := map (bytes width) Bytes.toInt

theorem many {α : Type} {item : Reader α} (final : Final item) (count : Nat) :
    Final (Reader.many item count) := by
  induction count with
  | zero =>
      rw [many_zero]
      exact pure []
  | succ count ih =>
      rw [many_succ]
      exact bind final fun value => bind ih fun values => pure (value :: values)

end Reader.Final

open Reader

theorem final_readFields (marker : Marker) : Final (readFields marker) := by
  unfold readFields
  split
  all_goals
    first
    | exact Final.pure _
    | exact Final.refuse _
    | exact Final.bind (Final.bytes _) fun _ => Final.pure _
    | exact Final.bind (Final.nat _) fun _ => Final.pure _
    | exact Final.bind (Final.int _) fun _ => Final.pure _
    | exact Final.bind (Final.nat _) fun _ => Final.bind (Final.bytes _) fun _ => Final.pure _

theorem final_readHead : Final readHead :=
  Final.bind Final.byte fun first => final_readFields (Marker.ofByte first)

theorem final_readKey (deeper : Bool) : Final (readKey deeper) := by
  refine Final.bind final_readHead fun head => ?_
  split
  · exact Final.pure _
  · exact Final.refuse _

/-- A container is refused for its depth or its kind of key before all of it is there, and stays
refused. -/
theorem final_readWithin (depth : Nat) : Final (readWithin depth) := by
  induction depth with
  | zero =>
      unfold readWithin
      refine Final.bind final_readHead fun head => ?_
      split
      · exact Final.pure _
      · exact Final.refuse _
  | succ depth ih =>
      unfold readWithin
      have field : Final (do return (← readKey (depth ≠ 0), ← readWithin depth)) :=
        Final.bind (final_readKey _) fun _ => Final.bind ih fun _ => Final.pure _
      refine Final.bind final_readHead fun head => ?_
      split
      · exact Final.pure _
      · exact Final.bind (Final.many ih _) fun _ => Final.pure _
      · exact Final.bind (Final.many field _) fun _ => Final.pure _
      · exact Final.refuse _

theorem final_read : Final read := final_readWithin depthLimit

theorem decode_append {buffer : Bytes} (decided : decode buffer ≠ .ok none) (more : Bytes) :
    decode (buffer ++ more) = decode buffer := by
  have final := final_read buffer more
  cases outcome : read buffer with
  | ok step =>
      rw [outcome] at final
      have longer := final (by simp)
      dsimp only [Except.map] at longer
      simp only [decode, outcome, longer, List.length_append, Nat.add_sub_add_right]
  | error stop =>
      cases stop with
      | short => exact absurd (by simp only [decode, outcome]) decided
      | refused cause =>
          rw [outcome] at final
          have longer := final (by simp)
          dsimp only [Except.map] at longer
          simp only [decode, outcome, longer]

theorem decode_take {buffer : Bytes} {value : Value} {consumed count : Nat}
    (found : decode buffer = .ok (some (value, consumed))) (before : count < consumed) :
    decode (buffer.take count) = .ok none := by
  by_contra decided
  have whole := decode_append decided (buffer.drop count)
  rw [List.take_append_drop, found] at whole
  -- what is decided from the start would end within it
  have bound := (consumed_of_decode whole.symm).2
  rw [List.length_take] at bound
  omega

end MessagePack

namespace Frame

open MessagePack (decode)

theorem scan_of_decode {buffer : Bytes} {value : Value} {consumed : Nat}
    (found : decode buffer = .ok (some (value, consumed))) :
    (Scanner.scan {} buffer).2 = .complete consumed ∧
      decode (buffer.take consumed) = .ok (some (value, consumed)) := by
  obtain ⟨item, fits, shallow, stands, enough, written⟩ :=
    MessagePack.decode_eq_some_iff_item.mp found
  have length : item.bytes.length = consumed := by
    rw [← written, List.length_take_of_le enough]
  have whole := Scanner.scan_item_of_depth_le fits shallow (buffer.drop consumed)
  rw [← written, List.take_append_drop, written, length] at whole
  refine ⟨whole, MessagePack.decode_eq_some_iff_item.mpr ⟨item, fits, shallow, stands, ?_, ?_⟩⟩
  · rw [List.length_take_of_le enough]
  · rw [List.take_take, Nat.min_self, written]

theorem parse_of_decode {buffer : Bytes} {value : Value} {consumed : Nat}
    (found : decode buffer = .ok (some (value, consumed))) :
    parse buffer =
      match ofValue value with
      | .ok frame => .complete frame consumed
      | .error cause => .faulty (.malformed cause) := by
  obtain ⟨scanned, alone⟩ := scan_of_decode found
  rw [parse_eq, scanned]
  dsimp only
  rw [parseItem, alone]
  cases recognised : ofValue value with
  | ok frame => simp only [recognised]
  | error cause => simp only [recognised]

theorem parse_eq_complete {buffer : Bytes} {frame : Frame} {consumed : Nat} :
    parse buffer = .complete frame consumed ↔
      ∃ value, decode buffer = .ok (some (value, consumed)) ∧ ofValue value = .ok frame := by
  constructor
  · intro found
    rw [parse_eq] at found
    cases met : (Scanner.scan {} buffer).2 with
    | incomplete => rw [met] at found; cases found
    | reserved position => rw [met] at found; cases found
    | complete stop =>
        rw [met] at found
        dsimp only [parseItem] at found
        split at found
        · cases found
        · cases found
        · next value count read =>
          split at found
          · cases found
          · next recognised =>
            cases found
            have longer := MessagePack.decode_append (by rw [read]; simp) (buffer.drop stop)
            rw [List.take_append_drop, read] at longer
            exact ⟨value, longer, recognised⟩
  · rintro ⟨value, read, recognised⟩
    rw [parse_of_decode read, recognised]

theorem parse_take_of_complete {buffer : Bytes} {frame : Frame} {consumed : Nat}
    (found : parse buffer = .complete frame consumed) :
    parse (buffer.take consumed) = .complete frame consumed := by
  obtain ⟨value, read, recognised⟩ := parse_eq_complete.mp found
  exact parse_eq_complete.mpr ⟨value, (scan_of_decode read).2, recognised⟩

theorem parse_take {buffer : Bytes} {value : Value} {consumed count : Nat}
    (found : decode buffer = .ok (some (value, consumed))) (before : count < consumed) :
    parse (buffer.take count) = .incomplete := by
  have whole := (scan_of_decode found).1
  by_cases waits : (Scanner.scan {} (buffer.take count)).2 = .incomplete
  · rw [parse_eq, waits]
  · have longer := scan_append_of_decided rfl waits (buffer.drop count)
    rw [List.take_append_drop, whole] at longer
    have bound := (scan_bound (buffer.take count)).1 consumed longer.symm
    rw [List.length_take] at bound
    omega

/-- What the front of a buffer is parsed or decoded as does not change when the buffer grows. So a
buffer that holds no more than the start of a frame never held more, and the start of a value that
decodes is waited for: it is neither refused nor faulty. -/
theorem answers_are_final (buffer : Bytes) :
    (parse buffer ≠ .incomplete → ∀ more, parse (buffer ++ more) = parse buffer) ∧
    (parse buffer = .incomplete → ∀ count, parse (buffer.take count) = .incomplete) ∧
    (decode buffer ≠ .ok none → ∀ more, decode (buffer ++ more) = decode buffer) ∧
    ∀ value consumed, decode buffer = .ok (some (value, consumed)) → ∀ count < consumed,
      decode (buffer.take count) = .ok none ∧ parse (buffer.take count) = .incomplete := by
  refine ⟨fun answered => parse_append rfl answered, ?_, MessagePack.decode_append, ?_⟩
  · intro waits count
    by_contra answered
    have longer := parse_append rfl answered (buffer.drop count)
    rw [List.take_append_drop, waits] at longer
    exact answered longer.symm
  · intro value consumed found count before
    exact ⟨MessagePack.decode_take found before, parse_take found before⟩

theorem integer_key_stays_refused :
    decode [0x81, 0x01] = .error (.key (.integer 1)) ∧
    ∀ more, decode ([0x81, 0x01] ++ more) = .error (.key (.integer 1)) := by
  have refused : decode [0x81, 0x01] = .error (.key (.integer 1)) := by rfl
  refine ⟨refused, fun more => ?_⟩
  rw [(answers_are_final [0x81, 0x01]).2.2.1 (by rw [refused]; simp) more, refused]

end Frame

end LogIntake
