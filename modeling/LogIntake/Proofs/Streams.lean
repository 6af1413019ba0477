import LogIntake.Proofs.Agreement

/-!
# Streams

How the frames of a stream are found one by one, and what more bytes at the end of a stream change:
a frame that was found, and a fault, stay (`parse_append`),
and the frames of a longer stream are those found so far and those of what was unfinished, followed
by the new bytes (`ofStream_append`).
-/
set_option autoImplicit false

namespace LogIntake.Frame

theorem ofStream_of_complete {bytes : Bytes} {frame : Frame} {consumed : Nat}
    (first : parse bytes = .complete frame consumed) :
    ofStream bytes = (frame :: (ofStream (bytes.drop consumed)).1,
      (ofStream (bytes.drop consumed)).2) := by
  rw [ofStream.eq_def]
  split
  · next other count look =>
    rw [first] at look
    cases look
    rfl
  · next look => rw [first] at look; cases look
  · next look => rw [first] at look; cases look

theorem ofStream_of_incomplete {bytes : Bytes} (first : parse bytes = .incomplete) :
    ofStream bytes = ([], .unfinished bytes) := by
  rw [ofStream.eq_def]
  split
  · next look => rw [first] at look; cases look
  · rfl
  · next look => rw [first] at look; cases look

theorem ofStream_of_faulty {bytes : Bytes} {fault : Fault} (first : parse bytes = .faulty fault) :
    ofStream bytes = ([], .faulty fault) := by
  rw [ofStream.eq_def]
  split
  · next look => rw [first] at look; cases look
  · next look => rw [first] at look; cases look
  · next look =>
    rw [first] at look
    cases look
    rfl

theorem ofStream_nil : ofStream [] = ([], .unfinished []) := by
  refine ofStream_of_incomplete ?_
  rw [parse_eq, Scanner.scan, List.drop_nil, Scanner.walk.eq_def]
  rfl

/-! ## Longer streams -/

theorem scan_append_of_decided {buffer : Bytes} {met : Scan}
    (found : (Scanner.scan {} buffer).2 = met) (decided : met ≠ .incomplete) (more : Bytes) :
    (Scanner.scan {} (buffer ++ more)).2 = met := by
  have run : Scanner.walk {} buffer = ((Scanner.walk {} buffer).1, met) := Prod.ext rfl found
  change (Scanner.walk {} (buffer ++ more)).2 = met
  rw [Scanner.walk_append_of_decided run decided more]

theorem scan_bound (buffer : Bytes) :
    (∀ stop, (Scanner.scan {} buffer).2 = .complete stop → stop ≤ buffer.length) ∧
    ∀ position, (Scanner.scan {} buffer).2 = .reserved position → position < buffer.length := by
  change (∀ stop, (Scanner.walk {} buffer).2 = .complete stop → stop ≤ buffer.length) ∧
    ∀ position, (Scanner.walk {} buffer).2 = .reserved position → position < buffer.length
  constructor
  · intro stop met
    have bound := Scanner.complete_le_of_walk (Prod.ext rfl met)
    rwa [Nat.zero_add] at bound
  · intro position met
    have bound := Scanner.reserved_lt_of_walk (Prod.ext rfl met)
    rwa [Nat.zero_add] at bound

theorem parse_append {buffer : Bytes} {answer : Parsed} (found : parse buffer = answer)
    (answered : answer ≠ .incomplete) (more : Bytes) : parse (buffer ++ more) = answer := by
  have bound := scan_bound buffer
  rw [parse_eq] at found
  rw [parse_eq, ← found]
  cases met : (Scanner.scan {} buffer).2 with
  | incomplete =>
      rw [met] at found
      exact absurd found.symm answered
  | reserved position =>
      have enough := bound.2 position met
      rw [scan_append_of_decided met (by simp) more]
      dsimp only
      rw [List.take_append_of_le_length (by omega)]
  | complete stop =>
      rw [scan_append_of_decided met (by simp) more]
      dsimp only
      rw [List.take_append_of_le_length (bound.1 stop met)]

theorem ofStream_append {bytes rest : Bytes} {frames : List Frame}
    (found : ofStream bytes = (frames, .unfinished rest)) (more : Bytes) :
    ofStream (bytes ++ more) =
      (frames ++ (ofStream (rest ++ more)).1, (ofStream (rest ++ more)).2) := by
  fun_induction ofStream bytes generalizing frames with
  | case1 bytes frame consumed look others remainder run ih =>
      cases found
      have bounds := consumed_of_parse look
      have same := parse_append look (by simp) more
      rw [ofStream_of_complete same, List.drop_append_of_le_length bounds.2, ih run]
      rfl
  | case2 bytes look =>
      cases found
      rfl
  | case3 bytes fault look => cases found

theorem ofStream_append_of_faulty {bytes : Bytes} {frames : List Frame} {fault : Fault}
    (found : ofStream bytes = (frames, .faulty fault)) (more : Bytes) :
    ofStream (bytes ++ more) = (frames, .faulty fault) := by
  fun_induction ofStream bytes generalizing frames with
  | case1 bytes frame consumed look others remainder run ih =>
      cases found
      have bounds := consumed_of_parse look
      have same := parse_append look (by simp) more
      rw [ofStream_of_complete same, List.drop_append_of_le_length bounds.2, ih run]
  | case2 bytes look => cases found
  | case3 bytes other look =>
      cases found
      have same := parse_append look (by simp) more
      exact ofStream_of_faulty same

theorem remainder_ne_tooLarge (bytes : Bytes) (limit : Nat) :
    (ofStream bytes).2 ≠ .faulty (.tooLarge limit) := by
  fun_induction ofStream bytes with
  | case1 bytes frame consumed look others remainder run ih =>
      rw [run] at ih
      exact ih
  | case2 bytes look => simp
  | case3 bytes fault look =>
      rintro ⟨⟩
      rw [parse_eq] at look
      cases met : (Scanner.scan {} bytes).2 with
      | incomplete =>
          rw [met] at look
          cases look
      | reserved position =>
          rw [met] at look
          dsimp only [reservedFault] at look
          split at look <;> cases look
      | complete stop =>
          rw [met] at look
          dsimp only [parseItem] at look
          split at look
          · cases look
          · cases look
          · split at look <;> cases look

/-- The start of a stream holds the first of its frames. -/
theorem ofStream_prefix (bytes more : Bytes) :
    (ofStream bytes).1 <+: (ofStream (bytes ++ more)).1 := by
  rcases found : ofStream bytes with ⟨frames, remainder⟩
  cases remainder with
  | unfinished rest =>
      rw [ofStream_append found more]
      exact List.prefix_append frames _
  | faulty fault =>
      simp only [ofStream_append_of_faulty found more, List.prefix_refl]

end LogIntake.Frame
