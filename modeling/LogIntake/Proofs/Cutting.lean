import LogIntake.Proofs.Finality
import LogIntake.Proofs.Running

/-!
# Cutting a stream

Cutting the bytes that a connection meets differently, or putting failures that pass between them,
can change what becomes of it only by leaving more of a frame unfinished than the limit allows
(`serve_cutScript`).
-/
set_option autoImplicit false

namespace LogIntake.Hub

open LogIntake.Frame (ofStream Remainder)

variable {before hub : Hub} {id : ConnectionId} {limit : Nat} {arrivals : List Arrival}

/-- Pieces of a stream, with failures that pass, and then an ending, before which all connections
are told to close. -/
def cutScript (pieces : List Arrival) (ending : Arrival) : List Happening :=
  pieces.map .arrival ++ [.told, .arrival ending]

theorem offered_cutScript {pieces : List Arrival} (calm : ∀ piece ∈ pieces, piece.exit? = none)
    (told : Bool) (ending : Arrival) :
    offered told (cutScript pieces ending) = pieces ++ [ending] := by
  induction pieces with
  | nil =>
      change (if ending = .close ∧ true = false then [] else [ending]) = [ending]
      exact if_neg (by simp)
  | cons piece rest ih =>
      have later := ih fun other member => calm other (List.mem_cons_of_mem _ member)
      have heeded : ¬ (piece = .close ∧ told = false) := by
        rintro ⟨rfl, -⟩
        cases calm _ List.mem_cons_self
      change offered told (.arrival piece :: cutScript rest ending) = _
      rw [offered, if_neg heeded, later]
      rfl

theorem heard_cutScript (before : Hub) (limit : Nat) {pieces : List Arrival}
    (calm : ∀ piece ∈ pieces, piece.exit? = none) (ending : Arrival) :
    before.heard limit (cutScript pieces ending) = pieces ++ [ending] ∨
      before.heard limit (cutScript pieces ending) <+: pieces ∧
        ∃ exit, (before.serve limit (cutScript pieces ending)).phase? before.registry.next =
          some (.gone exit) := by
  have heard := heard_offered before limit (cutScript pieces ending)
  rw [offered_cutScript calm] at heard
  rcases List.prefix_concat_iff.mp heard.1 with all | front
  · exact .inl all
  · rcases heard.2 with all | gone
    · exact .inl all
    · exact .inr ⟨front, gone⟩

theorem prefix_delivered (before : Hub) (id : ConnectionId) {short long : Bytes}
    (start : short <+: long) :
    (before.dispatched id (ofStream short).1).delivered <+:
      (before.dispatched id (ofStream long).1).delivered := by
  obtain ⟨more, rfl⟩ := start
  obtain ⟨later, split⟩ := Frame.ofStream_prefix short more
  rw [← split, ← dispatched_append]
  exact List.prefix_append _ _

/-- How a connection ends that met a stream to its end, in pieces that were never too long: by the
fault in the stream, or else by the ending. -/
def cutExit (remainder : Remainder) (ending : Exit) : Exit :=
  match remainder with
  | .faulty fault => .fault fault
  | .unfinished _ => ending

theorem serve_cutScript (before : Hub) (limit : Nat) {pieces : List Arrival}
    (calm : ∀ piece ∈ pieces, piece.exit? = none) {ending : Arrival} {exit : Exit}
    (ends : ending.exit? = some exit) :
    ∃ start, start <+: streamOf pieces ∧
      (before.serve limit (cutScript pieces ending)).delivered =
        (before.dispatched before.registry.next (ofStream start).1).delivered ∧
      (before.serve limit (cutScript pieces ending)).entries =
        (before.dispatched before.registry.next (ofStream start).1).entries ∧
      ((before.serve limit (cutScript pieces ending)).phase? before.registry.next =
            some (.gone (.fault (.tooLarge limit))) ∧
          (∃ rest, (ofStream start).2 = .unfinished rest ∧ limit < rest.length) ∨
        (ofStream start).1 = (ofStream (streamOf pieces)).1 ∧
        (before.serve limit (cutScript pieces ending)).phase? before.registry.next =
          some (.gone (cutExit (ofStream (streamOf pieces)).2 exit))) := by
  have served := served_serve before limit (cutScript pieces ending)
  have heard := heard_cutScript before limit calm ending
  generalize before.serve limit (cutScript pieces ending) = after at served heard ⊢
  generalize before.heard limit (cutScript pieces ending) = arrivals at served heard
  -- either the whole stream was met, or the connection was gone at a start of it
  rcases heard with rfl | ⟨⟨others, rfl⟩, other, gone⟩
  · have stream : streamOf (pieces ++ [ending]) = streamOf pieces := by
      rw [streamOf_append, streamOf_singleton, Arrival.content_of_exit? ends, List.append_nil]
    have entries := served.entries
    have delivered := served.delivered
    have phase := served.gone_iff
    have last : (pieces ++ [ending]).getLast?.bind Arrival.exit? = some exit := by simp [ends]
    rw [stream] at entries delivered
    refine ⟨streamOf pieces, List.prefix_refl _, delivered, entries, ?_⟩
    rw [phase, phase, exitAfter, stream, last]
    cases remainder : (ofStream (streamOf pieces)).2 with
    | faulty fault => exact .inr ⟨rfl, rfl⟩
    | unfinished rest =>
        by_cases long : limit < rest.length
        · exact .inl ⟨if_pos long, rest, rfl, long⟩
        · exact .inr ⟨rfl, if_neg long⟩
  · have whole := streamOf_append arrivals others
    have quiet : arrivals.getLast?.bind Arrival.exit? = none := by
      cases last : arrivals.getLast? with
      | none => rfl
      | some piece =>
          exact calm piece (List.mem_append_left _ (List.mem_of_getLast? last))
    refine ⟨streamOf arrivals, ?_, served.delivered, served.entries, ?_⟩
    · rw [whole]
      exact List.prefix_append _ _
    · have ended := (served.gone_iff other).mp gone
      cases remainder : (ofStream (streamOf arrivals)).2 with
      | faulty fault =>
          have same := Frame.ofStream_append_of_faulty (Prod.ext rfl remainder) (streamOf others)
          rw [whole, same]
          refine .inr ⟨rfl, (served.gone_iff _).mpr ?_⟩
          rw [exitAfter, remainder]
          rfl
      | unfinished rest =>
          rw [exitAfter, remainder, quiet] at ended
          by_cases long : limit < rest.length
          · have tooLong : exitAfter limit arrivals = some (.fault (.tooLarge limit)) :=
              exitAfter_eq_tooLarge.mpr ⟨rest, remainder, long⟩
            exact .inl ⟨(served.gone_iff _).mpr tooLong, rest, rfl, long⟩
          · dsimp only at ended
            rw [if_neg long] at ended
            cases ended

/-- Whether no frame of a stream grows beyond the limit before it is complete. -/
def StaysWithin (limit : Nat) (stream : Bytes) : Prop :=
  ∀ start rest, start <+: stream → (ofStream start).2 = .unfinished rest → rest.length ≤ limit

theorem phase?_ne_tooLarge (before : Hub) {pieces : List Arrival}
    (calm : ∀ piece ∈ pieces, piece.exit? = none) {ending : Arrival} {exit : Exit}
    (ends : ending.exit? = some exit) (within : StaysWithin limit (streamOf pieces)) :
    (before.serve limit (cutScript pieces ending)).phase? before.registry.next ≠
      some (.gone (.fault (.tooLarge limit))) := by
  obtain ⟨start, first, -, -, result⟩ := serve_cutScript before limit calm ends
  rcases result with ⟨-, rest, unfinished, long⟩ | ⟨-, left⟩
  · have short := within start rest first unfinished
    exact absurd long (Nat.not_lt.mpr short)
  · rw [left]
    have parsed := Frame.remainder_ne_tooLarge (streamOf pieces) limit
    have given := ending.exit?_ne_fault (.tooLarge limit)
    cases remainder : (ofStream (streamOf pieces)).2 with
    | faulty fault =>
        rw [remainder] at parsed
        simpa [cutExit] using parsed
    | unfinished rest =>
        rw [ends] at given
        simpa [cutExit] using given

/-- A connection meets the front of what a script offers, up to where what it has met ends it, and
then is gone; if nothing ends it, it has met all of it and waits with what is unfinished. It hands
on the batches of the frames at the front of the bytes that it has met, adds the number of their
entries to the counter, and ends by what follows them: a fault, a frame that is unfinished and
longer than the limit, or else the last arrival. All this is what a connection comes to that runs
through the same arrivals by itself. A cut stream is met to its end, and all of its frames handed
on, unless a frame was too long on the way. Two cuttings of one stream with one ending, failures
that pass in any places, give the same unless a frame was too long on the way, and then one of them
hands on the first of the batches of the other. In a stream in which no frame grows beyond the limit
before it is complete that does not happen. -/
theorem serve_depends_on_stream (before : Hub) (limit : Nat) :
    let id := before.registry.next
    (before.registry.Distinct → before.toldBefore = false) ∧
    (∀ script,
      let arrivals := before.heard limit script
      let after := before.serve limit script
      let batches := (ofStream (streamOf arrivals)).1.flatMap Frame.delivery
      let remainder := (ofStream (streamOf arrivals)).2
      (arrivals <+: offered before.toldBefore script ∧
        (∀ front last back, arrivals = front ++ last :: back → exitAfter limit front = none) ∧
        ((∃ exit, exitAfter limit arrivals = some exit ∧
            after.phase? id = some (.gone exit)) ∨
          exitAfter limit arrivals = none ∧ arrivals = offered before.toldBefore script ∧
            ∃ rest scanner, remainder = .unfinished rest ∧ rest.length ≤ limit ∧
              after.phase? id = some (.waiting ⟨limit, rest, scanner⟩))) ∧
      Left before id (({ limit } : Connection).run (offered before.toldBefore script)) after ∧
      after.delivered = before.delivered ++ batches.map (id, ·) ∧
      after.entries = before.entries + UInt64.ofNat (batches.map List.length).sum ∧
      (∀ fault, (∀ other, fault ≠ .tooLarge other) →
        (after.phase? id = some (.gone (.fault fault)) ↔ remainder = .faulty fault)) ∧
      (after.phase? id = some (.gone (.fault (.tooLarge limit))) ↔
        ∃ rest, remainder = .unfinished rest ∧ limit < rest.length) ∧
      ∀ rest, remainder = .unfinished rest → rest.length ≤ limit → ∀ exit,
        (after.phase? id = some (.gone exit) ↔
          arrivals.getLast?.bind Arrival.exit? = some exit)) ∧
    (∀ pieces : List Arrival, (∀ piece ∈ pieces, piece.exit? = none) →
      ∀ ending exit, ending.exit? = some exit →
      let arrivals := before.heard limit (cutScript pieces ending)
      let after := before.serve limit (cutScript pieces ending)
      let whole := ofStream (streamOf pieces)
      (arrivals = pieces ++ [ending] ∨
        arrivals <+: pieces ∧ ∃ other, after.phase? id = some (.gone other)) ∧
      (after.phase? id = some (.gone (.fault (.tooLarge limit))) ∧
          (∃ start rest, start <+: streamOf pieces ∧
            (ofStream start).2 = .unfinished rest ∧ limit < rest.length ∧
            after.delivered = (before.dispatched id (ofStream start).1).delivered ∧
            after.entries = (before.dispatched id (ofStream start).1).entries) ∨
        after.phase? id = some (.gone (cutExit whole.2 exit)) ∧
          after.delivered = (before.dispatched id whole.1).delivered ∧
          after.entries = (before.dispatched id whole.1).entries)) ∧
    ∀ pieces cut : List Arrival, (∀ piece ∈ pieces, piece.exit? = none) →
      (∀ piece ∈ cut, piece.exit? = none) → streamOf pieces = streamOf cut →
      ∀ ending exit, ending.exit? = some exit →
      let one := before.serve limit (cutScript pieces ending)
      let other := before.serve limit (cutScript cut ending)
      (one.delivered <+: other.delivered ∨ other.delivered <+: one.delivered) ∧
      (one.phase? id ≠ some (.gone (.fault (.tooLarge limit))) →
        other.phase? id ≠ some (.gone (.fault (.tooLarge limit))) →
        one.delivered = other.delivered ∧ one.entries = other.entries ∧
          one.phase? id = other.phase? id) ∧
      (StaysWithin limit (streamOf pieces) →
        one.phase? id ≠ some (.gone (.fault (.tooLarge limit))) ∧
        other.phase? id ≠ some (.gone (.fault (.tooLarge limit)))) := by
  refine ⟨toldBefore_of_distinct, ?_, ?_, ?_⟩
  · intro script
    have served := served_serve before limit script
    have heard := heard_offered before limit script
    refine ⟨⟨heard.1, ?_, ?_⟩, left_serve before limit script, served.delivered, served.entries,
      ?_, ?_, ?_⟩
    · intro front last back cut
      exact exitAfter_of_met (served_opened before limit) cut
    · rcases served.phase with gone | ⟨rest, scanner, goes, unfinished, short, -, -, waits⟩
      · exact .inl gone
      · refine .inr ⟨goes, heard.2.resolve_right ?_, rest, scanner, unfinished, short, waits⟩
        rintro ⟨exit, gone⟩
        rw [waits] at gone
        cases gone
    · intro fault parsed
      rw [served.gone_iff, exitAfter_eq_fault parsed]
    · rw [served.gone_iff, exitAfter_eq_tooLarge]
    · intro rest unfinished short exit
      rw [served.gone_iff, exitAfter_of_short unfinished short]
  · intro pieces calm ending exit ends
    refine ⟨heard_cutScript before limit calm ending, ?_⟩
    obtain ⟨start, first, delivered, entries, ⟨gone, rest, unfinished, long⟩ | ⟨same, gone⟩⟩ :=
      serve_cutScript before limit calm ends
    · exact .inl ⟨gone, start, rest, first, unfinished, long, delivered, entries⟩
    · exact .inr ⟨gone, same ▸ delivered, same ▸ entries⟩
  · intro pieces cut calm calm' same ending exit ends
    obtain ⟨start, first, delivered, entries, result⟩ := serve_cutScript before limit calm ends
    obtain ⟨start', first', delivered', entries', result'⟩ :=
      serve_cutScript before limit calm' ends
    rw [same] at first result
    refine ⟨?_, ?_, ?_⟩
    · rw [delivered, delivered']
      rcases List.prefix_or_prefix_of_prefix first first' with shorter | longer
      · exact .inl (prefix_delivered before _ shorter)
      · exact .inr (prefix_delivered before _ longer)
    · intro fine fine'
      rcases result with ⟨long, -⟩ | ⟨frames, left⟩
      · exact absurd long fine
      · rcases result' with ⟨long, -⟩ | ⟨frames', left'⟩
        · exact absurd long fine'
        · have alike := frames.trans frames'.symm
          rw [delivered, delivered', entries, entries', alike]
          exact ⟨rfl, rfl, left.trans left'.symm⟩
    · intro within
      exact ⟨phase?_ne_tooLarge before calm ends within,
        phase?_ne_tooLarge before calm' ends (same ▸ within)⟩

/-- Two frames of eight and five bytes that arrive in three pieces, the reading having failed once
between two of them, are handed on one after the other, and the connection ends with the stream. -/
theorem frames_across_pieces_are_handed_on :
    let pieces : List Arrival :=
      [.bytes [0x93, 0xa1, 0x74], .failure .interrupted,
        .bytes [0x01, 0x81, 0xa1, 0x6b, 0xc0, 0x93, 0xa1], .bytes [0x75, 0x02, 0x80]]
    let after := ({} : Hub).serve 8 (cutScript pieces (.bytes []))
    ({} : Hub).heard 8 (cutScript pieces (.bytes [])) = pieces ++ [.bytes []] ∧
      after.delivered = [(1, [⟨"t", 1, [("k", .nil)]⟩]), (1, [⟨"u", 2, []⟩])] ∧
      after.entries = 2 ∧ after.phase? 1 = some (.gone .endOfStream) := by
  intro pieces after
  have heard : ({} : Hub).heard 8 (cutScript pieces (.bytes [])) = pieces ++ [.bytes []] := by
    decide +kernel
  have first : Frame.parse (streamOf (pieces ++ [.bytes []])) =
      .complete (.message "t" ⟨1, [("k", .nil)]⟩) 8 :=
    Frame.parse_eq_complete.mpr (set_option maxRecDepth 1024 in ⟨_, rfl, rfl⟩)
  have second : Frame.parse ((streamOf (pieces ++ [.bytes []])).drop 8) =
      .complete (.message "u" ⟨2, []⟩) 5 :=
    Frame.parse_eq_complete.mpr (set_option maxRecDepth 1024 in ⟨_, rfl, rfl⟩)
  have stream : ofStream (streamOf (pieces ++ [.bytes []])) =
      ([.message "t" ⟨1, [("k", .nil)]⟩, .message "u" ⟨2, []⟩], .unfinished []) := by
    rw [Frame.ofStream_of_complete first, Frame.ofStream_of_complete second]
    exact congrArg (fun rest => (_ :: _ :: rest.1, rest.2)) Frame.ofStream_nil
  obtain ⟨-, served, -⟩ := serve_depends_on_stream {} 8
  obtain ⟨-, -, delivered, entries, -, -, ends⟩ := served (cutScript pieces (.bytes []))
  rw [heard, stream] at delivered entries ends
  exact ⟨heard, delivered, entries, (ends [] rfl (by decide) _).mpr rfl⟩

end LogIntake.Hub
