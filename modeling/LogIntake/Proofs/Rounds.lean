import LogIntake.Proofs.Serving

/-!
# Loops that take bytes off a front

Two loops take one thing after the other off the front of some bytes: values off a blob, and frames
off the buffer of a connection. In both a round takes at least one byte and no more than are left
(`Advances`), and this alone bounds the rounds, keeps every offset inside, and cuts the bytes into
pieces (`Rounds.bounds`, `Rounds.exists_pieces`). Main statement: `loops_advance_in_bounds`.
-/
set_option autoImplicit false

namespace LogIntake

/-! ## Rounds -/

section

variable {State Thing : Type}

/-- Rounds of a loop from one state to another, with the thing and the count of bytes that each of
them takes. -/
inductive Rounds (round : State → Thing → Nat → State → Prop) :
    State → List (Thing × Nat) → State → Prop
  | none (state : State) : Rounds round state [] state
  | first {state next last : State} {thing : Thing} {count : Nat} {taken : List (Thing × Nat)}
    (once : round state thing count next) (later : Rounds round next taken last) :
    Rounds round state ((thing, count) :: taken) last

/-- Whether each round takes some of the bytes that are held, off their front. -/
def Advances (held : State → Bytes) (round : State → Thing → Nat → State → Prop) : Prop :=
  ∀ state thing count next, round state thing count next →
    1 ≤ count ∧ count ≤ (held state).length ∧ held next = (held state).drop count

def Determined (round : State → Thing → Nat → State → Prop) : Prop :=
  ∀ state thing count next other number after, round state thing count next →
    round state other number after → thing = other ∧ count = number ∧ next = after

namespace Rounds

variable {round : State → Thing → Nat → State → Prop} {held : State → Bytes}
  {state last : State} {taken : List (Thing × Nat)}

theorem bounds (advances : Advances held round) (rounds : Rounds round state taken last) :
    taken.length ≤ (taken.map Prod.snd).sum ∧ (taken.map Prod.snd).sum ≤ (held state).length ∧
      held last = (held state).drop (taken.map Prod.snd).sum := by
  induction rounds with
  | none state => simp
  | first once later ih =>
      obtain ⟨some, inside, left⟩ := advances _ _ _ _ once
      obtain ⟨fewer, enough, rest⟩ := ih
      rw [left, List.length_drop] at enough
      rw [left, List.drop_drop] at rest
      simp only [List.map_cons, List.sum_cons, List.length_cons]
      exact ⟨by omega, by omega, rest⟩

theorem length_le (advances : Advances held round) (rounds : Rounds round state taken last) :
    taken.length ≤ (held state).length := by
  obtain ⟨fewer, enough, -⟩ := rounds.bounds advances
  exact Nat.le_trans fewer enough

theorem exists_pieces (advances : Advances held round) (rounds : Rounds round state taken last) :
    ∃ pieces : List Bytes, held state = pieces.flatten ++ held last ∧
      pieces.map List.length = taken.map Prod.snd := by
  induction rounds with
  | none state => exact ⟨[], rfl, rfl⟩
  | @first state next last thing count taken once later ih =>
      obtain ⟨-, inside, left⟩ := advances _ _ _ _ once
      obtain ⟨pieces, split, lengths⟩ := ih
      refine ⟨(held state).take count :: pieces, ?_, ?_⟩
      · rw [List.flatten_cons, List.append_assoc, ← split, left, List.take_append_drop]
      · rw [List.map_cons, List.map_cons, lengths, List.length_take_of_le inside]

theorem isPrefix (determined : Determined round) (rounds : Rounds round state taken last)
    (ended : ∀ thing count next, ¬ round last thing count next) {some : List (Thing × Nat)}
    {middle : State} (other : Rounds round state some middle) : some <+: taken := by
  induction other generalizing taken with
  | none state => exact List.nil_prefix
  | first once later ih =>
      cases rounds with
      | none state => exact absurd once (ended _ _ _)
      | first also rest =>
          obtain ⟨rfl, rfl, rfl⟩ := determined _ _ _ _ _ _ _ once also
          exact List.prefix_cons_inj _ |>.mpr (ih rest)

end Rounds

end

/-! ## Values of a blob -/

namespace Frame

open MessagePack (decode)

structure BlobRound (blob : Bytes) (offset : Nat) (value : Value) (count next : Nat) : Prop where
  inside : offset < blob.length
  decoded : decode (blob.drop offset) = .ok (some (value, count))
  next : next = offset + count

/-- What becomes of the values that were found before the rounds over a blob stop. -/
inductive BlobEnds (blob : Bytes) (stop : Nat) (values : List Value) :
    Except Malformed (List Value) → Prop
  | whole (ended : stop = blob.length) : BlobEnds blob stop values (.ok values)
  | short (inside : stop < blob.length) (missing : decode (blob.drop stop) = .ok none) :
    BlobEnds blob stop values (.error .packedShort)
  | refused {cause : MessagePack.Refusal} (inside : stop < blob.length)
    (met : decode (blob.drop stop) = .error cause) :
    BlobEnds blob stop values (.error (.packedRefused cause))

theorem advances_blobRound (blob : Bytes) :
    Advances (fun offset => blob.drop offset) (BlobRound blob) := by
  intro offset value count next round
  obtain ⟨positive, enough⟩ := MessagePack.consumed_of_decode round.decoded
  refine ⟨positive, enough, ?_⟩
  rw [round.next, List.drop_drop]

theorem determined_blobRound (blob : Bytes) : Determined (BlobRound blob) := by
  intro offset value count next other number after once also
  have same := once.decoded.symm.trans also.decoded
  simp only [Except.ok.injEq, Option.some.injEq, Prod.mk.injEq] at same
  obtain ⟨rfl, rfl⟩ := same
  exact ⟨rfl, rfl, once.next.trans also.next.symm⟩

theorem stop_of_blobRounds {blob : Bytes} {taken : List (Value × Nat)} {offset stop : Nat}
    (rounds : Rounds (BlobRound blob) offset taken stop) (inside : offset ≤ blob.length) :
    stop ≤ blob.length := by
  induction rounds with
  | none offset => exact inside
  | first once later ih =>
      have enough := (MessagePack.consumed_of_decode once.decoded).2
      have before := once.inside
      rw [List.length_drop] at enough
      exact ih (by rw [once.next]; omega)

theorem BlobEnds.no_round {blob : Bytes} {stop : Nat} {values : List Value}
    {found : Except Malformed (List Value)} (ends : BlobEnds blob stop values found) (value : Value)
    (count next : Nat) : ¬ BlobRound blob stop value count next := by
  intro round
  have decoded := round.decoded
  have inside := round.inside
  cases ends with
  | whole ended => omega
  | short _ missing => rw [missing] at decoded; cases decoded
  | refused _ met => rw [met] at decoded; cases decoded

theorem exists_blobRounds (blob : Bytes) {offset : Nat} {rest : Bytes}
    (left : rest = blob.drop offset) (inside : offset ≤ blob.length) :
    ∃ taken stop, Rounds (BlobRound blob) offset taken stop ∧
      BlobEnds blob stop (taken.map Prod.fst) (blobValues rest) := by
  fun_induction blobValues rest generalizing offset with
  | case1 =>
      have ended := List.drop_eq_nil_iff.mp left.symm
      exact ⟨[], offset, .none offset, .whole (Nat.le_antisymm inside ended)⟩
  | case2 rest present run =>
      have before : offset < blob.length := by simpa [left] using present
      rw [left] at run
      exact ⟨[], offset, .none offset, .short before (MessagePack.decode_eq_none.mpr run)⟩
  | case3 rest present cause run =>
      have before : offset < blob.length := by simpa [left] using present
      rw [left] at run
      exact ⟨[], offset, .none offset, .refused before (MessagePack.decode_eq_error.mpr run)⟩
  | case4 rest present value later run ih =>
      have before : offset < blob.length := by simpa [left] using present
      obtain ⟨piece, -, split⟩ := MessagePack.takes_read _ _ _ run
      have length := congrArg List.length (left.symm.trans split)
      rw [List.length_drop, List.length_append] at length
      have after : later = blob.drop (offset + piece.length) := by
        rw [← List.drop_drop, ← left, split, List.drop_left]
      have decoded : decode (blob.drop offset) = .ok (some (value, piece.length)) := by
        refine MessagePack.decode_eq_some.mpr ⟨by rw [List.length_drop]; omega, ?_⟩
        rw [← left, run, split, List.drop_left]
      obtain ⟨taken, stop, rounds, ends⟩ := ih after (by omega)
      refine ⟨(value, piece.length) :: taken, stop, .first ⟨before, decoded, rfl⟩ rounds, ?_⟩
      generalize blobValues later = found at ends
      cases ends with
      | whole ended => exact .whole ended
      | short inside missing => exact .short inside missing
      | refused inside met => exact .refused inside met

end Frame

/-! ## Frames of a buffer -/

open LogIntake.Frame (BlobRound BlobEnds blobValues)

structure FrameRound (connection : Connection) (frame : Frame) (count : Nat) (next : Connection) :
    Prop where
  parsed : connection.scanner.parse connection.buffer = (next.scanner, .complete frame count)
  buffer : next.buffer = connection.buffer.drop count
  limit : next.limit = connection.limit

/-- Where the rounds of a connection leave it at a hub: it waits, or has failed and is gone. -/
inductive FrameEnds (hub : Hub) (id : ConnectionId) (connection : Connection) : Hub × Phase → Prop
  | waits {after : Connection} (look : connection.examine = .wait after) :
    FrameEnds hub id connection (hub, .waiting after)
  | fails {fault : Frame.Fault} (look : connection.examine = .fault fault) :
    FrameEnds hub id connection (hub.deregister id, .gone (.fault fault))

theorem advances_frameRound : Advances Connection.buffer FrameRound := by
  intro connection frame count next round
  obtain ⟨positive, enough⟩ := Frame.Scanner.consumed_of_parse round.parsed
  exact ⟨positive, enough, round.buffer⟩

theorem determined_frameRound : Determined FrameRound := by
  intro connection frame count next other number after once also
  have same := once.parsed.symm.trans also.parsed
  simp only [Prod.mk.injEq, Frame.Parsed.complete.injEq] at same
  obtain ⟨scanners, rfl, rfl⟩ := same
  refine ⟨rfl, rfl, ?_⟩
  cases next
  cases after
  simp only [Connection.mk.injEq]
  exact ⟨once.limit.trans also.limit.symm, once.buffer.trans also.buffer.symm, scanners⟩

theorem examine_of_frameRound {connection next : Connection} {frame : Frame} {count : Nat}
    (round : FrameRound connection frame count next) :
    connection.examine = .frame frame next := by
  rw [Connection.examine, round.parsed]
  simp only [← round.buffer, ← round.limit]

theorem frameRound_of_examine {connection next : Connection} {frame : Frame}
    (look : connection.examine = .frame frame next) :
    ∃ count, FrameRound connection frame count next := by
  unfold Connection.examine at look
  split at look
  · next run =>
    cases look
    exact ⟨_, run, rfl, rfl⟩
  · split at look <;> cases look
  · cases look

theorem FrameEnds.no_round {hub : Hub} {id : ConnectionId} {connection : Connection}
    {rest : Hub × Phase} (ends : FrameEnds hub id connection rest) (frame : Frame) (count : Nat)
    (next : Connection) : ¬ FrameRound connection frame count next := by
  intro round
  have found := examine_of_frameRound round
  cases ends with
  | waits look => rw [look] at found; cases found
  | fails look => rw [look] at found; cases found

theorem exists_frameRounds (hub : Hub) (id : ConnectionId) (connection : Connection) :
    ∃ taken last, Rounds FrameRound connection taken last ∧
      FrameEnds (hub.dispatched id (taken.map Prod.fst)) id last
        (hub.restPhase id (.examining connection)) := by
  fun_induction Connection.settle connection generalizing hub with
  | case1 connection frame after look frames standing run ih =>
      obtain ⟨count, once⟩ := frameRound_of_examine look
      obtain ⟨taken, last, rounds, ends⟩ := ih (hub.dispatched id [frame])
      rw [Hub.dispatched_append] at ends
      refine ⟨(frame, count) :: taken, last, .first once rounds, ?_⟩
      rw [Hub.restPhase_busy rfl, Hub.stepPhase, look]
      dsimp only
      rw [Hub.restPhase_counting]
      exact ends
  | case2 connection after look =>
      refine ⟨[], connection, .none connection, ?_⟩
      rw [Hub.restPhase_busy rfl, Hub.stepPhase, look]
      dsimp only
      rw [Hub.restPhase_idle rfl, List.map_nil, Hub.dispatched_nil]
      exact .waits look
  | case3 connection fault look =>
      refine ⟨[], connection, .none connection, ?_⟩
      rw [Hub.restPhase_busy rfl, Hub.stepPhase, look]
      dsimp only
      rw [Hub.restPhase_ending, List.map_nil, Hub.dispatched_nil]
      exact .fails look

/-! ## Both loops -/

/-- Both loops go on in steps of at least one byte and stay inside the bytes that there are,
whatever these are. Over a blob: a decoded value takes at least one byte of what is left and no
more; there are rounds that come to an end, of which all others are a start, so no offset is beyond
the blob and no more rounds are made than it has bytes; and the values are those of all bytes of the
blob, cut into pieces, if none is refused. Over the buffer of a connection: a frame takes at least
one byte and no more than there are; and a connection takes no more frames than its buffer has
bytes, until it waits, or has failed and is gone. -/
theorem loops_advance_in_bounds :
    (∀ blob : Bytes,
      (∀ offset value count, MessagePack.decode (blob.drop offset) = .ok (some (value, count)) →
        1 ≤ count ∧ offset + count ≤ blob.length) ∧
      ∃ taken stop, Rounds (BlobRound blob) 0 taken stop ∧
        BlobEnds blob stop (taken.map Prod.fst) (blobValues blob) ∧
        taken.length ≤ blob.length ∧
        (∀ start offset, Rounds (BlobRound blob) 0 start offset →
          start <+: taken ∧ offset ≤ blob.length) ∧
        ∀ values, blobValues blob = .ok values → values = taken.map Prod.fst ∧
          ∃ pieces : List Bytes, blob = pieces.flatten ∧
            pieces.map List.length = taken.map Prod.snd) ∧
    ∀ connection : Connection,
      (∀ scanner frame count,
        connection.scanner.parse connection.buffer = (scanner, .complete frame count) →
          1 ≤ count ∧ count ≤ connection.buffer.length) ∧
      ∀ (hub : Hub) (id : ConnectionId), ∃ taken last, Rounds FrameRound connection taken last ∧
        FrameEnds (hub.dispatched id (taken.map Prod.fst)) id last
          (hub.restPhase id (.examining connection)) ∧
        taken.length ≤ connection.buffer.length ∧
        ∀ start middle, Rounds FrameRound connection start middle → start <+: taken := by
  refine ⟨fun blob => ⟨?_, ?_⟩, fun connection => ⟨?_, ?_⟩⟩
  · intro offset value count decoded
    obtain ⟨positive, enough⟩ := MessagePack.consumed_of_decode decoded
    rw [List.length_drop] at enough
    exact ⟨positive, by omega⟩
  · obtain ⟨taken, stop, rounds, ends⟩ :=
      Frame.exists_blobRounds blob (List.drop_zero (l := blob)).symm (Nat.zero_le _)
    have advances := Frame.advances_blobRound blob
    refine ⟨taken, stop, rounds, ends, ?_, ?_, ?_⟩
    · have bound := rounds.length_le advances
      rwa [List.drop_zero] at bound
    · intro start offset others
      exact ⟨rounds.isPrefix (Frame.determined_blobRound blob) ends.no_round others,
        Frame.stop_of_blobRounds others (Nat.zero_le _)⟩
    · intro values found
      rw [found] at ends
      cases ends with
      | whole ended =>
          obtain ⟨pieces, split, lengths⟩ := rounds.exists_pieces advances
          rw [List.drop_zero, ended, List.drop_length, List.append_nil] at split
          exact ⟨rfl, pieces, split, lengths⟩
  · intro scanner frame count parsed
    exact Frame.Scanner.consumed_of_parse parsed
  · intro hub id
    obtain ⟨taken, last, rounds, ends⟩ := exists_frameRounds hub id connection
    exact ⟨taken, last, rounds, ends, rounds.length_le advances_frameRound,
      fun start middle others => rounds.isPrefix determined_frameRound ends.no_round others⟩

end LogIntake
