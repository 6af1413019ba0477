import LogIntake.Proofs.Cutting
import LogIntake.Proofs.Tiling

/-!
# The limit on frames

A connection is refused for the size of a frame only when, after it has met bytes, more than the
limit is there of one frame that is unfinished (`exists_last_of_tooLarge`). It holds no more than
that while it waits, and so no frame that it hands on is longer than the limit and the bytes that
completed it.
-/
set_option autoImplicit false

namespace LogIntake

open LogIntake.Frame (ofStream Tiled Whole)

def Happening.content : Happening → Bytes
  | .arrival next => next.content
  | .told => []

namespace Hub

variable {before hub : Hub} {id : ConnectionId} {limit : Nat} {arrivals : List Arrival}

/-! ## What a connection meets -/

theorem streamOf_offered (told : Bool) (script : List Happening) :
    streamOf (offered told script) = script.flatMap Happening.content := by
  induction script generalizing told with
  | nil => rfl
  | cons happening rest ih =>
      rw [List.flatMap_cons]
      cases happening with
      | told => exact ih true
      | arrival arrival =>
          rw [offered]
          split
          · next deaf =>
            rw [ih, deaf.1]
            rfl
          · rw [← ih told]
            rfl

theorem prefix_streamOf_met (served : Served before id limit arrivals hub)
    (script : List Happening) :
    streamOf (hub.met id script) <+: script.flatMap Happening.content := by
  obtain ⟨more, split⟩ := (met_offered served script).1
  rw [← streamOf_offered (hub.registry.isSignalled id), ← split, streamOf_append]
  exact List.prefix_append _ _

/-! ## Refusal for size -/

theorem staysWithin_flatten {wholes : List Bytes}
    (each : ∀ whole ∈ wholes, Whole whole ∧ whole.length ≤ limit) :
    StaysWithin limit wholes.flatten :=
  fun _ _ start unfinished => Frame.length_le_of_unfinished each start unfinished

theorem size_of_exitAfter {size : Nat}
    (ends : exitAfter limit arrivals = some (.fault (.tooLarge size))) : size = limit := by
  have parsed := Frame.remainder_ne_tooLarge (streamOf arrivals) size
  rw [exitAfter] at ends
  cases remainder : (ofStream (streamOf arrivals)).2 with
  | faulty fault =>
      rw [remainder] at ends parsed
      cases ends
      exact absurd rfl parsed
  | unfinished rest =>
      rw [remainder] at ends
      dsimp only at ends
      split at ends
      · cases ends
        rfl
      · obtain ⟨last, -, given⟩ := Option.bind_eq_some_iff.mp ends
        exact absurd given (last.exit?_ne_fault _)

theorem exists_last_of_tooLarge (served : Served before id limit [] hub)
    {script : List Happening}
    (ends : exitAfter limit (hub.met id script) = some (.fault (.tooLarge limit))) :
    ∃ met piece, piece ≠ [] ∧ hub.met id script = met ++ [.bytes piece] := by
  obtain ⟨rest, unfinished, long⟩ := exitAfter_eq_tooLarge.mp ends
  rcases List.eq_nil_or_concat (hub.met id script) with none | ⟨front, last, cut⟩
  · rw [none] at unfinished
    change (ofStream []).2 = _ at unfinished
    rw [Frame.ofStream_nil] at unfinished
    cases unfinished
    exact absurd long (Nat.not_lt_zero limit)
  · rw [List.concat_eq_append] at cut
    have goes : exitAfter limit ([] ++ front) = none := exitAfter_of_met served cut
    have brings : last.content ≠ [] := by
      intro nothing
      -- the frame would have been too long before the last arrival
      have same : streamOf (hub.met id script) = streamOf front := by
        rw [cut, streamOf_append, streamOf_singleton, nothing, List.append_nil]
      rw [same] at unfinished
      have earlier := exitAfter_eq_tooLarge.mpr ⟨rest, unfinished, long⟩
      rw [List.nil_append, earlier] at goes
      cases goes
    cases last with
    | bytes piece => exact ⟨front, piece, brings, cut⟩
    | _ => exact absurd rfl brings

/-! ## Waiting -/

theorem Served.of_waiting (served : Served before id limit arrivals hub) {connection : Connection}
    (waits : hub.phase? id = some (.waiting connection)) :
    (ofStream (streamOf arrivals)).2 = .unfinished connection.buffer ∧
      connection.buffer.length ≤ limit := by
  rcases served.phase with ⟨exit, -, found⟩ | ⟨rest, scanner, -, unfinished, short, -, -, found⟩
  · rw [waits] at found
    cases found
  · rw [waits] at found
    cases found
    exact ⟨unfinished, short⟩

theorem heard_read {script : List Happening} {connection : Connection}
    (waits : (before.serve limit script).phase? before.registry.next = some (.waiting connection))
    (piece : Bytes) :
    before.heard limit (script ++ [.arrival (.bytes piece)]) =
      before.heard limit script ++ [.bytes piece] := by
  have met : (before.serve limit script).meets before.registry.next (.arrival (.bytes piece)) =
      [.bytes piece] := by
    rw [meets_waiting waits]
    exact if_neg (by simp)
  rw [heard, met_append]
  exact congrArg (before.heard limit script ++ ·) (congrArg (· ++ []) met)

theorem delivered_read {script : List Happening} {connection : Connection}
    (waits : (before.serve limit script).phase? before.registry.next = some (.waiting connection))
    (piece : Bytes) :
    (before.serve limit (script ++ [.arrival (.bytes piece)])).delivered =
      ((before.serve limit script).dispatched before.registry.next
        (ofStream (connection.buffer ++ piece)).1).delivered := by
  have served := served_serve before limit script
  have next := served_serve before limit (script ++ [.arrival (.bytes piece)])
  have stream := Frame.ofStream_append (Prod.ext rfl (served.of_waiting waits).1) piece
  rw [heard_read waits piece] at next
  rw [next.delivered, streamOf_append, streamOf_singleton, Arrival.content, stream,
    ← dispatched_append]
  simp only [dispatched, served.delivered]

/-- A connection is not refused for size while no more has arrived of a frame than the limit, and so
not in a stream of frames that are within the limit, whatever pieces it arrives in. It is refused
just when, after it met bytes and handed on all frames before, more than the limit is there of a
frame that is unfinished. While it waits it holds no more than the limit of one frame, and a frame
that the next bytes complete is no longer than the limit and these bytes. -/
theorem limit_is_sound (before : Hub) (limit : Nat) (script : List Happening) :
    let id := before.registry.next
    let arrivals := before.heard limit script
    let after := before.serve limit script
    let handed (frames : List Frame) := (frames.flatMap Frame.delivery).map (id, ·)
    (∀ frames wholes rest whole, Tiled (streamOf arrivals) frames wholes rest →
      Frame.parse rest = .incomplete → rest <+: whole → whole.length ≤ limit →
      ∀ size, after.phase? id ≠ some (.gone (.fault (.tooLarge size)))) ∧
    (∀ wholes : List Bytes, (∀ whole ∈ wholes, Whole whole ∧ whole.length ≤ limit) →
      script.flatMap Happening.content <+: wholes.flatten →
      ∀ size, after.phase? id ≠ some (.gone (.fault (.tooLarge size)))) ∧
    (∀ size, after.phase? id = some (.gone (.fault (.tooLarge size))) ↔
      size = limit ∧ ∃ met piece frames wholes rest,
        piece ≠ [] ∧ arrivals = met ++ [.bytes piece] ∧
        Tiled (streamOf arrivals) frames wholes rest ∧ Frame.parse rest = .incomplete ∧
        after.delivered = before.delivered ++ handed frames ∧ limit < rest.length) ∧
    ∀ connection, after.phase? id = some (.waiting connection) →
      connection.buffer.length ≤ limit ∧
      (∃ frames wholes, Tiled (streamOf arrivals) frames wholes connection.buffer ∧
        Frame.parse connection.buffer = .incomplete ∧
        after.delivered = before.delivered ++ handed frames) ∧
      ∀ piece, ∃ frames wholes rest,
        Tiled (connection.buffer ++ piece) frames wholes rest ∧ (ofStream rest).1 = [] ∧
        (before.serve limit (script ++ [.arrival (.bytes piece)])).delivered =
          after.delivered ++ handed frames ∧
        ∀ whole ∈ wholes, whole.length ≤ limit + piece.length := by
  intro id arrivals after handed
  have served : Served before id limit arrivals after := served_serve before limit script
  have unfinished_of_tooLarge {size : Nat}
      (refused : after.phase? id = some (.gone (.fault (.tooLarge size)))) :
      size = limit ∧ ∃ rest, (ofStream (streamOf arrivals)).2 = .unfinished rest ∧
        limit < rest.length := by
    have ends := (served.gone_iff _).mp refused
    obtain rfl := size_of_exitAfter ends
    exact ⟨rfl, exitAfter_eq_tooLarge.mp ends⟩
  refine ⟨?_, ?_, fun size => ⟨?_, ?_⟩, ?_⟩
  · intro frames wholes rest whole tiled waits start short size refused
    obtain ⟨-, other, unfinished, long⟩ := unfinished_of_tooLarge refused
    rw [Frame.ofStream_eq_unfinished.mpr ⟨wholes, tiled, waits⟩] at unfinished
    cases unfinished
    exact Nat.not_lt.mpr (Nat.le_trans start.length_le short) long
  · intro wholes each start size refused
    obtain ⟨-, rest, unfinished, long⟩ := unfinished_of_tooLarge refused
    have met := prefix_streamOf_met (served_opened before limit) script
    have short := staysWithin_flatten each _ rest (met.trans start) unfinished
    exact Nat.not_lt.mpr short long
  · intro refused
    obtain ⟨rfl, rest, unfinished, long⟩ := unfinished_of_tooLarge refused
    obtain ⟨met, piece, brings, last⟩ :=
      exists_last_of_tooLarge (served_opened before size) ((served.gone_iff _).mp refused)
    obtain ⟨wholes, tiled, waits⟩ :=
      Frame.ofStream_eq_unfinished.mp (Prod.ext rfl unfinished)
    exact ⟨rfl, met, piece, _, wholes, rest, brings, last, tiled, waits, served.delivered, long⟩
  · rintro ⟨rfl, met, piece, frames, wholes, rest, -, -, tiled, waits, -, long⟩
    refine (served.gone_iff _).mpr (exitAfter_eq_tooLarge.mpr ⟨rest, ?_, long⟩)
    rw [Frame.ofStream_eq_unfinished.mpr ⟨wholes, tiled, waits⟩]
  · intro connection waits
    obtain ⟨unfinished, short⟩ := served.of_waiting waits
    obtain ⟨wholes, tiled, start⟩ := Frame.ofStream_eq_unfinished.mp (Prod.ext rfl unfinished)
    refine ⟨short, ⟨_, wholes, tiled, start, served.delivered⟩, fun piece => ?_⟩
    obtain ⟨completed, rest, cut, remains⟩ := Frame.tiled_ofStream (connection.buffer ++ piece)
    refine ⟨_, completed, rest, cut, congrArg Prod.fst remains, delivered_read waits piece, ?_⟩
    intro whole member
    have within := cut.length_le whole member
    rw [List.length_append] at within
    omega

/-- A frame of eight bytes that arrives without its last one is waited for if the limit is eight,
and refused if it is six. -/
theorem frame_of_eight_bytes_is_served :
    let start : Bytes := [0x93, 0xa1, 0x74, 0x01, 0x81, 0xa1, 0x6b]
    let script : List Happening := [.arrival (.bytes start), .arrival (.bytes [0xc0])]
    (∀ size, (({} : Hub).serve 8 script).phase? ({} : Hub).registry.next ≠
      some (.gone (.fault (.tooLarge size)))) ∧
    (({} : Hub).serve 6 script).phase? ({} : Hub).registry.next =
      some (.gone (.fault (.tooLarge 6))) := by
  intro start script
  have whole : Frame.parse (start ++ [0xc0]) = .complete (.message "t" ⟨1, [("k", .nil)]⟩) 8 :=
    Frame.parse_eq_complete.mpr (set_option maxRecDepth 1024 in ⟨_, rfl, rfl⟩)
  obtain ⟨value, read, -⟩ := Frame.parse_eq_complete.mp whole
  have waits : Frame.parse ((start ++ [0xc0]).take 7) = .incomplete :=
    Frame.parse_take read (by decide)
  have met : ({} : Hub).heard 6 script = [.bytes start] := by decide +kernel
  have handed : (({} : Hub).serve 6 script).delivered = [] :=
    List.eq_nil_of_length_eq_zero (by decide +kernel)
  refine ⟨(limit_is_sound {} 8 script).2.1 [start ++ [0xc0]] ?_ (List.prefix_refl _), ?_⟩
  · intro frame member
    rw [List.mem_singleton.mp member]
    exact ⟨.inl ⟨_, whole⟩, Nat.le_refl 8⟩
  · refine ((limit_is_sound {} 6 script).2.2.1 6).mpr
      ⟨rfl, [], start, [], [], start, by decide, met, ?_, waits, handed, by decide⟩
    rw [met]
    exact .done start

end Hub

end LogIntake
