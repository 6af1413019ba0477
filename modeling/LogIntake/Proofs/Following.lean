import LogIntake.Proofs.Views

/-!
# Following a connection

What a connection has done after any of its events, in terms of the bytes that it has met so far.
At each moment it handed on the batches of the first frames of its stream (`Follows`), and where it
has ended, the batches of all of them. One lemma says what an arrival keeps (`follows_arrived`), one
what a step keeps (`follows_stepped`), and from them follows what any number of events keeps
(`follows_foldl`).
-/
set_option autoImplicit false

namespace LogIntake

open LogIntake.Frame (ofStream)

namespace View

/-- The arrivals that a connection meets in an event: the signal to close only after it was told. -/
def hears (view : View) : Hub.Event → List Arrival
  | .arrived _ arrival =>
    match view.phase with
    | some (.waiting _) => if arrival = .close ∧ view.told = false then [] else [arrival]
    | _ => []
  | _ => []

def heard (view : View) : List Hub.Event → List Arrival
  | [] => []
  | event :: later => view.hears event ++ (view.step event).heard later

/-- What a connection with this limit has handed on, and where it is, after it met some arrivals. -/
inductive Follows (limit : Nat) (arrivals : List Arrival) : List Batch → Option Phase → Prop where
  | waiting (rest : Bytes) (scanner : Frame.Scanner)
      (unfinished : (ofStream (streamOf arrivals)).2 = .unfinished rest)
      (short : rest.length ≤ limit) (resumes : scanner.Resumes rest) :
    Follows limit arrivals ((ofStream (streamOf arrivals)).1.flatMap Frame.delivery)
      (some (.waiting ⟨limit, rest, scanner⟩))
  | examining (frames : List Frame) (buffer : Bytes) (scanner : Frame.Scanner)
      (stream : ofStream (streamOf arrivals) =
        (frames ++ (ofStream buffer).1, (ofStream buffer).2))
      (resumes : scanner.Resumes buffer) (quiet : arrivals.getLast?.bind Arrival.exit? = none) :
    Follows limit arrivals (frames.flatMap Frame.delivery)
      (some (.examining ⟨limit, buffer, scanner⟩))
  | counting (frames : List Frame) (frame : Frame) (buffer : Bytes)
      (stream : ofStream (streamOf arrivals) =
        (frames ++ frame :: (ofStream buffer).1, (ofStream buffer).2))
      (quiet : arrivals.getLast?.bind Arrival.exit? = none) :
    Follows limit arrivals (frames.flatMap Frame.delivery)
      (some (.counting frame ⟨limit, buffer, {}⟩))
  | handing (frames : List Frame) (frame : Frame) (batch : Batch) (buffer : Bytes)
      (one : frame.delivery = [batch])
      (stream : ofStream (streamOf arrivals) =
        (frames ++ frame :: (ofStream buffer).1, (ofStream buffer).2))
      (quiet : arrivals.getLast?.bind Arrival.exit? = none) :
    Follows limit arrivals (frames.flatMap Frame.delivery)
      (some (.handing batch ⟨limit, buffer, {}⟩))
  | ended (exit : Exit) (phase : Phase) (ends : exitAfter limit arrivals = some exit)
      (exits : phase.exit? = some exit) :
    Follows limit arrivals ((ofStream (streamOf arrivals)).1.flatMap Frame.delivery) (some phase)
  | dropped (frames : List Frame) (first : frames <+: (ofStream (streamOf arrivals)).1) :
    Follows limit arrivals (frames.flatMap Frame.delivery) none

variable {limit : Nat} {arrivals : List Arrival} {batches : List Batch} {phase : Option Phase}

theorem follows_opened (limit : Nat) :
    Follows limit [] (View.opened limit).sent (View.opened limit).phase :=
  .examining [] [] {} rfl (Frame.Scanner.resumes_fresh []) rfl

theorem Follows.exists_prefix (follows : Follows limit arrivals batches phase) :
    ∃ frames, frames <+: (ofStream (streamOf arrivals)).1 ∧
      batches = frames.flatMap Frame.delivery := by
  cases follows with
  | waiting rest scanner unfinished short resumes => exact ⟨_, List.prefix_refl _, rfl⟩
  | examining frames buffer scanner stream resumes quiet =>
      refine ⟨frames, ?_, rfl⟩
      rw [stream]
      exact List.prefix_append frames _
  | counting frames frame buffer stream quiet =>
      refine ⟨frames, ?_, rfl⟩
      rw [stream]
      exact List.prefix_append frames _
  | handing frames frame batch buffer one stream quiet =>
      refine ⟨frames, ?_, rfl⟩
      rw [stream]
      exact List.prefix_append frames _
  | ended exit phase ends exits => exact ⟨_, List.prefix_refl _, rfl⟩
  | dropped frames first => exact ⟨frames, first, rfl⟩

theorem Follows.of_exit {exit : Exit} (follows : Follows limit arrivals batches phase)
    (exits : phase.bind Phase.exit? = some exit) :
    batches = (ofStream (streamOf arrivals)).1.flatMap Frame.delivery ∧
      exitAfter limit arrivals = some exit := by
  cases follows with
  | waiting rest scanner unfinished short resumes => cases exits
  | examining frames buffer scanner stream resumes quiet => cases exits
  | counting frames frame buffer stream quiet => cases exits
  | handing frames frame batch buffer one stream quiet => cases exits
  | ended other phase ends found =>
      rw [Option.bind_some, found] at exits
      cases exits
      exact ⟨rfl, ends⟩
  | dropped frames first => cases exits

theorem follows_discarded (follows : Follows limit arrivals batches phase) :
    Follows limit arrivals batches none := by
  obtain ⟨frames, first, rfl⟩ := follows.exists_prefix
  exact .dropped frames first

theorem follows_examined {frames : List Frame} {buffer : Bytes} {scanner : Frame.Scanner}
    (stream : ofStream (streamOf arrivals) =
      (frames ++ (ofStream buffer).1, (ofStream buffer).2))
    (resumes : scanner.Resumes buffer) (quiet : arrivals.getLast?.bind Arrival.exit? = none) :
    Follows limit arrivals (frames.flatMap Frame.delivery)
      (some (Phase.examining ⟨limit, buffer, scanner⟩).next) := by
  have whole : (ofStream buffer).1 = [] → (ofStream (streamOf arrivals)).1 = frames := by
    intro nothing
    rw [stream, nothing, List.append_nil]
  have remainder : (ofStream (streamOf arrivals)).2 = (ofStream buffer).2 := by rw [stream]
  rw [Phase.next]
  have examined := @Connection.examine_eq ⟨limit, buffer, scanner⟩ resumes
  rcases examined with
    ⟨frame, consumed, answer, seen⟩ | ⟨fault, answer, seen⟩ | ⟨after, answer, kept, seen⟩
  · rw [seen]
    rw [Frame.ofStream_of_complete answer] at stream
    exact .counting frames frame _ stream quiet
  · rw [seen]
    have last := Frame.ofStream_of_faulty answer
    rw [← whole (by rw [last])]
    refine .ended (.fault fault) _ ?_ rfl
    rw [exitAfter, remainder, last]
  · rw [seen]
    have last := Frame.ofStream_of_incomplete answer
    rw [last] at remainder
    rw [← whole (by rw [last])]
    by_cases long : limit < buffer.length
    · rw [if_pos long]
      exact .ended _ _ (Hub.exitAfter_eq_tooLarge.mpr ⟨buffer, remainder, long⟩) rfl
    · rw [if_neg long]
      exact .waiting buffer after remainder (Nat.le_of_not_lt long) kept

theorem follows_stepped {view : View} (follows : Follows limit arrivals view.sent view.phase)
    (id : ConnectionId) :
    Follows limit arrivals (view.step (.stepped id)).sent (view.step (.stepped id)).phase := by
  rcases view with ⟨phase, told, live, sent⟩
  cases follows with
  | waiting rest scanner unfinished short resumes =>
      simp only [View.step, Phase.next, Phase.handed, List.append_nil]
      exact .waiting rest scanner unfinished short resumes
  | examining frames buffer scanner stream resumes quiet =>
      simp only [View.step, Phase.handed, List.append_nil]
      exact follows_examined stream resumes quiet
  | counting frames frame buffer stream quiet =>
      change Follows limit arrivals (frames.flatMap Frame.delivery ++ [])
        (some (Phase.counting frame ⟨limit, buffer, {}⟩).next)
      rw [List.append_nil]
      simp only [Phase.next]
      rcases Hub.delivery_cases frame with ⟨empty, -⟩ | ⟨batch, one, -⟩
      · have same : frames.flatMap Frame.delivery = (frames ++ [frame]).flatMap Frame.delivery := by
          simp [empty]
        rw [empty, same]
        refine .examining (frames ++ [frame]) buffer {} ?_ (Frame.Scanner.resumes_fresh _) quiet
        rw [stream, List.append_assoc]
        rfl
      · rw [one]
        exact .handing frames frame batch buffer one stream quiet
  | handing frames frame batch buffer one stream quiet =>
      change Follows limit arrivals (frames.flatMap Frame.delivery ++ [batch]) _
      have same : frames.flatMap Frame.delivery ++ [batch] =
          (frames ++ [frame]).flatMap Frame.delivery := by
        simp [one]
      rw [same]
      refine .examining (frames ++ [frame]) buffer {} ?_ (Frame.Scanner.resumes_fresh _) quiet
      rw [stream, List.append_assoc]
      rfl
  | ended exit phase ends exits =>
      have nothing : phase.handed = [] := by
        cases phase with
        | handing batch after => cases exits
        | _ => rfl
      have stays : phase.next.exit? = some exit := by
        cases phase with
        | ending other => exact exits
        | leaving other => exact exits
        | gone other => exact exits
        | _ => cases exits
      simp only [View.step, nothing, List.append_nil]
      exact .ended exit phase.next ends stays
  | dropped frames first => exact .dropped frames first

theorem follows_arrived {view : View} (follows : Follows limit arrivals view.sent view.phase)
    (id : ConnectionId) (arrival : Arrival) :
    Follows limit (arrivals ++ view.hears (.arrived id arrival))
      (view.step (.arrived id arrival)).sent (view.step (.arrived id arrival)).phase := by
  rcases view with ⟨phase, told, live, sent⟩
  cases follows with
  | waiting rest scanner unfinished short resumes =>
      simp only [View.hears, View.step, Option.map_some, Phase.meet]
      by_cases deaf : arrival = .close ∧ told = false
      · rw [if_pos deaf, if_pos deaf, List.append_nil]
        exact .waiting rest scanner unfinished short resumes
      · rw [if_neg deaf, if_neg deaf, Connection.take_eq]
        have more : streamOf (arrivals ++ [arrival]) = streamOf arrivals ++ arrival.content := by
          simp [streamOf]
        -- an arrival that ends the connection brings no bytes; any other leads to another look
        cases ends : arrival.exit? with
        | some exit =>
            dsimp only
            rw [Arrival.content_of_exit? ends, List.append_nil] at more
            rw [← more] at unfinished ⊢
            refine .ended exit _ ?_ rfl
            rw [Hub.exitAfter_of_short unfinished short]
            simp [ends]
        | none =>
            dsimp only
            have stream := Frame.ofStream_append (Prod.ext rfl unfinished) arrival.content
            rw [← more] at stream
            refine .examining _ _ _ stream (resumes.append arrival.content) ?_
            simp [ends]
  | examining frames buffer scanner stream resumes quiet =>
      rw [View.hears, List.append_nil]
      exact .examining frames buffer scanner stream resumes quiet
  | counting frames frame buffer stream quiet =>
      rw [View.hears, List.append_nil]
      exact .counting frames frame buffer stream quiet
  | handing frames frame batch buffer one stream quiet =>
      rw [View.hears, List.append_nil]
      exact .handing frames frame batch buffer one stream quiet
  | ended exit phase ends exits =>
      have deaf (batches : List Batch) :
          View.hears ⟨some phase, told, live, batches⟩ (.arrived id arrival) = [] := by
        cases phase with
        | waiting connection => cases exits
        | _ => rfl
      have stays : phase.meet told arrival = phase := by
        cases phase with
        | waiting connection => cases exits
        | _ => rfl
      rw [deaf, List.append_nil]
      simp only [View.step, Option.map_some, stays]
      exact .ended exit phase ends exits
  | dropped frames first =>
      rw [View.hears, List.append_nil]
      exact .dropped frames first

theorem follows_foldl {view : View} (follows : Follows limit arrivals view.sent view.phase)
    {events : List Hub.Event} (calm : ∀ event ∈ events, event.opens = false) :
    Follows limit (arrivals ++ view.heard events) (events.foldl View.step view).sent
      (events.foldl View.step view).phase := by
  induction events generalizing arrivals view with
  | nil =>
      rw [heard, List.append_nil]
      exact follows
  | cons event later ih =>
      have rest : ∀ event ∈ later, event.opens = false := fun other member =>
        calm other (List.mem_cons_of_mem _ member)
      rw [heard, ← List.append_assoc, List.foldl_cons]
      refine ih ?_ rest
      cases event with
      | opened limit => cases calm _ List.mem_cons_self
      | arrived id arrival => exact follows_arrived follows id arrival
      | stepped id =>
          change Follows limit (arrivals ++ []) _ _
          rw [List.append_nil]
          exact follows_stepped follows id
      | closedAll =>
          change Follows limit (arrivals ++ []) _ _
          rw [List.append_nil]
          exact follows
      | discarded id =>
          change Follows limit (arrivals ++ []) _ _
          rw [List.append_nil]
          exact follows_discarded follows

end View

end LogIntake
