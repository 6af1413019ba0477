import LogIntake.Proofs.Accounting
import LogIntake.Proofs.Taking

/-!
# Shutdown

A call to admit that begins when the listener was taken answers that it was stopped. From the moment
at which the connections were told, every connection on the registry was told to close or is with a
call that finds the listener stopped and takes it off again (`Covered`). So every connection that
runs was told.
-/
set_option autoImplicit false

namespace LogIntake

namespace Closing

def hasStopped : Closing → Bool
  | .telling | .dropping | .done (.ok ()) => true
  | _ => false

def hasTold : Closing → Bool
  | .dropping | .done (.ok ()) => true
  | _ => false

end Closing

namespace Admitting

/-- Where a call to admit is that begins when the listener was taken, after this many steps. -/
def late : Nat → Admitting
  | 0 => .entering
  | _ => .done .stopped

/-- Where a call to admit is that registered a connection and finds the listener stopped, after this
many further steps. -/
def withdrawal (id : ConnectionId) : Nat → Admitting
  | 0 => .registered id
  | 1 => .withdrawing id
  | 2 => .releasing .stopped
  | _ => .done .stopped

/-- The connection of a call that has not started it, and will not once the listener was stopped.
-/
def undecided? : Admitting → Option ConnectionId
  | .registered id | .withdrawing id => some id
  | _ => none

def waits : Admitting → Bool
  | .seeking | .ready => true
  | _ => false

end Admitting

namespace Listener

variable {listener next : Listener} {event : Event} {call : Nat} {id : ConnectionId}

/-! ## Calls to admit -/

def Event.proceeds (call : Nat) : Event → Bool
  | .proceed other => other = call
  | _ => false

def Event.admits (call : Nat) : Event → Bool
  | .proceed other | .connect other | .fail other _ | .notice other => other = call
  | _ => false

theorem Move.keeps_admitting (move : Move listener event next)
    (inside : call < listener.admitting.length) (foreign : event.admits call = false) :
    next.admitting[call]? = listener.admitting[call]? := by
  have apart {other : Nat} (unlike : decide (other = call) = false) (new : Admitting) :
      (listener.admitting.set other new)[call]? = listener.admitting[call]? :=
    List.getElem?_set_ne (of_decide_eq_false unlike)
  cases move with
  | call => exact List.getElem?_append_left inside
  | look found => exact apart foreign _
  | take found slots => exact apart foreign _
  | register found => exact apart foreign _
  | check found => exact apart foreign _
  | start found => exact apart foreign _
  | withdraw found => exact apart foreign _
  | giveBack found => exact apart foreign _
  | accept found => exact apart foreign _
  | fail found cause => exact apart foreign _
  | leave found stopped => exact apart foreign _
  | giveUp found stopped => exact apart foreign _
  | _ => rfl

theorem step_keeps_admitting (inside : call < listener.admitting.length)
    (foreign : event.admits call = false) :
    (listener.step event).admitting[call]? = listener.admitting[call]? := by
  rcases step_cases listener event with ⟨idle, -⟩ | move
  · rw [idle]
  · exact move.keeps_admitting inside foreign

theorem step_of_not_waits {state : Admitting} (found : listener.admitting[call]? = some state)
    (busy : state.waits = false) (foreign : event.proceeds call = false) :
    (listener.step event).admitting[call]? = some state := by
  obtain ⟨inside, -⟩ := List.getElem?_eq_some_iff.mp found
  cases own : event.admits call with
  | false => rw [step_keeps_admitting inside own, found]
  | true =>
      -- Connections, failures and the notice of a stop concern waiting calls only.
      have idle : listener.step event = listener := by
        cases event with
        | proceed other => cases own.symm.trans foreign
        | connect other =>
            obtain rfl : other = call := by simpa [Event.admits] using own
            rw [step, found]
            cases state with
            | ready => cases busy
            | _ => rfl
        | fail other cause =>
            obtain rfl : other = call := by simpa [Event.admits] using own
            rw [step, found]
            cases state with
            | ready => cases busy
            | _ => rfl
        | notice other =>
            obtain rfl : other = call := by simpa [Event.admits] using own
            rw [step, found]
            cases state with
            | seeking => cases busy
            | ready => cases busy
            | _ => rfl
        | _ => cases own
      rw [idle, found]

/-- A call that does not wait follows its course, as far as its own steps take it. -/
theorem follows_course {course : Nat → Admitting} {holds : Listener → Prop}
    (busy : ∀ steps, (course steps).waits = false)
    (kept : ∀ listener event, holds listener → holds (listener.step event))
    (goes : ∀ (listener : Listener) (steps : Nat), holds listener →
      listener.admitting[call]? = some (course steps) →
      (listener.step (.proceed call)).admitting[call]? = some (course (steps + 1)))
    {steps : Nat} (held : holds listener)
    (found : listener.admitting[call]? = some (course steps)) (events : List Event) :
    (listener.run events).admitting[call]? =
      some (course (steps + events.countP (Event.proceeds call))) := by
  induction events generalizing listener steps with
  | nil => exact found
  | cons event later ih =>
      have held' := kept listener event held
      cases own : event.proceeds call with
      | false =>
          have still := step_of_not_waits found (busy steps) own
          rw [List.countP_cons_of_neg (by simp [own])]
          exact ih held' still
      | true =>
          cases event with
          | proceed other =>
              obtain rfl : other = call := of_decide_eq_true own
              have further := ih held' (goes listener steps held found)
              rw [List.countP_cons_of_pos own, Nat.add_comm _ 1, ← Nat.add_assoc]
              exact further
          | _ => cases own

theorem Move.keeps_absent (move : Move listener event next) (absent : listener.present = false) :
    next.present = false := by
  cases move with
  | takeAway found present => rfl
  | _ => exact absent

theorem Move.keeps_stopped (move : Move listener event next) (stopped : listener.stopped = true) :
    next.stopped = true := by
  cases move with
  | stop found => rfl
  | _ => exact stopped

theorem absent_step (listener : Listener) (event : Event) (absent : listener.present = false) :
    (listener.step event).present = false := by
  rcases step_cases listener event with ⟨idle, -⟩ | move
  · rw [idle, absent]
  · exact move.keeps_absent absent

theorem stopped_step (listener : Listener) (event : Event) (stopped : listener.stopped = true) :
    (listener.step event).stopped = true := by
  rcases step_cases listener event with ⟨idle, -⟩ | move
  · rw [idle, stopped]
  · exact move.keeps_stopped stopped

theorem step_late (found : listener.admitting[call]? = some .entering)
    (absent : listener.present = false) :
    listener.step (.proceed call) = listener.setAdmitting call (.done .stopped) := by
  rw [step, found, Option.bind_some, proceed?, absent]
  rfl

theorem late_run (absent : listener.present = false)
    (found : listener.admitting[call]? = some .entering) (events : List Event) :
    (listener.run events).admitting[call]? =
      some (Admitting.late (events.countP (Event.proceeds call))) := by
  have goes (listener : Listener) (steps : Nat) (absent : listener.present = false)
      (found : listener.admitting[call]? = some (Admitting.late steps)) :
      (listener.step (.proceed call)).admitting[call]? = some (Admitting.late (steps + 1)) := by
    obtain ⟨inside, -⟩ := List.getElem?_eq_some_iff.mp found
    cases steps with
    | zero =>
        rw [step_late found absent]
        exact List.getElem?_set_self inside
    | succ steps =>
        rw [step, found]
        exact found
  have busy (steps : Nat) : (Admitting.late steps).waits = false := by
    cases steps with
    | zero => rfl
    | succ steps => rfl
  have start : listener.admitting[call]? = some (Admitting.late 0) := found
  have course := follows_course busy absent_step goes absent start events
  rw [Nat.zero_add] at course
  exact course

theorem withdrawal_run {steps : Nat} (stopped : listener.stopped = true)
    (found : listener.admitting[call]? = some (Admitting.withdrawal id steps))
    (events : List Event) :
    (listener.run events).admitting[call]? =
      some (Admitting.withdrawal id (steps + events.countP (Event.proceeds call))) := by
  have goes (listener : Listener) (steps : Nat) (stopped : listener.stopped = true)
      (found : listener.admitting[call]? = some (Admitting.withdrawal id steps)) :
      (listener.step (.proceed call)).admitting[call]? =
        some (Admitting.withdrawal id (steps + 1)) := by
    obtain ⟨inside, -⟩ := List.getElem?_eq_some_iff.mp found
    rw [step, found]
    rcases steps with _ | _ | _ | steps
    · simp only [Admitting.withdrawal, Option.bind_some, proceed?, stopped]
      exact List.getElem?_set_self inside
    · exact List.getElem?_set_self inside
    · exact List.getElem?_set_self inside
    · exact found
  have busy (steps : Nat) : (Admitting.withdrawal id steps).waits = false := by
    rcases steps with _ | _ | _ | steps
    · rfl
    · rfl
    · rfl
    · rfl
  exact follows_course busy stopped_step goes stopped found events

/-! ## Connections after the shutdown -/

def Stopping (listener : Listener) : Prop :=
  ∃ state ∈ listener.closing, state.hasStopped = true

def Told (listener : Listener) : Prop := ∃ state ∈ listener.closing, state.hasTold = true

/-- Whether some call registered the connection and neither started it nor took it off again, nor
will start it once the listener was stopped. -/
def Undecided (listener : Listener) (id : ConnectionId) : Prop :=
  ∃ state ∈ listener.admitting, state.undecided? = some id

/-- Whether a shutdown misses no connection. -/
structure Covered (listener : Listener) : Prop where
  distinct : listener.hub.registry.Distinct
  stopped : listener.Stopping → listener.stopped = true
  told : listener.Told → ∀ id ∈ listener.hub.registry.live,
    listener.hub.registry.isSignalled id = true ∨ listener.Undecided id

theorem covered_start (capacity limit : Nat) : Covered { capacity, limit } := by
  refine ⟨⟨List.nodup_nil, List.nodup_nil⟩, ?_, ?_⟩
  · rintro ⟨state, member, -⟩
    cases member
  · rintro - id member
    cases member

theorem stopping_of_told (told : listener.Told) : listener.Stopping := by
  obtain ⟨state, member, tells⟩ := told
  refine ⟨state, member, ?_⟩
  cases state with
  | dropping => rfl
  | done result =>
      cases result with
      | ok => rfl
      | error cause => cases tells
  | _ => cases tells

namespace Covered

/-- Nothing is missed where nothing new is on the registry and nothing is forgotten. -/
theorem of_fewer (covered : Covered listener) (distinct : next.hub.registry.Distinct)
    (stopped : next.Stopping → next.stopped = true) (told : next.Told → listener.Told)
    (live : ∀ id ∈ next.hub.registry.live, id ∈ listener.hub.registry.live)
    (signalled : next.hub.registry.signalled = listener.hub.registry.signalled)
    (undecided : listener.stopped = true → ∀ id ∈ next.hub.registry.live,
      listener.Undecided id → next.Undecided id) : Covered next := by
  refine ⟨distinct, stopped, ?_⟩
  intro after id member
  have before := told after
  have halted := covered.stopped (stopping_of_told before)
  rcases covered.told before id (live id member) with close | waits
  · left
    rw [Registry.isSignalled, signalled]
    exact close
  · exact .inr (undecided halted id member waits)

theorem of_admitting (covered : Covered listener) {old new : Admitting}
    (found : listener.admitting[call]? = some old)
    (admitting : next.admitting = listener.admitting.set call new)
    (registry : next.hub.registry = listener.hub.registry)
    (closing : next.closing = listener.closing) (stopped : next.stopped = listener.stopped)
    (kept : listener.stopped = true → ∀ id, old.undecided? = some id → new.undecided? = some id) :
    Covered next := by
  apply covered.of_fewer
  · rw [registry]
    exact covered.distinct
  · rw [Stopping, closing, stopped]
    exact covered.stopped
  · rw [Told, closing]
    exact id
  · rw [registry]
    exact fun _ => id
  · rw [registry]
  · intro halted id _ undecided
    rw [Undecided, admitting]
    exact exists_mem_set found (kept halted id) undecided

theorem of_closing (covered : Covered listener) {new : Closing}
    (closing : next.closing = listener.closing.set call new)
    (registry : next.hub.registry = listener.hub.registry)
    (admitting : next.admitting = listener.admitting)
    (stopped : listener.stopped = true ∨ new.hasStopped = true → next.stopped = true)
    (told : new.hasTold = true → listener.Told) : Covered next := by
  apply covered.of_fewer
  · rw [registry]
    exact covered.distinct
  · rintro ⟨state, member, stops⟩
    rw [closing] at member
    rcases List.mem_or_eq_of_mem_set member with old | rfl
    · exact stopped (.inl (covered.stopped ⟨state, old, stops⟩))
    · exact stopped (.inr stops)
  · rintro ⟨state, member, tells⟩
    rw [closing] at member
    rcases List.mem_or_eq_of_mem_set member with old | rfl
    · exact ⟨state, old, tells⟩
    · exact told tells
  · rw [registry]
    exact fun _ => id
  · rw [registry]
  · intro _ id _
    rw [Undecided, Undecided, admitting]
    exact fun undecided => undecided

theorem register (covered : Covered listener) (found : listener.admitting[call]? = some .accepted) :
    Covered ({ listener with hub := listener.hub.register.2 }.setAdmitting call
      (.registered listener.hub.registry.next)) := by
  refine ⟨Registry.distinct_register covered.distinct, covered.stopped, ?_⟩
  intro told id member
  obtain ⟨inside, -⟩ := List.getElem?_eq_some_iff.mp found
  by_cases own : id = listener.hub.registry.next
  -- Nobody tells a connection that comes late; its call has yet to look whether it may start it.
  · right
    subst own
    exact ⟨_, List.mem_set inside _, rfl⟩
  · have old : id ∈ listener.hub.registry.live :=
      (Registry.mem_live_register.mp member).resolve_right own
    rcases covered.told told id old with signalled | undecided
    · exact .inl ((Registry.isSignalled_register_of_ne own).trans signalled)
    · exact .inr (exists_mem_set found nofun undecided)

theorem withdraw (covered : Covered listener)
    (found : listener.admitting[call]? = some (.withdrawing id)) :
    Covered ({ listener with hub := listener.hub.deregister id }.setAdmitting call
      (.releasing .stopped)) := by
  apply covered.of_fewer
  · exact Registry.distinct_deregister covered.distinct id
  · exact covered.stopped
  · exact fun told => told
  · intro other member
    exact ((Registry.mem_live_deregister covered.distinct).mp member).2
  · rfl
  · intro _ other member undecided
    have different := ((Registry.mem_live_deregister covered.distinct).mp member).1
    refine exists_mem_set found ?_ undecided
    intro same
    exact absurd (Option.some_inj.mp same).symm different

theorem tell (covered : Covered listener) (found : listener.closing[call]? = some .telling) :
    Covered ({ listener with hub := listener.hub.closeAll }.setClosing call .dropping) := by
  have stopping : listener.Stopping := ⟨.telling, List.mem_of_getElem? found, rfl⟩
  refine ⟨Registry.distinct_closeAll covered.distinct, fun _ => covered.stopped stopping, ?_⟩
  intro _ id member
  have here : id ∈ listener.hub.registry.live := member
  left
  rw [setClosing, Hub.closeAll, Registry.isSignalled_closeAll, decide_eq_true here, Bool.or_true]

theorem work (covered : Covered listener) (id : ConnectionId) :
    Covered { listener with hub := listener.hub.step (.stepped id) } := by
  have distinct := Hub.distinct_step covered.distinct (.stepped id)
  cases found : listener.hub.phase? id with
  | none =>
      rw [Hub.step_stepped_of_none found]
      exact covered
  | some phase =>
      have stepped := Hub.step_stepped found
      refine covered.of_fewer distinct covered.stopped (fun told => told) ?_ ?_ ?_
      · intro other member
        rw [stepped] at member
        dsimp only at member
        split at member
        · exact List.mem_of_mem_erase member
        · exact member
      · rw [stepped]
        dsimp only
        split
        · rfl
        · rfl
      · exact fun _ _ _ undecided => undecided

theorem move (covered : Covered listener) (move : Move listener event next) : Covered next := by
  cases move with
  | call =>
      refine covered.of_fewer covered.distinct covered.stopped (fun told => told)
        (fun _ member => member) rfl ?_
      rintro - id - ⟨state, there, has⟩
      exact ⟨state, List.mem_append_left _ there, has⟩
  | look found => exact covered.of_admitting found rfl rfl rfl rfl nofun
  | take found slots => exact covered.of_admitting found rfl rfl rfl rfl nofun
  | register found => exact covered.register found
  | check found =>
      refine covered.of_admitting found rfl rfl rfl rfl ?_
      intro stopped id has
      rw [stopped]
      exact has
  | start found => exact covered.of_admitting found rfl rfl rfl rfl nofun
  | withdraw found => exact covered.withdraw found
  | giveBack found => exact covered.of_admitting found rfl rfl rfl rfl nofun
  | accept found => exact covered.of_admitting found rfl rfl rfl rfl nofun
  | fail found cause => exact covered.of_admitting found rfl rfl rfl rfl nofun
  | leave found stopped => exact covered.of_admitting found rfl rfl rfl rfl nofun
  | giveUp found stopped => exact covered.of_admitting found rfl rfl rfl rfl nofun
  | shut =>
      have old {state : Closing} (member : state ∈ listener.closing ++ [.entering])
          (begun : state ≠ .entering) : state ∈ listener.closing := by
        rcases List.mem_append.mp member with old | new
        · exact old
        · exact absurd (List.mem_singleton.mp new) begun
      refine covered.of_fewer covered.distinct ?_ ?_ (fun _ member => member) rfl
        (fun _ _ _ undecided => undecided)
      · rintro ⟨state, member, stops⟩
        exact covered.stopped ⟨state, old member (by rintro rfl; cases stops), stops⟩
      · rintro ⟨state, member, tells⟩
        exact ⟨state, old member (by rintro rfl; cases tells), tells⟩
  | takeAway found present =>
      exact covered.of_closing rfl rfl rfl (fun stops => stops.resolve_right nofun) nofun
  | refuse found absent =>
      exact covered.of_closing rfl rfl rfl (fun stops => stops.resolve_right nofun) nofun
  | stop found => exact covered.of_closing rfl rfl rfl (fun _ => rfl) nofun
  | tell found => exact covered.tell found
  | drop found =>
      have told : listener.Told := ⟨.dropping, List.mem_of_getElem? found, rfl⟩
      refine covered.of_closing rfl rfl rfl ?_ fun _ => told
      rintro -
      exact covered.stopped (stopping_of_told told)
  | arrive id arrival => exact ⟨covered.distinct, covered.stopped, covered.told⟩
  | work id => exact covered.work id
  | release gone held => exact ⟨covered.distinct, covered.stopped, covered.told⟩

theorem step (covered : Covered listener) (event : Event) : Covered (listener.step event) := by
  rcases step_cases listener event with ⟨idle, -⟩ | move
  · rw [idle]
    exact covered
  · exact covered.move move

theorem run (covered : Covered listener) (events : List Event) : Covered (listener.run events) := by
  induction events generalizing listener with
  | nil => exact covered
  | cons event later ih => exact ih (covered.step event)

end Covered

theorem Undecided.withdraws (undecided : listener.Undecided id)
    (stopped : listener.stopped = true) :
    ∃ call steps, steps < 2 ∧ ∀ later, (listener.run later).admitting[call]? =
      some (Admitting.withdrawal id (steps + later.countP (Event.proceeds call))) := by
  obtain ⟨state, member, has⟩ := undecided
  obtain ⟨call, found⟩ := List.getElem?_of_mem member
  cases state with
  | registered other =>
      cases has
      exact ⟨call, 0, by decide, withdrawal_run stopped found⟩
  | withdrawing other =>
      cases has
      exact ⟨call, 1, by decide, withdrawal_run stopped found⟩
  | _ => cases has

/-- A connection that runs is with no call any more, so it was told. -/
theorem Covered.signalled_of_running {ledger : Ledger} (covered : Covered listener)
    (stages : Stages listener ledger) (told : listener.Told) {phase : Phase}
    (found : listener.hub.phase? id = some phase) (runs : phase.ended = false) :
    listener.hub.registry.isSignalled id = true := by
  have live := (stages.mem_live_iff id).mpr (.inr ⟨phase, found, runs⟩)
  rcases covered.told told id live with signalled | ⟨state, member, has⟩
  · exact signalled
  · obtain ⟨call, there⟩ := List.getElem?_of_mem member
    have same : state.id? = some id := by
      cases state with
      | registered other | withdrawing other => exact has
      | _ => cases has
    have pending := stages.pending_of_found there same
    rw [stages.running_of_phase? found runs] at pending
    cases pending

/-! ## All runs -/

/-- A shutdown misses no connection, however calls and connections interleave. The listener is there
as long as no call to shut down took it. The first that finds it takes it and succeeds; all others
answer that it was closed already and change nothing else. A call to admit that begins when it was
taken answers that it was stopped and does nothing else. Once the connections were told to close,
each one on the registry was told, or is with a call that registered it and takes it off again by
its next steps, whatever else happens; and each one that runs was told, unless identifiers ran out.
-/
theorem shutdown_misses_no_connection (capacity limit : Nat) (events : List Event) :
    let start : Listener := { capacity, limit }
    let listener := start.run events
    (listener.present = true →
      ∀ (call : Nat) (state : Closing), listener.closing[call]? = some state →
        state = .entering) ∧
    (listener.present = false →
      ∃ before call after, events = before ++ .shutProceed call :: after ∧
        (start.run before).present = true ∧
        (start.run before).closing[call]? = some .entering) ∧
    (∀ before call after, events = before ++ .shutProceed call :: after →
      (start.run before).present = true → (start.run before).closing[call]? = some .entering →
      Taken call (after.countP (Event.shuts call)) listener ∧
      ∀ other, other ≠ call →
        (listener.closing[other]? = some .entering → listener.step (.shutProceed other) =
          listener.setClosing other (.done (.error .alreadyClosed))) ∧
        (listener.closing[other]? ≠ some .entering →
          listener.step (.shutProceed other) = listener)) ∧
    (∀ before after, events = before ++ .call :: after → (start.run before).present = false →
      let call := (start.run before).admitting.length
      listener.admitting[call]? =
        some (Admitting.late (after.countP (Event.proceeds call)))) ∧
    (listener.present = false → ∀ call, listener.admitting[call]? = some .entering →
      listener.step (.proceed call) = listener.setAdmitting call (.done .stopped)) ∧
    (listener.Told →
      (∀ id ∈ listener.hub.registry.live,
        listener.hub.registry.isSignalled id = true ∨
        ∃ call steps, steps < 2 ∧ ∀ later, (listener.run later).admitting[call]? =
          some (Admitting.withdrawal id (steps + later.countP (Event.proceeds call)))) ∧
      ((record start {} events).registered.length < UInt64.size →
        ∀ id phase, listener.hub.phase? id = some phase → phase.ended = false →
          listener.hub.registry.isSignalled id = true)) ∧
    ∀ call id, listener.admitting[call]? = some (.withdrawing id) →
      id ∉ (listener.step (.proceed call)).hub.registry.live := by
  intro start listener
  have untaken := untaken_start capacity limit
  have covered : Covered listener := (covered_start capacity limit).run events
  refine ⟨?_, ?_, ?_, ?_, ?_, ?_, ?_⟩
  · intro present
    exact (untaken.of_present present).calls
  · intro absent
    rcases untaken.run events with still | ⟨before, call, after, split, there, found, -⟩
    · have present : listener.present = true := still.present
      rw [absent] at present
      cases present
    · exact ⟨before, call, after, split, there.present, found⟩
  · rintro before call after rfl present found
    have taken := untaken.first present found after
    exact ⟨taken, fun other different => taken.refused different⟩
  · rintro before after rfl absent call
    have found : ((start.run before).step .call).admitting[call]? = some .entering :=
      List.getElem?_concat_length
    have late := late_run (absent_step _ .call absent) found after
    change (start.run (before ++ .call :: after)).admitting[call]? = _
    rw [run_append]
    exact late
  · intro absent call found
    exact step_late found absent
  · intro told
    have stopped := covered.stopped (stopping_of_told told)
    refine ⟨?_, ?_⟩
    · intro id member
      rcases covered.told told id member with signalled | undecided
      · exact .inl signalled
      · exact .inr (undecided.withdraws stopped)
    · intro few id phase
      exact covered.signalled_of_running ((Stages.start_empty capacity limit).run few) told
  · intro call id found member
    rw [step, found] at member
    exact ((Registry.mem_live_deregister covered.distinct).mp member).1 rfl

/-- A connection that comes in while the listener is shut down: it is registered after the others
were told, and its call takes it off again. The connection that ran before was told. -/
theorem connection_during_shutdown_is_withdrawn :
    ∃ events : List Event,
      (({ capacity := 2, limit := 9 } : Listener).run events).Told ∧
      (record { capacity := 2, limit := 9 } {} events).registered.length < UInt64.size ∧
      (({ capacity := 2, limit := 9 } : Listener).run events).hub.registry.isSignalled 1 = true ∧
      ∃ call steps, steps < 2 ∧ ∀ later,
        ((({ capacity := 2, limit := 9 } : Listener).run events).run later).admitting[call]? =
          some (Admitting.withdrawal 2 (steps + later.countP (Event.proceeds call))) := by
  obtain ⟨events, told, few, running, member, untold⟩ : ∃ events : List Event,
      (({ capacity := 2, limit := 9 } : Listener).run events).closing = [.dropping] ∧
      (record { capacity := 2, limit := 9 } {} events).registered.length < UInt64.size ∧
      (({ capacity := 2, limit := 9 } : Listener).run events).hub.phase? 1 =
        some (.examining { limit := 9 }) ∧
      (({ capacity := 2, limit := 9 } : Listener).run events).hub.registry.live = [1, 2] ∧
      (({ capacity := 2, limit := 9 } : Listener).run events).hub.registry.isSignalled 2 =
        false := by
    exact ⟨[.call, .proceed 0, .proceed 0, .connect 0, .proceed 0, .proceed 0, .proceed 0, .call,
      .proceed 1, .proceed 1, .connect 1, .shut, .shutProceed 0, .shutProceed 0, .shutProceed 0,
      .proceed 1], rfl, by decide, rfl, rfl, rfl⟩
  have halted : (({ capacity := 2, limit := 9 } : Listener).run events).Told := by
    refine ⟨.dropping, ?_, rfl⟩
    rw [told]
    exact List.mem_singleton_self _
  obtain ⟨covered, signalled⟩ :=
    (shutdown_misses_no_connection 2 9 events).2.2.2.2.2.1 halted
  refine ⟨events, halted, few, signalled few 1 _ running rfl, ?_⟩
  refine (covered 2 ?_).resolve_left ?_
  · rw [member]
    decide
  · rw [untold]
    decide

end Listener

end LogIntake
