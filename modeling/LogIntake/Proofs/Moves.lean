import LogIntake.Listener.Basic
import LogIntake.Proofs.Views

/-!
# Moves of a listener

What an event can do to a listener: nothing, or one move, each with what must hold for it to happen
(`step_cases`). What a listener keeps is shown move by move. A ledger notes beside a run which
identifiers were registered and removed, and which calls and connections got a slot and gave it
back.
-/
set_option autoImplicit false

namespace LogIntake

namespace Admitting

def id? : Admitting → Option ConnectionId
  | .registered id | .starting id | .withdrawing id => some id
  | _ => none

def holds : Admitting → Bool
  | .ready | .accepted | .registered _ | .starting _ | .withdrawing _ | .releasing _ => true
  | _ => false

end Admitting

namespace Listener

inductive Move (listener : Listener) : Event → Listener → Prop where
  | call :
    Move listener .call { listener with admitting := listener.admitting ++ [.entering] }
  | look {call : Nat} (found : listener.admitting[call]? = some .entering) :
    Move listener (.proceed call)
      (listener.setAdmitting call (if listener.present then .seeking else .done .stopped))
  | take {call free : Nat} (found : listener.admitting[call]? = some .seeking)
      (slots : listener.free = free + 1) :
    Move listener (.proceed call) ({ listener with free }.setAdmitting call .ready)
  | register {call : Nat} (found : listener.admitting[call]? = some .accepted) :
    Move listener (.proceed call)
      ({ listener with hub := listener.hub.register.2 }.setAdmitting call
        (.registered listener.hub.registry.next))
  | check {call : Nat} {id : ConnectionId}
      (found : listener.admitting[call]? = some (.registered id)) :
    Move listener (.proceed call)
      (listener.setAdmitting call (if listener.stopped then .withdrawing id else .starting id))
  | start {call : Nat} {id : ConnectionId}
      (found : listener.admitting[call]? = some (.starting id)) :
    Move listener (.proceed call)
      ({ listener with
          hub := listener.hub.start id listener.limit
          holders := listener.holders ++ [id] }.setAdmitting call (.done .admitted))
  | withdraw {call : Nat} {id : ConnectionId}
      (found : listener.admitting[call]? = some (.withdrawing id)) :
    Move listener (.proceed call)
      ({ listener with hub := listener.hub.deregister id }.setAdmitting call (.releasing .stopped))
  | giveBack {call : Nat} {result : Admission}
      (found : listener.admitting[call]? = some (.releasing result)) :
    Move listener (.proceed call)
      ({ listener with free := listener.free + 1 }.setAdmitting call (.done result))
  | accept {call : Nat} (found : listener.admitting[call]? = some .ready) :
    Move listener (.connect call) (listener.setAdmitting call .accepted)
  | fail {call : Nat} (found : listener.admitting[call]? = some .ready)
      (cause : Transport.Failure) :
    Move listener (.fail call cause) (listener.setAdmitting call (.releasing (.failed cause)))
  | leave {call : Nat} (found : listener.admitting[call]? = some .seeking)
      (stopped : listener.stopped = true) :
    Move listener (.notice call) (listener.setAdmitting call (.done .stopped))
  | giveUp {call : Nat} (found : listener.admitting[call]? = some .ready)
      (stopped : listener.stopped = true) :
    Move listener (.notice call) (listener.setAdmitting call (.releasing .stopped))
  | shut : Move listener .shut { listener with closing := listener.closing ++ [.entering] }
  | takeAway {call : Nat} (found : listener.closing[call]? = some .entering)
      (present : listener.present = true) :
    Move listener (.shutProceed call) ({ listener with present := false }.setClosing call .stopping)
  | refuse {call : Nat} (found : listener.closing[call]? = some .entering)
      (absent : listener.present = false) :
    Move listener (.shutProceed call)
      (listener.setClosing call (.done (.error .alreadyClosed)))
  | stop {call : Nat} (found : listener.closing[call]? = some .stopping) :
    Move listener (.shutProceed call) ({ listener with stopped := true }.setClosing call .telling)
  | tell {call : Nat} (found : listener.closing[call]? = some .telling) :
    Move listener (.shutProceed call)
      ({ listener with hub := listener.hub.closeAll }.setClosing call .dropping)
  | drop {call : Nat} (found : listener.closing[call]? = some .dropping) :
    Move listener (.shutProceed call) (listener.setClosing call (.done (.ok ())))
  | arrive (id : ConnectionId) (arrival : Arrival) :
    Move listener (.arrive id arrival)
      { listener with hub := listener.hub.step (.arrived id arrival) }
  | work (id : ConnectionId) :
    Move listener (.work id) { listener with hub := listener.hub.step (.stepped id) }
  | release {id : ConnectionId} {exit : Exit} (gone : listener.hub.phase? id = some (.gone exit))
      (held : id ∈ listener.holders) :
    Move listener (.release id)
      { listener with holders := listener.holders.erase id, free := listener.free + 1 }

/-- What was done in a run. -/
structure Ledger where
  registered : List ConnectionId := []
  /-- The connections that were taken off the registry by the call that registered them. -/
  withdrawn : List ConnectionId := []
  /-- The connections that left the registry when they ended. -/
  left : List ConnectionId := []
  taken : List Nat := []
  returned : List Nat := []
  /-- The calls that started a connection and left it their slot. -/
  started : List (Nat × ConnectionId) := []
  released : List ConnectionId := []

def Ledger.note (ledger : Ledger) (listener : Listener) : Event → Ledger
  | .proceed call =>
    match listener.admitting[call]? with
    | some .seeking =>
      if listener.free = 0 then ledger else { ledger with taken := ledger.taken ++ [call] }
    | some .accepted =>
      { ledger with registered := ledger.registered ++ [listener.hub.registry.next] }
    | some (.starting id) => { ledger with started := ledger.started ++ [(call, id)] }
    | some (.withdrawing id) => { ledger with withdrawn := ledger.withdrawn ++ [id] }
    | some (.releasing _) => { ledger with returned := ledger.returned ++ [call] }
    | _ => ledger
  | .work id =>
    match listener.hub.phase? id with
    | some (.leaving _) => { ledger with left := ledger.left ++ [id] }
    | _ => ledger
  | .release id =>
    match listener.hub.phase? id with
    | some (.gone _) =>
      if id ∈ listener.holders then { ledger with released := ledger.released ++ [id] } else ledger
    | _ => ledger
  | _ => ledger

def record (listener : Listener) (ledger : Ledger) : List Event → Ledger
  | [] => ledger
  | event :: later => record (listener.step event) (ledger.note listener event) later

variable {listener : Listener}

theorem setClosing_of_found {call : Nat} {state : Closing}
    (found : listener.closing[call]? = some state) :
    listener.setClosing call state = listener := by
  obtain ⟨inside, here⟩ := List.getElem?_eq_some_iff.mp found
  rw [setClosing, ← here, List.set_getElem_self]

theorem note_look {ledger : Ledger} {call : Nat}
    (found : listener.admitting[call]? = some .entering) :
    ledger.note listener (.proceed call) = ledger := by
  simp only [Ledger.note, found]

theorem note_take {ledger : Ledger} {call : Nat}
    (found : listener.admitting[call]? = some .seeking) (some : listener.free ≠ 0) :
    ledger.note listener (.proceed call) = { ledger with taken := ledger.taken ++ [call] } := by
  simp only [Ledger.note, found, if_neg some]

theorem note_register {ledger : Ledger} {call : Nat}
    (found : listener.admitting[call]? = some .accepted) :
    ledger.note listener (.proceed call) =
      { ledger with registered := ledger.registered ++ [listener.hub.registry.next] } := by
  simp only [Ledger.note, found]

theorem note_check {ledger : Ledger} {call : Nat} {id : ConnectionId}
    (found : listener.admitting[call]? = some (.registered id)) :
    ledger.note listener (.proceed call) = ledger := by
  simp only [Ledger.note, found]

theorem note_start {ledger : Ledger} {call : Nat} {id : ConnectionId}
    (found : listener.admitting[call]? = some (.starting id)) :
    ledger.note listener (.proceed call) =
      { ledger with started := ledger.started ++ [(call, id)] } := by
  simp only [Ledger.note, found]

theorem note_withdraw {ledger : Ledger} {call : Nat} {id : ConnectionId}
    (found : listener.admitting[call]? = some (.withdrawing id)) :
    ledger.note listener (.proceed call) =
      { ledger with withdrawn := ledger.withdrawn ++ [id] } := by
  simp only [Ledger.note, found]

theorem note_giveBack {ledger : Ledger} {call : Nat} {result : Admission}
    (found : listener.admitting[call]? = some (.releasing result)) :
    ledger.note listener (.proceed call) =
      { ledger with returned := ledger.returned ++ [call] } := by
  simp only [Ledger.note, found]

theorem note_release {ledger : Ledger} {id : ConnectionId} {exit : Exit}
    (gone : listener.hub.phase? id = some (.gone exit)) (held : id ∈ listener.holders) :
    ledger.note listener (.release id) =
      { ledger with released := ledger.released ++ [id] } := by
  simp only [Ledger.note, gone, if_pos held]

theorem step_proceed_cases (listener : Listener) (call : Nat) :
    (listener.step (.proceed call) = listener ∧
      ∀ ledger : Ledger, ledger.note listener (.proceed call) = ledger) ∨
    Move listener (.proceed call) (listener.step (.proceed call)) := by
  cases found : listener.admitting[call]? with
  | none =>
      left
      simp [step, Ledger.note, found]
  | some state =>
      cases state with
      | entering =>
          right
          rw [step, found]
          exact .look found
      | seeking =>
          cases slots : listener.free with
          | zero =>
              left
              simp [step, Ledger.note, found, proceed?, slots]
          | succ free =>
              right
              rw [step, found, Option.bind_some, proceed?, slots]
              exact .take found slots
      | ready =>
          left
          simp [step, Ledger.note, found, proceed?]
      | accepted =>
          right
          rw [step, found]
          exact .register found
      | registered id =>
          right
          rw [step, found]
          exact .check found
      | starting id =>
          right
          rw [step, found]
          exact .start found
      | withdrawing id =>
          right
          rw [step, found]
          exact .withdraw found
      | releasing result =>
          right
          rw [step, found]
          exact .giveBack found
      | done result =>
          left
          simp [step, Ledger.note, found, proceed?]

theorem step_shutProceed_cases (listener : Listener) (call : Nat) :
    listener.step (.shutProceed call) = listener ∨
    Move listener (.shutProceed call) (listener.step (.shutProceed call)) := by
  rw [step]
  cases found : listener.closing[call]? with
  | none => exact .inl rfl
  | some state =>
      cases state with
      | entering =>
          cases present : listener.present with
          | false =>
              right
              simp only [shutProceed, present]
              exact .refuse found present
          | true =>
              right
              simp only [shutProceed, present]
              exact .takeAway found present
      | stopping => exact .inr (.stop found)
      | telling => exact .inr (.tell found)
      | dropping => exact .inr (.drop found)
      | done result => exact .inl (setClosing_of_found found)

/-- An event does nothing, and is not noted, or it is a move. -/
theorem step_cases (listener : Listener) (event : Event) :
    (listener.step event = listener ∧ ∀ ledger : Ledger, ledger.note listener event = ledger) ∨
    Move listener event (listener.step event) := by
  cases event with
  | call => exact .inr .call
  | proceed call => exact step_proceed_cases listener call
  | connect call =>
      rw [step]
      split
      · next found => exact .inr (.accept found)
      · exact .inl ⟨rfl, fun ledger => rfl⟩
  | fail call cause =>
      rw [step]
      split
      · next found => exact .inr (.fail found cause)
      · exact .inl ⟨rfl, fun ledger => rfl⟩
  | notice call =>
      rw [step]
      split
      · next notices stopped =>
        obtain ⟨present, found, notices⟩ := Option.bind_eq_some_iff.mp notices
        right
        cases present with
        | seeking =>
            cases notices
            exact .leave found stopped
        | ready =>
            cases notices
            exact .giveUp found stopped
        | _ => cases notices
      · exact .inl ⟨rfl, fun ledger => rfl⟩
  | shut => exact .inr .shut
  | shutProceed call =>
      rcases step_shutProceed_cases listener call with idle | move
      · exact .inl ⟨idle, fun ledger => rfl⟩
      · exact .inr move
  | arrive id arrival => exact .inr (.arrive id arrival)
  | work id => exact .inr (.work id)
  | release id =>
      rw [step]
      split
      · next exit gone =>
        by_cases held : id ∈ listener.holders
        · rw [if_pos held]
          exact .inr (.release gone held)
        · rw [if_neg held]
          refine .inl ⟨rfl, fun ledger => ?_⟩
          simp only [Ledger.note, gone, if_neg held]
      · next other =>
        refine .inl ⟨rfl, fun ledger => ?_⟩
        rw [Ledger.note]
        split
        · next exit gone => exact absurd gone (other exit)
        · rfl

end Listener

end LogIntake
