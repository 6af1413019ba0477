import LogIntake.Proofs.Moves

/-!
# Taking a listener

One call to shut down takes the listener away, the first that finds it (`Untaken.first`), and goes
on to stop it and to tell the registered connections. All others are refused, and change nothing but
their own answer (`Taken`).
-/
set_option autoImplicit false

namespace LogIntake

/-- Where a call to shut down is that took the listener, after this many further steps. -/
def Closing.progress : Nat → Closing
  | 0 => .stopping
  | 1 => .telling
  | 2 => .dropping
  | _ => .done (.ok ())

namespace Listener

variable {listener next : Listener} {event : Event} {call other : Nat}

def Event.shuts (call : Nat) : Event → Bool
  | .shutProceed other => other = call
  | _ => false

theorem Move.keeps_closing (move : Move listener event next)
    (foreign : ∀ call, event ≠ .shutProceed call) :
    next.present = listener.present ∧
      (next.closing = listener.closing ∨ next.closing = listener.closing ++ [.entering]) := by
  cases move with
  | shut => exact ⟨rfl, .inr rfl⟩
  | takeAway found present => exact absurd rfl (foreign _)
  | refuse found absent => exact absurd rfl (foreign _)
  | stop found => exact absurd rfl (foreign _)
  | tell found => exact absurd rfl (foreign _)
  | drop found => exact absurd rfl (foreign _)
  | _ => exact ⟨rfl, .inl rfl⟩

theorem getElem?_of_grown {before after : List Closing} {state : Closing}
    (grown : after = before ∨ after = before ++ [.entering]) (found : before[call]? = some state) :
    after[call]? = some state := by
  rcases grown with rfl | rfl
  · exact found
  · obtain ⟨inside, -⟩ := List.getElem?_eq_some_iff.mp found
    rw [List.getElem?_append_left inside]
    exact found

theorem old_of_grown {before after : List Closing} {state : Closing}
    (grown : after = before ∨ after = before ++ [.entering]) (found : after[call]? = some state) :
    before[call]? = some state ∨ state = .entering := by
  rcases grown with rfl | rfl
  · exact .inl found
  · by_cases inside : call < before.length
    · rw [List.getElem?_append_left inside] at found
      exact .inl found
    · rw [List.getElem?_append_right (Nat.le_of_not_lt inside), List.getElem?_singleton] at found
      split at found
      · exact .inr (Option.some_inj.mp found).symm
      · cases found

theorem old_of_set {before : List Closing} {new state : Closing}
    (found : (before.set call new)[other]? = some state) :
    before[other]? = some state ∨ state = new := by
  rw [List.getElem?_set] at found
  split at found
  · split at found
    · exact .inr (Option.some_inj.mp found).symm
    · cases found
  · exact .inl found

structure Untaken (listener : Listener) : Prop where
  present : listener.present = true
  calls : ∀ (call : Nat) (state : Closing), listener.closing[call]? = some state → state = .entering

theorem untaken_start (capacity limit : Nat) : Untaken { capacity, limit } := by
  refine ⟨rfl, ?_⟩
  intro call state found
  cases found

/-- Whether a call to shut down took the listener and has taken this many steps since. All others
have not begun or were refused. -/
structure Taken (first steps : Nat) (listener : Listener) : Prop where
  absent : listener.present = false
  winner : listener.closing[first]? = some (Closing.progress steps)
  others : ∀ (call : Nat) (state : Closing), call ≠ first → listener.closing[call]? = some state →
    state = .entering ∨ state = .done (.error .alreadyClosed)

theorem Untaken.step (untaken : Untaken listener) (event : Event) :
    Untaken (listener.step event) ∨
      ∃ call, event = .shutProceed call ∧ listener.closing[call]? = some .entering ∧
        Taken call 0 (listener.step event) := by
  by_cases foreign : ∀ call, event ≠ .shutProceed call
  · left
    rcases step_cases listener event with ⟨idle, -⟩ | move
    · rw [idle]
      exact untaken
    · obtain ⟨present, grown⟩ := move.keeps_closing foreign
      refine ⟨present.trans untaken.present, ?_⟩
      intro call state found
      rcases old_of_grown grown found with old | new
      · exact untaken.calls call state old
      · exact new
  · push Not at foreign
    obtain ⟨call, rfl⟩ := foreign
    cases found : listener.closing[call]? with
    | none =>
        left
        rw [Listener.step, found]
        exact untaken
    | some state =>
        right
        obtain rfl := untaken.calls call state found
        obtain ⟨inside, -⟩ := List.getElem?_eq_some_iff.mp found
        refine ⟨call, rfl, found, ?_⟩
        rw [Listener.step, found]
        simp only [shutProceed, untaken.present]
        refine ⟨rfl, List.getElem?_set_self inside, ?_⟩
        intro other state different there
        have before : listener.closing[other]? = some state := by
          rw [← there]
          exact (List.getElem?_set_ne (Ne.symm different)).symm
        exact .inl (untaken.calls other state before)

theorem step_refused (found : listener.closing[call]? = some .entering)
    (absent : listener.present = false) :
    listener.step (.shutProceed call) =
      listener.setClosing call (.done (.error .alreadyClosed)) := by
  rw [step, found]
  simp only [shutProceed, absent]
  rfl

theorem step_progress {steps : Nat}
    (found : listener.closing[call]? = some (Closing.progress steps)) :
    (listener.step (.shutProceed call)).present = listener.present ∧
      (listener.step (.shutProceed call)).closing =
        listener.closing.set call (Closing.progress (steps + 1)) := by
  rw [step, found]
  rcases steps with _ | _ | _ | steps
  · exact ⟨rfl, rfl⟩
  · exact ⟨rfl, rfl⟩
  · exact ⟨rfl, rfl⟩
  · exact ⟨rfl, rfl⟩

/-- Every other call is refused when it begins, and makes no step after that. -/
theorem Taken.refused {first steps : Nat} (taken : Taken first steps listener)
    (different : call ≠ first) :
    (listener.closing[call]? = some .entering → listener.step (.shutProceed call) =
      listener.setClosing call (.done (.error .alreadyClosed))) ∧
    (listener.closing[call]? ≠ some .entering → listener.step (.shutProceed call) = listener) := by
  refine ⟨fun found => step_refused found taken.absent, ?_⟩
  intro begun
  cases found : listener.closing[call]? with
  | none => rw [step, found]
  | some state =>
      rcases taken.others call state different found with rfl | rfl
      · exact absurd found begun
      · rw [step, found]
        obtain ⟨inside, there⟩ := List.getElem?_eq_some_iff.mp found
        change listener.setClosing call (.done (.error .alreadyClosed)) = listener
        rw [setClosing, ← there, List.set_getElem_self]

theorem Taken.step {first steps : Nat} (taken : Taken first steps listener) (event : Event) :
    Taken first (steps + [event].countP (Event.shuts first)) (listener.step event) := by
  by_cases foreign : ∀ call, event ≠ .shutProceed call
  · have none : [event].countP (Event.shuts first) = 0 := by
      cases event with
      | shutProceed call => exact absurd rfl (foreign call)
      | _ => rfl
    rw [none]
    rcases step_cases listener event with ⟨idle, -⟩ | move
    · rw [idle]
      exact taken
    · obtain ⟨present, grown⟩ := move.keeps_closing foreign
      refine ⟨present.trans taken.absent, getElem?_of_grown grown taken.winner, ?_⟩
      intro call state different found
      rcases old_of_grown grown found with old | new
      · exact taken.others call state different old
      · exact .inl new
  · push Not at foreign
    obtain ⟨call, rfl⟩ := foreign
    by_cases own : call = first
    · subst own
      have once : [Event.shutProceed call].countP (Event.shuts call) = 1 := by simp [Event.shuts]
      obtain ⟨present, closing⟩ := step_progress taken.winner
      obtain ⟨inside, -⟩ := List.getElem?_eq_some_iff.mp taken.winner
      rw [once]
      refine ⟨present.trans taken.absent, ?_, ?_⟩
      · rw [closing, List.getElem?_set_self inside]
      · intro other state different found
        rw [closing, List.getElem?_set_ne (Ne.symm different)] at found
        exact taken.others other state different found
    · have none : [Event.shutProceed call].countP (Event.shuts first) = 0 := by
        simp [Event.shuts, own]
      rw [none]
      by_cases found : listener.closing[call]? = some .entering
      · rw [(taken.refused own).1 found]
        refine ⟨taken.absent, (List.getElem?_set_ne own).trans taken.winner, ?_⟩
        intro other state different found
        rcases old_of_set found with old | new
        · exact taken.others other state different old
        · exact .inr new
      · rw [(taken.refused own).2 found]
        exact taken

theorem Taken.run {first steps : Nat} (taken : Taken first steps listener) (events : List Event) :
    Taken first (steps + events.countP (Event.shuts first)) (listener.run events) := by
  induction events generalizing listener steps with
  | nil => exact taken
  | cons event later ih =>
      have after := ih (taken.step event)
      rw [Nat.add_assoc, ← List.countP_append] at after
      exact after

theorem Untaken.run (untaken : Untaken listener) (events : List Event) :
    Untaken (listener.run events) ∨
      ∃ before call after, events = before ++ .shutProceed call :: after ∧
        Untaken (listener.run before) ∧
        (listener.run before).closing[call]? = some .entering ∧
        Taken call (after.countP (Event.shuts call)) (listener.run events) := by
  induction events generalizing listener with
  | nil => exact .inl untaken
  | cons event later ih =>
      -- The run is split at the one event after which the listener is gone.
      rcases untaken.step event with still | ⟨call, rfl, found, taken⟩
      · rcases ih still with last | ⟨before, call, after, rfl, there, found, taken⟩
        · exact .inl last
        · exact .inr ⟨event :: before, call, after, rfl, there, found, taken⟩
      · have after := taken.run later
        rw [Nat.zero_add] at after
        exact .inr ⟨[], call, later, rfl, untaken, found, after⟩

theorem run_append (listener : Listener) (events later : List Event) :
    listener.run (events ++ later) = (listener.run events).run later := List.foldl_append

theorem Untaken.of_present (untaken : Untaken listener) {events : List Event}
    (present : (listener.run events).present = true) : Untaken (listener.run events) := by
  rcases untaken.run events with still | ⟨before, call, after, -, -, -, taken⟩
  · exact still
  · rw [taken.absent] at present
    cases present

theorem Untaken.first (untaken : Untaken listener) {before : List Event}
    (present : (listener.run before).present = true)
    (found : (listener.run before).closing[call]? = some .entering) (after : List Event) :
    Taken call (after.countP (Event.shuts call))
      (listener.run (before ++ .shutProceed call :: after)) := by
  rw [run_append]
  rcases (untaken.of_present present).step (.shutProceed call) with still | ⟨other, same, -, taken⟩
  · have absent : ((listener.run before).step (.shutProceed call)).present = false := by
      rw [Listener.step, found]
      simp only [shutProceed, present]
      rfl
    rw [still.present] at absent
    cases absent
  · cases same
    have later := taken.run after
    rw [Nat.zero_add] at later
    exact later

end Listener

end LogIntake
