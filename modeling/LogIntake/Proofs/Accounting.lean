import LogIntake.Proofs.Slots

/-!
# Accounting of connections

Every identifier is at one of six stages, from unused to ended with its slot given back, and the
stage says all there is to know about it: how often it was registered, removed, started and
released, and whether it is on the registry (`Stages`). Together with the slots this accounts for
every connection at every moment of a run.
-/
set_option autoImplicit false

namespace LogIntake

namespace Listener

variable {listener next : Listener} {ledger noted : Ledger} {call : Nat} {old new : Admitting}
  {id : ConnectionId}

/-- Where an identifier is: `withdrawn` once the call that registered it gave up, and `ended` while
its connection has left and still holds a slot. -/
inductive Stage where
  | unused
  | pending
  | withdrawn
  | running
  | ended
  | released
  deriving DecidableEq

/-- What there is to know about an identifier: how many calls in progress have it, how often it
stands on the registry and among the connections that hold a slot, whether its connection left, and
how often it was registered, taken off the registry again by its call or its connection, started,
and released. -/
structure Standing where
  pending : Nat
  live : Nat
  holders : Nat
  left? : Option Bool
  registered : Nat
  withdrawn : Nat
  started : Nat
  left : Nat
  released : Nat
  deriving DecidableEq

def pending (listener : Listener) (id : ConnectionId) : Nat :=
  listener.admitting.countP fun state => state.id? = some id

def standing (listener : Listener) (ledger : Ledger) (id : ConnectionId) : Standing where
  pending := listener.pending id
  live := listener.hub.registry.live.count id
  holders := listener.holders.count id
  left? := (listener.hub.phase? id).map Phase.ended
  registered := ledger.registered.count id
  withdrawn := ledger.withdrawn.count id
  started := ledger.starts id
  left := ledger.left.count id
  released := ledger.released.count id

def Stage.standing : Stage → Standing
  | unused => ⟨0, 0, 0, none, 0, 0, 0, 0, 0⟩
  | pending => ⟨1, 1, 0, none, 1, 0, 0, 0, 0⟩
  | withdrawn => ⟨0, 0, 0, none, 1, 1, 0, 0, 0⟩
  | running => ⟨0, 1, 1, some false, 1, 0, 1, 0, 0⟩
  | ended => ⟨0, 0, 1, some true, 1, 0, 1, 1, 0⟩
  | released => ⟨0, 0, 0, some true, 1, 0, 1, 1, 1⟩

/-- How what there is to know about an identifier hangs together. -/
structure Standing.Balanced (standing : Standing) : Prop where
  once : standing.registered ≤ 1
  removed : standing.registered = standing.live + standing.withdrawn + standing.left
  decided : standing.registered = standing.pending + standing.withdrawn + standing.started
  released : standing.started = standing.holders + standing.released
  last : standing.released ≤ standing.left
  left : standing.left = 1 ↔ standing.left? = some true

theorem Stage.balanced (stage : Stage) : stage.standing.Balanced := by
  cases stage with
  | _ => constructor <;> decide

structure Stages (listener : Listener) (ledger : Ledger) : Prop where
  next : listener.hub.registry.next = UInt64.ofNat (ledger.registered.length + 1)
  registered : ledger.registered = Registry.issued ledger.registered.length
  stage : ∀ id, ∃ stage : Stage, listener.standing ledger id = stage.standing

theorem pending_set (found : listener.admitting[call]? = some old)
    (admitting : next.admitting = listener.admitting.set call new) (id : ConnectionId) :
    next.pending id + (decide (old.id? = some id)).toNat =
      listener.pending id + (decide (new.id? = some id)).toNat := by
  rw [pending, pending, admitting]
  exact countP_set_add found new

theorem pending_set_of_iff (found : listener.admitting[call]? = some old)
    (admitting : next.admitting = listener.admitting.set call new)
    (same : new.id? = some id ↔ old.id? = some id) : next.pending id = listener.pending id := by
  have counted := pending_set found admitting id
  simp only [same] at counted
  exact Nat.add_right_cancel counted

theorem pending_set_of_ne {other : ConnectionId} (found : listener.admitting[call]? = some old)
    (admitting : next.admitting = listener.admitting.set call new)
    (before : old.id? = none ∨ old.id? = some other) (after : new.id? = none ∨ new.id? = some other)
    (different : id ≠ other) : next.pending id = listener.pending id := by
  have foreign {state : Option ConnectionId} (known : state = none ∨ state = some other) :
      state ≠ some id := by
    rintro rfl
    rcases known with none | some
    · cases none
    · exact different (Option.some_inj.mp some)
  exact pending_set_of_iff found admitting (iff_of_false (foreign after) (foreign before))

theorem pending_added (found : listener.admitting[call]? = some old)
    (admitting : next.admitting = listener.admitting.set call new) (before : old.id? = none)
    (after : new.id? = some id) : next.pending id = listener.pending id + 1 := by
  have counted := pending_set found admitting id
  rw [before, after, decide_eq_true rfl] at counted
  exact counted

theorem pending_removed (found : listener.admitting[call]? = some old)
    (admitting : next.admitting = listener.admitting.set call new) (before : old.id? = some id)
    (after : new.id? = none) : next.pending id = listener.pending id - 1 := by
  have counted := pending_set found admitting id
  rw [before, after, decide_eq_true rfl] at counted
  exact Nat.eq_sub_of_add_eq counted

namespace Stages

theorem stage_of_eq (stages : Stages listener ledger)
    (same : next.standing noted id = listener.standing ledger id) :
    ∃ stage : Stage, next.standing noted id = stage.standing := by
  rw [same]
  exact stages.stage id

/-- A move that touches neither hub nor holders leaves every identifier where it is. -/
theorem of_pending_eq (stages : Stages listener ledger)
    (same : ∀ id, next.pending id = listener.pending id) (hub : next.hub = listener.hub)
    (holders : next.holders = listener.holders) : Stages next ledger := by
  refine ⟨?_, stages.registered, ?_⟩
  · rw [hub]
    exact stages.next
  · intro id
    rw [standing, same, hub, holders]
    exact stages.stage id

theorem of_set (stages : Stages listener ledger) (found : listener.admitting[call]? = some old)
    (same : new.id? = old.id?) : Stages (listener.setAdmitting call new) ledger :=
  stages.of_pending_eq (fun _ => pending_set_of_iff found rfl (by rw [same])) rfl rfl

theorem unused_of_notMem (stages : Stages listener ledger) (new : id ∉ ledger.registered) :
    listener.standing ledger id = Stage.unused.standing := by
  obtain ⟨stage, here⟩ := stages.stage id
  have registered := congrArg Standing.registered here
  simp only [standing, List.count_eq_zero.mpr new] at registered
  cases stage with
  | unused => exact here
  | _ => cases registered

theorem pending_of_found (stages : Stages listener ledger)
    (found : listener.admitting[call]? = some old) (has : old.id? = some id) :
    listener.standing ledger id = Stage.pending.standing := by
  obtain ⟨stage, here⟩ := stages.stage id
  have pending := congrArg Standing.pending here
  have some : 0 < listener.pending id := by
    rw [Listener.pending, List.countP_pos_iff]
    exact ⟨old, List.mem_of_getElem? found, by simp [has]⟩
  simp only [standing] at pending
  cases stage with
  | pending => exact here
  | _ =>
      simp only [Stage.standing] at pending
      omega

theorem running_of_phase? (stages : Stages listener ledger) {phase : Phase}
    (found : listener.hub.phase? id = some phase) (runs : phase.ended = false) :
    listener.standing ledger id = Stage.running.standing := by
  obtain ⟨stage, here⟩ := stages.stage id
  have left := congrArg Standing.left? here
  simp only [standing, found, Option.map_some, runs] at left
  cases stage with
  | running => exact here
  | _ => cases left

theorem ended_of_held (stages : Stages listener ledger) {phase : Phase}
    (found : listener.hub.phase? id = some phase) (ended : phase.ended = true)
    (member : id ∈ listener.holders) : listener.standing ledger id = Stage.ended.standing := by
  obtain ⟨stage, here⟩ := stages.stage id
  have left := congrArg Standing.left? here
  have holders := congrArg Standing.holders here
  have some := List.count_pos_iff.mpr member
  simp only [standing, found, Option.map_some, ended] at left holders
  cases stage with
  | ended => exact here
  | released =>
      simp only [Stage.standing] at holders
      omega
  | _ => cases left

theorem register (stages : Stages listener ledger)
    (found : listener.admitting[call]? = some .accepted)
    (few : ledger.registered.length + 1 < UInt64.size) :
    Stages
      ({ listener with hub := listener.hub.register.2 }.setAdmitting call
        (.registered listener.hub.registry.next))
      { ledger with registered := ledger.registered ++ [listener.hub.registry.next] } := by
  have new : listener.hub.registry.next ∉ ledger.registered := by
    rw [stages.next, stages.registered, Registry.length_issued]
    exact Registry.notMem_issued few
  refine ⟨?_, ?_, fun id => ?_⟩
  · change listener.hub.registry.next + 1 = _
    rw [stages.next, List.length_append]
    exact (UInt64.ofNat_add _ 1).symm
  · rw [List.length_append, List.length_singleton, Registry.issued_succ, ← stages.registered,
      stages.next]
  · by_cases own : id = listener.hub.registry.next
    -- The identifier is new: it was never registered, so the table leaves one stage for it.
    · subst own
      have was := stages.unused_of_notMem new
      have absent := List.count_eq_zero.mp (congrArg Standing.live was)
      refine ⟨.pending, ?_⟩
      calc
        _ = { listener.standing ledger listener.hub.registry.next with
              pending := (listener.standing ledger listener.hub.registry.next).pending + 1
              live := 1
              registered :=
                (listener.standing ledger listener.hub.registry.next).registered + 1 } := by
          rw [standing, Standing.mk.injEq]
          exact ⟨pending_added found rfl rfl rfl, Registry.count_register_self absent, rfl, rfl,
            Registry.count_append_self _ _, rfl, rfl, rfl, rfl⟩
        _ = Stage.pending.standing := by
          rw [was]
          rfl
    · refine stages.stage_of_eq ?_
      rw [standing, standing, Standing.mk.injEq]
      exact ⟨pending_set_of_ne found rfl (.inl rfl) (.inr rfl) own,
        Registry.count_register_of_ne own, rfl, rfl,
        Registry.count_append_of_ne own _, rfl, rfl, rfl, rfl⟩

theorem start (stages : Stages listener ledger)
    (found : listener.admitting[call]? = some (.starting id)) :
    Stages
      ({ listener with
          hub := listener.hub.start id listener.limit
          holders := listener.holders ++ [id] }.setAdmitting call (.done .admitted))
      { ledger with started := ledger.started ++ [(call, id)] } := by
  have starts (other : ConnectionId) :
      ((ledger.started ++ [(call, id)]).map Prod.snd).count other =
        (ledger.started.map Prod.snd ++ [id]).count other := by
    rw [List.map_append, List.map_singleton]
  refine ⟨stages.next, stages.registered, fun other => ?_⟩
  by_cases own : other = id
  · subst own
    have was := stages.pending_of_found found rfl
    refine ⟨.running, ?_⟩
    calc
      _ = { listener.standing ledger other with
            pending := (listener.standing ledger other).pending - 1
            holders := (listener.standing ledger other).holders + 1
            left? := some false
            started := (listener.standing ledger other).started + 1 } := by
        rw [standing, Standing.mk.injEq]
        exact ⟨pending_removed found rfl rfl rfl, rfl, Registry.count_append_self _ _,
          congrArg (Option.map Phase.ended) (Hub.phase?_start listener.hub other listener.limit),
          rfl, rfl, (starts other).trans (Registry.count_append_self _ _), rfl, rfl⟩
      _ = Stage.running.standing := by
        rw [was]
        rfl
  · refine stages.stage_of_eq ?_
    rw [standing, standing, Standing.mk.injEq]
    exact ⟨pending_set_of_ne found rfl (.inr rfl) (.inl rfl) own, rfl,
      Registry.count_append_of_ne own _,
      congrArg (Option.map Phase.ended) (Hub.phase?_start_of_ne (Ne.symm own) listener.limit),
      rfl, rfl, (starts other).trans (Registry.count_append_of_ne own _), rfl, rfl⟩

theorem withdraw (stages : Stages listener ledger)
    (found : listener.admitting[call]? = some (.withdrawing id)) :
    Stages
      ({ listener with hub := listener.hub.deregister id }.setAdmitting call (.releasing .stopped))
      { ledger with withdrawn := ledger.withdrawn ++ [id] } := by
  refine ⟨stages.next, stages.registered, fun other => ?_⟩
  by_cases own : other = id
  · subst own
    have was := stages.pending_of_found found rfl
    refine ⟨.withdrawn, ?_⟩
    calc
      _ = { listener.standing ledger other with
            pending := (listener.standing ledger other).pending - 1
            live := (listener.standing ledger other).live - 1
            withdrawn := (listener.standing ledger other).withdrawn + 1 } := by
        rw [standing, Standing.mk.injEq]
        exact ⟨pending_removed found rfl rfl rfl, List.count_erase_self, rfl, rfl, rfl,
          Registry.count_append_self _ _, rfl, rfl, rfl⟩
      _ = Stage.withdrawn.standing := by
        rw [was]
        rfl
  · refine stages.stage_of_eq ?_
    rw [standing, standing, Standing.mk.injEq]
    exact ⟨pending_set_of_ne found rfl (.inr rfl) (.inl rfl) own, List.count_erase_of_ne own, rfl,
      rfl, rfl, Registry.count_append_of_ne own _, rfl, rfl, rfl⟩

theorem release (stages : Stages listener ledger) {exit : Exit}
    (gone : listener.hub.phase? id = some (.gone exit)) (member : id ∈ listener.holders) :
    Stages { listener with holders := listener.holders.erase id, free := listener.free + 1 }
      { ledger with released := ledger.released ++ [id] } := by
  refine ⟨stages.next, stages.registered, fun other => ?_⟩
  by_cases own : other = id
  · subst own
    have was := stages.ended_of_held gone rfl member
    refine ⟨.released, ?_⟩
    calc
      _ = { listener.standing ledger other with
            holders := (listener.standing ledger other).holders - 1
            released := (listener.standing ledger other).released + 1 } := by
        rw [standing, Standing.mk.injEq]
        exact ⟨rfl, rfl, List.count_erase_self, rfl, rfl, rfl, rfl, rfl,
          Registry.count_append_self _ _⟩
      _ = Stage.released.standing := by
        rw [was]
        rfl
  · refine stages.stage_of_eq ?_
    rw [standing, standing, Standing.mk.injEq]
    exact ⟨rfl, rfl, List.count_erase_of_ne own, rfl, rfl, rfl, rfl, rfl,
      Registry.count_append_of_ne own _⟩

theorem arrive (stages : Stages listener ledger) (id : ConnectionId) (arrival : Arrival) :
    Stages { listener with hub := listener.hub.step (.arrived id arrival) } ledger := by
  refine ⟨stages.next, stages.registered, fun other => ?_⟩
  refine stages.stage_of_eq ?_
  have left : ((listener.hub.step (.arrived id arrival)).phase? other).map Phase.ended =
      (listener.hub.phase? other).map Phase.ended := by
    rw [Hub.step]
    by_cases own : other = id
    · rw [own, Hub.phase?_changePhase, Option.map_map]
      congr 1
      exact funext (Phase.ended_meet _ arrival)
    · rw [Hub.phase?_changePhase_of_ne (Ne.symm own)]
  rw [standing, standing, Standing.mk.injEq]
  exact ⟨rfl, rfl, rfl, left, rfl, rfl, rfl, rfl, rfl⟩

theorem work (stages : Stages listener ledger) (id : ConnectionId) :
    Stages { listener with hub := listener.hub.step (.stepped id) }
      (ledger.note listener (.work id)) := by
  cases found : listener.hub.phase? id with
  | none =>
      rw [Hub.step_stepped_of_none found]
      simp only [Ledger.note, found]
      exact stages
  | some phase =>
      have after := Hub.phase?_stepped found
      have stepped := Hub.step_stepped found
      cases leaves : phase.leaves with
      | false =>
          have unnoted : ledger.note listener (.work id) = ledger := by
            rw [Ledger.note, found]
            cases phase with
            | leaving exit => cases leaves
            | _ => rfl
          have registry :
              (listener.hub.step (.stepped id)).registry = listener.hub.registry := by
            rw [stepped, leaves]
            rfl
          have left (other : ConnectionId) :
              ((listener.hub.step (.stepped id)).phase? other).map Phase.ended =
                (listener.hub.phase? other).map Phase.ended := by
            by_cases own : other = id
            · rw [own, after, found, Option.map_some, Phase.ended_next, leaves, Bool.or_false]
              rfl
            · rw [Hub.phase?_stepped_of_ne (Ne.symm own)]
          rw [unnoted]
          refine ⟨?_, stages.registered, fun other => ?_⟩
          · rw [registry]
            exact stages.next
          · refine stages.stage_of_eq ?_
            rw [standing, standing, Standing.mk.injEq]
            dsimp only
            rw [registry]
            exact ⟨rfl, rfl, rfl, left other, rfl, rfl, rfl, rfl, rfl⟩
      | true =>
          have noted : ledger.note listener (.work id) =
              { ledger with left := ledger.left ++ [id] } := by
            rw [Ledger.note, found]
            cases phase with
            | leaving exit => rfl
            | _ => cases leaves
          have registry : (listener.hub.step (.stepped id)).registry =
              listener.hub.registry.deregister id := by
            rw [stepped, leaves]
            rfl
          have runs : phase.ended = false := by
            cases phase with
            | leaving exit => rfl
            | _ => cases leaves
          rw [noted]
          refine ⟨?_, stages.registered, fun other => ?_⟩
          · rw [registry]
            exact stages.next
          · by_cases own : other = id
            · subst own
              have was := stages.running_of_phase? found runs
              refine ⟨.ended, ?_⟩
              calc
                _ = { listener.standing ledger other with
                      live := (listener.standing ledger other).live - 1
                      left? := some true
                      left := (listener.standing ledger other).left + 1 } := by
                  rw [standing, Standing.mk.injEq]
                  dsimp only
                  rw [registry, after, Option.map_some, Phase.ended_next, leaves, Bool.or_true]
                  exact ⟨rfl, List.count_erase_self, rfl, rfl, rfl, rfl, rfl,
                    Registry.count_append_self _ _, rfl⟩
                _ = Stage.ended.standing := by
                  rw [was]
                  rfl
            · refine stages.stage_of_eq ?_
              rw [standing, standing, Standing.mk.injEq]
              dsimp only
              rw [registry, Hub.phase?_stepped_of_ne (Ne.symm own)]
              exact ⟨rfl, List.count_erase_of_ne own, rfl, rfl, rfl, rfl, rfl,
                Registry.count_append_of_ne own _, rfl⟩

theorem move (stages : Stages listener ledger) {event : Event}
    (few : (ledger.note listener event).registered.length < UInt64.size)
    (move : Move listener event next) : Stages next (ledger.note listener event) := by
  cases move with
  | call =>
      refine stages.of_pending_eq (fun id => ?_) rfl rfl
      rw [pending, List.countP_append]
      rfl
  | @look call found =>
      rw [note_look found]
      refine stages.of_set found ?_
      split
      · rfl
      · rfl
  | @take call free found available =>
      have after : Stages (listener.setAdmitting call .ready) ledger := stages.of_set found rfl
      rw [note_take found (by omega)]
      exact ⟨after.next, after.registered, after.stage⟩
  | @register call found =>
      rw [note_register found, List.length_append] at few
      rw [note_register found]
      exact stages.register found few
  | @check call id found =>
      rw [note_check found]
      refine stages.of_set found ?_
      split
      · rfl
      · rfl
  | @start call id found =>
      rw [note_start found]
      exact stages.start found
  | @withdraw call id found =>
      rw [note_withdraw found]
      exact stages.withdraw found
  | @giveBack call result found =>
      have after : Stages (listener.setAdmitting call (.done result)) ledger :=
        stages.of_set found rfl
      rw [note_giveBack found]
      exact ⟨after.next, after.registered, after.stage⟩
  | accept found => exact stages.of_set found rfl
  | fail found cause => exact stages.of_set found rfl
  | leave found stopped => exact stages.of_set found rfl
  | giveUp found stopped => exact stages.of_set found rfl
  | shut => exact stages.of_pending_eq (fun _ => rfl) rfl rfl
  | takeAway found present => exact stages.of_pending_eq (fun _ => rfl) rfl rfl
  | refuse found absent => exact stages.of_pending_eq (fun _ => rfl) rfl rfl
  | stop found => exact stages.of_pending_eq (fun _ => rfl) rfl rfl
  | tell found => exact ⟨stages.next, stages.registered, stages.stage⟩
  | drop found => exact stages.of_pending_eq (fun _ => rfl) rfl rfl
  | arrive id arrival => exact stages.arrive id arrival
  | work id => exact stages.work id
  | @release id exit gone member =>
      rw [note_release gone member]
      exact stages.release gone member

theorem step (stages : Stages listener ledger) {event : Event}
    (few : (ledger.note listener event).registered.length < UInt64.size) :
    Stages (listener.step event) (ledger.note listener event) := by
  rcases step_cases listener event with ⟨idle, unnoted⟩ | move
  · rw [idle, unnoted]
    exact stages
  · exact stages.move few move

end Stages

theorem length_registered_note (listener : Listener) (ledger : Ledger) (event : Event) :
    ledger.registered.length ≤ (ledger.note listener event).registered.length := by
  cases event with
  | proceed call =>
      rw [Ledger.note]
      split
      · split
        · exact Nat.le_refl _
        · exact Nat.le_refl _
      · rw [List.length_append]
        exact Nat.le_add_right _ _
      all_goals exact Nat.le_refl _
  | work id =>
      rw [Ledger.note]
      split
      · exact Nat.le_refl _
      · exact Nat.le_refl _
  | release id =>
      rw [Ledger.note]
      split
      · split
        · exact Nat.le_refl _
        · exact Nat.le_refl _
      · exact Nat.le_refl _
  | _ => exact Nat.le_refl _

theorem length_registered_record (listener : Listener) (ledger : Ledger) (events : List Event) :
    ledger.registered.length ≤ (record listener ledger events).registered.length := by
  induction events generalizing listener ledger with
  | nil => exact Nat.le_refl _
  | cons event later ih =>
      exact (length_registered_note listener ledger event).trans (ih _ _)

namespace Stages

theorem run (stages : Stages listener ledger) {events : List Event}
    (few : (record listener ledger events).registered.length < UInt64.size) :
    Stages (listener.run events) (record listener ledger events) := by
  induction events generalizing listener ledger with
  | nil => exact stages
  | cons event later ih =>
      have soon := length_registered_record (listener.step event) (ledger.note listener event) later
      rw [record] at few
      exact ih (stages.step (by omega)) few

theorem start_empty (capacity limit : Nat) : Stages { capacity, limit } {} :=
  ⟨rfl, rfl, fun _ => ⟨.unused, rfl⟩⟩

theorem pending_pos_iff :
    0 < listener.pending id ↔ ∃ state ∈ listener.admitting, state.id? = some id := by
  rw [pending, List.countP_pos_iff]
  simp only [decide_eq_true_eq]

theorem mem_live_iff (stages : Stages listener ledger) (id : ConnectionId) :
    id ∈ listener.hub.registry.live ↔
      (∃ state ∈ listener.admitting, state.id? = some id) ∨
        ∃ phase, listener.hub.phase? id = some phase ∧ phase.ended = false := by
  have left : (∃ phase, listener.hub.phase? id = some phase ∧ phase.ended = false) ↔
      (listener.standing ledger id).left? = some false := Option.map_eq_some_iff.symm
  rw [← List.count_pos_iff, ← pending_pos_iff, left]
  change 0 < (listener.standing ledger id).live ↔ 0 < (listener.standing ledger id).pending ∨ _
  obtain ⟨stage, here⟩ := stages.stage id
  rw [here]
  cases stage with
  | _ => decide

theorem balanced (stages : Stages listener ledger) (id : ConnectionId) :
    (listener.standing ledger id).Balanced := by
  obtain ⟨stage, here⟩ := stages.stage id
  rw [here]
  exact stage.balanced

end Stages

/-! ## All runs -/

theorem free_giveBack {result : Admission}
    (found : listener.admitting[call]? = some (.releasing result)) :
    (listener.step (.proceed call)).free = listener.free + 1 := by
  rw [step, found]
  rfl

theorem free_release {exit : Exit} (gone : listener.hub.phase? id = some (.gone exit))
    (member : id ∈ listener.holders) :
    (listener.step (.release id)).free = listener.free + 1 := by
  rw [step, gone]
  dsimp only
  rw [if_pos member]

/-- Slots and connections are accounted for at every moment of every run. Every slot is free, with a
call or with a started connection. A call that took a slot still holds it, gave it back once, or
left it to a connection, which still holds it or gave it back; whoever is done with a slot can give
it back. There are never more connections on the registry than slots that are held. Unless
identifiers ran out, those on the registry are exactly those of calls in progress and of connections
that run, and each was given out once and is removed once, by its call or when its connection
ends. -/
theorem connections_and_slots_are_accounted_for (capacity limit : Nat) (events : List Event) :
    let start : Listener := { capacity, limit }
    let listener := start.run events
    let ledger := record start {} events
    listener.hub.registry.size ≤ listener.held ∧
    listener.free + listener.held = capacity ∧
    (∀ call, (ledger.account call).Fits listener.admitting[call]?) ∧
    (∀ id, ledger.starts id = listener.holders.count id + ledger.released.count id) ∧
    (∀ call result, listener.admitting[call]? = some (.releasing result) →
      (listener.step (.proceed call)).free = listener.free + 1) ∧
    (∀ id exit, listener.hub.phase? id = some (.gone exit) → id ∈ listener.holders →
      (listener.step (.release id)).free = listener.free + 1) ∧
    (ledger.registered.length < UInt64.size →
      ∀ id, (listener.standing ledger id).Balanced ∧
        (id ∈ listener.hub.registry.live ↔
          (∃ state ∈ listener.admitting, state.id? = some id) ∨
            ∃ phase, listener.hub.phase? id = some phase ∧ phase.ended = false)) := by
  intro start listener ledger
  have lodged : Lodged listener := (Lodged.start_empty capacity limit).run events
  have slots : Slots capacity listener ledger := (slots_start capacity limit).run events
  refine ⟨lodged.size_le_held, slots.sum, slots.calls, slots.holders,
    fun call result => free_giveBack, fun id exit => free_release, ?_⟩
  intro few
  have stages : Stages listener ledger := (Stages.start_empty capacity limit).run few
  exact fun id => ⟨stages.balanced id, stages.mem_live_iff id⟩

theorem slot_of_closed_connection_comes_back :
    ∃ events : List Event,
      (({ capacity := 1, limit := 9 } : Listener).run events).hub.phase? 1 =
        some (.gone .closed) ∧
      (({ capacity := 1, limit := 9 } : Listener).run events).free = 1 ∧
      (record { capacity := 1, limit := 9 } {} events).registered.length < UInt64.size ∧
      1 ∉ (({ capacity := 1, limit := 9 } : Listener).run events).hub.registry.live := by
  obtain ⟨events, gone, none, calls, few⟩ : ∃ events : List Event,
      (({ capacity := 1, limit := 9 } : Listener).run events).hub.phase? 1 =
        some (.gone .closed) ∧
      (({ capacity := 1, limit := 9 } : Listener).run events).held = 0 ∧
      (({ capacity := 1, limit := 9 } : Listener).run events).admitting =
        [.done .admitted, .done .stopped] ∧
      (record { capacity := 1, limit := 9 } {} events).registered.length < UInt64.size := by
    exact ⟨[.call, .call, .proceed 0, .proceed 0, .connect 0, .proceed 0, .proceed 0, .proceed 0,
      .proceed 1, .shut, .shutProceed 0, .shutProceed 0, .shutProceed 0, .shutProceed 0, .notice 1,
      .work 1, .arrive 1 .close, .work 1, .work 1, .release 1],
      by with_unfolding_all rfl, by with_unfolding_all rfl, by with_unfolding_all rfl,
      by decide +kernel⟩
  obtain ⟨-, sum, -, -, -, -, known⟩ := connections_and_slots_are_accounted_for 1 9 events
  rw [none] at sum
  refine ⟨events, gone, sum, few, ?_⟩
  rw [(known few 1).2, gone, calls]
  simp [Admitting.id?, Phase.ended]

end Listener

end LogIntake
