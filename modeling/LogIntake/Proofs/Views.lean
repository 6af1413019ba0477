import LogIntake.Proofs.Identifiers
import LogIntake.Proofs.Serving

/-!
# Views of a hub

What one connection can see of a hub: its phase, whether it was told to close, whether it is
registered, and what it handed on. An event that concerns another connection leaves the view as it
is (`view_step_of_not_concerns`), and one that concerns the connection changes it in a way that
depends on nothing but the view (`view_step_of_concerns`).
So the view after a run is that of the connection's own events (`view_run`).
-/
set_option autoImplicit false

namespace LogIntake

namespace Phase

def next : Phase → Phase
  | .examining connection =>
    match connection.examine with
    | .frame frame after => .counting frame after
    | .wait after => .waiting after
    | .fault fault => .ending (.fault fault)
  | .counting frame after =>
    match frame.delivery with
    | [] => .examining after
    | batch :: _ => .handing batch after
  | .handing _ after => .examining after
  | .ending exit => .leaving exit
  | .leaving exit => .gone exit
  | phase => phase

def counted : Phase → Nat
  | .counting frame _ => frame.size
  | _ => 0

def handed : Phase → List Batch
  | .handing batch _ => [batch]
  | _ => []

def leaves : Phase → Bool
  | .leaving _ => true
  | _ => false

def ended : Phase → Bool
  | .gone _ => true
  | _ => false

theorem ended_meet (told : Bool) (arrival : Arrival) (phase : Phase) :
    (phase.meet told arrival).ended = phase.ended := by
  cases phase with
  | waiting connection =>
      simp only [meet]
      split
      · rfl
      · split
        · rfl
        · rfl
  | _ => rfl

theorem ended_next (phase : Phase) : phase.next.ended = (phase.ended || phase.leaves) := by
  cases phase with
  | examining connection =>
      simp only [next]
      split
      · rfl
      · rfl
      · rfl
  | counting frame after =>
      simp only [next]
      split
      · rfl
      · rfl
  | _ => rfl

end Phase

namespace Hub

/-- A step of a connection acts on each part of the hub by itself. -/
theorem stepPhase_eq (hub : Hub) (id : ConnectionId) (phase : Phase) :
    hub.stepPhase id phase =
      ({ hub with
          registry := if phase.leaves then hub.registry.deregister id else hub.registry
          entries := hub.entries + UInt64.ofNat phase.counted
          delivered := hub.delivered ++ phase.handed.map (id, ·) }, phase.next) := by
  cases phase with
  | waiting connection => simp [stepPhase, Phase.leaves, Phase.counted, Phase.handed, Phase.next]
  | examining connection =>
      simp only [stepPhase, Phase.leaves, Phase.counted, Phase.handed, Phase.next]
      cases connection.examine with
      | frame frame after => simp
      | wait after => simp
      | fault fault => simp
  | counting frame after =>
      simp only [stepPhase, Phase.leaves, Phase.counted, Phase.handed, Phase.next]
      cases frame.delivery with
      | nil => simp
      | cons batch rest => simp
  | handing batch after => simp [stepPhase, Phase.leaves, Phase.counted, Phase.handed, Phase.next]
  | ending exit => simp [stepPhase, Phase.leaves, Phase.counted, Phase.handed, Phase.next]
  | leaving exit =>
      simp [stepPhase, Phase.leaves, Phase.counted, Phase.handed, Phase.next, deregister]
  | gone exit => simp [stepPhase, Phase.leaves, Phase.counted, Phase.handed, Phase.next]

theorem step_stepped {hub : Hub} {id : ConnectionId} {phase : Phase}
    (found : hub.phase? id = some phase) :
    hub.step (.stepped id) =
      { hub with
        registry := if phase.leaves then hub.registry.deregister id else hub.registry
        entries := hub.entries + UInt64.ofNat phase.counted
        delivered := hub.delivered ++ phase.handed.map (id, ·)
        phases := (hub.setPhase id phase.next).phases } := by
  rw [step, found]
  dsimp only
  rw [stepPhase_eq]
  rfl

theorem step_stepped_of_none {hub : Hub} {id : ConnectionId} (absent : hub.phase? id = none) :
    hub.step (.stepped id) = hub := by
  rw [step, absent]

/-! ## Phases of the others -/

variable {hub : Hub} {id other : ConnectionId}

theorem phase?_changePhase_of_ne (different : other ≠ id) (change : Phase → Phase) :
    (hub.changePhase other change).phase? id = hub.phase? id := by
  have unlike : (id == other) = false := beq_eq_false_iff_ne.mpr different.symm
  rw [phase?, phase?, changePhase]
  induction hub.phases with
  | nil => rfl
  | cons entry rest ih =>
      rw [List.map_cons, List.lookup_cons, List.lookup_cons, ih]
      by_cases same : entry.1 = other
      · rw [if_pos same, same]
        simp only [unlike]
      · rw [if_neg same]

theorem lookup_filter_of_ne (different : other ≠ id) (phases : List (ConnectionId × Phase)) :
    (phases.filter fun entry => entry.1 ≠ other).lookup id = phases.lookup id := by
  induction phases with
  | nil => rfl
  | cons entry rest ih =>
      by_cases same : entry.1 = other
      · have unlike : (id == entry.1) = false := by
          rw [same]
          exact beq_eq_false_iff_ne.mpr different.symm
        rw [List.filter_cons_of_neg (by simp [same]), ih, List.lookup_cons, unlike]
      · rw [List.filter_cons_of_pos (by simp [same]), List.lookup_cons, List.lookup_cons, ih]

theorem phase?_start_of_ne (different : other ≠ id) (limit : Nat) :
    (hub.start other limit).phase? id = hub.phase? id := by
  have unlike : (id == other) = false := beq_eq_false_iff_ne.mpr different.symm
  rw [phase?, start, List.lookup_append, lookup_filter_of_ne different, List.lookup_cons, unlike,
    List.lookup_nil, Option.or_none, phase?]

theorem phase?_stepped {phase : Phase} (found : hub.phase? id = some phase) :
    (hub.step (.stepped id)).phase? id = some phase.next := by
  rw [step_stepped found]
  exact phase?_setPhase found phase.next

theorem phase?_stepped_of_ne (different : other ≠ id) :
    (hub.step (.stepped other)).phase? id = hub.phase? id := by
  cases found : hub.phase? other with
  | none => rw [step_stepped_of_none found]
  | some phase =>
      have kept : (hub.setPhase other phase.next).phase? id = hub.phase? id :=
        phase?_changePhase_of_ne different _
      rw [step_stepped found]
      exact kept

/-! ## Views -/

def sent (hub : Hub) (id : ConnectionId) : List Batch :=
  (hub.delivered.filter fun entry => entry.1 = id).map Prod.snd

theorem sent_eq_append {next : Hub} {batches : List Batch}
    (delivered : next.delivered = hub.delivered ++ batches.map (id, ·)) :
    next.sent id = hub.sent id ++ batches := by
  have all : (batches.map (id, ·)).filter (fun entry => entry.1 = id) = batches.map (id, ·) := by
    rw [List.filter_eq_self]
    intro entry member
    obtain ⟨batch, -, rfl⟩ := List.mem_map.mp member
    simp
  rw [sent, delivered, List.filter_append, all, List.map_append, sent]
  simp

theorem sent_of_ne {next : Hub} {batches : List Batch} (different : other ≠ id)
    (delivered : next.delivered = hub.delivered ++ batches.map (other, ·)) :
    next.sent id = hub.sent id := by
  have nothing : (batches.map (other, ·)).filter (fun entry => entry.1 = id) = [] := by
    rw [List.filter_eq_nil_iff]
    rintro entry member
    obtain ⟨batch, -, rfl⟩ := List.mem_map.mp member
    simpa using different
  rw [sent, delivered, List.filter_append, nothing, List.append_nil, sent]

end Hub

/-- What a connection sees of a hub. -/
structure View where
  phase : Option Phase
  told : Bool
  live : Bool
  sent : List Batch

def View.opened (limit : Nat) : View := ⟨some (.examining { limit }), false, true, []⟩

def View.step (view : View) : Hub.Event → View
  | .opened limit => { View.opened limit with sent := view.sent }
  | .arrived _ arrival => { view with phase := view.phase.map (Phase.meet view.told arrival) }
  | .stepped _ =>
    match view.phase with
    | some phase =>
      ⟨some phase.next, view.told, view.live && !phase.leaves, view.sent ++ phase.handed⟩
    | none => view
  | .closedAll => { view with told := view.told || view.live }
  | .discarded _ => { view with phase := none, live := false }

namespace Hub

def view (hub : Hub) (id : ConnectionId) : View :=
  ⟨hub.phase? id, hub.registry.isSignalled id, decide (id ∈ hub.registry.live), hub.sent id⟩

def Event.opens : Event → Bool
  | .opened _ => true
  | _ => false

/-- Whether an event happens to an open connection, alone or with all others. -/
def Event.concerns (id : ConnectionId) : Event → Bool
  | .opened _ => false
  | .arrived other _ | .stepped other | .discarded other => other = id
  | .closedAll => true

variable {hub : Hub} {id : ConnectionId}

theorem distinct_step (distinct : hub.registry.Distinct) (event : Event) :
    (hub.step event).registry.Distinct := by
  cases event with
  | opened limit => exact Registry.distinct_register distinct
  | arrived other arrival => exact distinct
  | stepped other =>
      cases found : hub.phase? other with
      | none =>
          rw [step_stepped_of_none found]
          exact distinct
      | some phase =>
          rw [step_stepped found]
          dsimp only
          split
          · exact Registry.distinct_deregister distinct other
          · exact distinct
  | closedAll => exact Registry.distinct_closeAll distinct
  | discarded other => exact Registry.distinct_deregister distinct other

theorem view_opened (distinct : hub.registry.Distinct) (limit : Nat) :
    (hub.step (.opened limit)).view hub.registry.next =
      (hub.view hub.registry.next).step (.opened limit) := by
  have phase := phase?_start hub.register.2 hub.registry.next limit
  have told := Registry.isSignalled_register_self distinct
  have live : hub.registry.next ∈ hub.registry.register.2.live :=
    Registry.mem_live_register.mpr (.inr rfl)
  simp only [view, View.step, View.opened, View.mk.injEq]
  exact ⟨phase, told, decide_eq_true live, rfl⟩

theorem view_opened_of_ne (different : hub.registry.next ≠ id) (limit : Nat) :
    (hub.step (.opened limit)).view id = hub.view id := by
  have phase : (hub.register.2.start hub.registry.next limit).phase? id = hub.phase? id :=
    phase?_start_of_ne different limit
  have told : hub.registry.register.2.isSignalled id = hub.registry.isSignalled id :=
    Registry.isSignalled_register_of_ne different.symm
  have live : id ∈ hub.registry.register.2.live ↔ id ∈ hub.registry.live := by
    rw [Registry.mem_live_register, or_iff_left different.symm]
  simp only [view, View.mk.injEq, decide_eq_decide]
  exact ⟨phase, told, live, rfl⟩

/-- An event that concerns a connection changes its view, whatever else there is at the hub. -/
theorem view_step_of_concerns (distinct : hub.registry.Distinct) {event : Event}
    (own : event.concerns id) : (hub.step event).view id = (hub.view id).step event := by
  cases event with
  | opened limit => cases own
  | arrived other arrival =>
      obtain rfl : other = id := by simpa [Event.concerns] using own
      simp only [view, View.step, View.mk.injEq]
      exact ⟨phase?_arrived hub other arrival, rfl, rfl, rfl⟩
  | stepped other =>
      obtain rfl : other = id := by simpa [Event.concerns] using own
      cases found : hub.phase? other with
      | none =>
          rw [step_stepped_of_none found]
          simp [view, View.step, found]
      | some phase =>
          have sends : (hub.step (.stepped other)).sent other = hub.sent other ++ phase.handed := by
            apply sent_eq_append
            rw [step_stepped found]
          rw [view, sends, phase?_stepped found, step_stepped found]
          simp only [view, View.step, found, View.mk.injEq, true_and, and_true]
          cases phase.leaves with
          | false => simp
          | true =>
              refine ⟨rfl, ?_⟩
              simp [Registry.mem_live_deregister distinct]
  | closedAll =>
      have told : hub.registry.closeAll.isSignalled id =
          (hub.registry.isSignalled id || decide (id ∈ hub.registry.live)) :=
        Registry.isSignalled_closeAll id
      simp only [view, View.step, View.mk.injEq]
      exact ⟨rfl, told, rfl, rfl⟩
  | discarded other =>
      obtain rfl : other = id := by simpa [Event.concerns] using own
      simp only [view, View.step, View.mk.injEq, decide_eq_false_iff_not]
      refine ⟨lookup_filter_self other hub.phases, rfl, ?_, rfl⟩
      intro member
      exact ((Registry.mem_live_deregister distinct).mp member).1 rfl

theorem view_step_of_not_concerns (distinct : hub.registry.Distinct) {event : Event}
    (foreign : event.concerns id = false) (old : event.opens → hub.registry.next ≠ id) :
    (hub.step event).view id = hub.view id := by
  cases event with
  | opened limit => exact view_opened_of_ne (old rfl) limit
  | arrived other arrival =>
      have different : other ≠ id := by simpa [Event.concerns] using foreign
      simp only [view, View.mk.injEq]
      exact ⟨phase?_changePhase_of_ne different _, rfl, rfl, rfl⟩
  | stepped other =>
      have different : other ≠ id := by simpa [Event.concerns] using foreign
      cases found : hub.phase? other with
      | none => rw [step_stepped_of_none found]
      | some phase =>
          have delivered : (hub.step (.stepped other)).delivered =
              hub.delivered ++ phase.handed.map (other, ·) := by
            rw [step_stepped found]
          have sends := sent_of_ne different delivered
          rw [view, sends, phase?_stepped_of_ne different, step_stepped found, view]
          simp only [View.mk.injEq, true_and, and_true]
          cases phase.leaves with
          | false => simp
          | true =>
              refine ⟨rfl, ?_⟩
              simp [Registry.mem_live_deregister distinct, different.symm]
  | closedAll => cases foreign
  | discarded other =>
      have different : other ≠ id := by simpa [Event.concerns] using foreign
      simp only [view, View.mk.injEq, decide_eq_decide]
      refine ⟨lookup_filter_of_ne different hub.phases, rfl, ?_, rfl⟩
      exact (Registry.mem_live_deregister distinct).trans (and_iff_right different.symm)

/-! ## Runs -/

/-- A hub at which `count` connections were opened. -/
structure Opened (count : Nat) (hub : Hub) : Prop where
  next : hub.registry.next = UInt64.ofNat (count + 1)
  distinct : hub.registry.Distinct
  keys : (hub.phases.map Prod.fst).Nodup
  issued : ∀ key ∈ hub.phases.map Prod.fst, key ∈ Registry.issued count
  delivered : ∀ entry ∈ hub.delivered, entry.1 ∈ Registry.issued count

theorem opened_empty : Opened 0 {} := by
  refine ⟨rfl, ⟨List.nodup_nil, List.nodup_nil⟩, List.nodup_nil, ?_, ?_⟩
  · intro key member
    cases member
  · intro entry member
    cases member

theorem keys_changePhase (hub : Hub) (id : ConnectionId) (change : Phase → Phase) :
    (hub.changePhase id change).phases.map Prod.fst = hub.phases.map Prod.fst := by
  rw [changePhase, List.map_map]
  refine List.map_congr_left fun entry _ => ?_
  by_cases same : entry.1 = id
  · simp [same]
  · simp [same]

theorem mem_keys_of_phase? {phase : Phase} (found : hub.phase? id = some phase) :
    id ∈ hub.phases.map Prod.fst := by
  by_contra absent
  have nothing : hub.phases.lookup id = none := by
    rw [List.lookup_eq_none_iff]
    intro entry member
    apply bne_iff_ne.mpr
    rintro rfl
    exact absent (List.mem_map_of_mem member)
  rw [phase?, nothing] at found
  cases found

theorem Opened.step {count : Nat} (opened : Opened count hub) (event : Event) :
    Opened (count + [event].countP Event.opens) (hub.step event) := by
  have distinct := distinct_step opened.distinct event
  cases event with
  | opened limit =>
      have given : hub.registry.next ∈ Registry.issued (count + 1) := by
        rw [opened.next]
        exact Registry.mem_issued_of_lt (Nat.lt_succ_self count)
      have keys : (hub.step (.opened limit)).phases.map Prod.fst =
          (hub.phases.map Prod.fst).filter (· ≠ hub.registry.next) ++ [hub.registry.next] := by
        rw [List.filter_map]
        simp only [Hub.step, Hub.register, start, List.map_append, List.map_singleton]
        rfl
      refine ⟨?_, distinct, ?_, ?_, ?_⟩
      · rw [Hub.step]
        change hub.registry.next + 1 = UInt64.ofNat (count + 1 + 1)
        rw [opened.next, UInt64.ofNat_add (count + 1) 1]
        rfl
      · rw [keys, List.nodup_append]
        refine ⟨opened.keys.filter _, List.nodup_singleton _, ?_⟩
        intro key member other last same
        rw [List.mem_singleton] at last
        have unlike := (List.mem_filter.mp member).2
        simp [same, last] at unlike
      · intro key member
        rw [keys, List.mem_append, List.mem_singleton] at member
        rcases member with old | rfl
        · exact Registry.mem_issued_mono (Nat.le_succ count)
            (opened.issued key (List.mem_filter.mp old).1)
        · exact given
      · intro entry member
        exact Registry.mem_issued_mono (Nat.le_succ count) (opened.delivered entry member)
  | arrived other arrival =>
      have keys := keys_changePhase hub other (Phase.meet (hub.registry.isSignalled other) arrival)
      refine ⟨opened.next, distinct, ?_, ?_, opened.delivered⟩
      · rw [Hub.step, keys]
        exact opened.keys
      · rw [Hub.step, keys]
        exact opened.issued
  | stepped other =>
      cases found : hub.phase? other with
      | none =>
          rw [step_stepped_of_none found]
          exact opened
      | some phase =>
          have keys := keys_changePhase hub other fun _ => phase.next
          have given := opened.issued other (mem_keys_of_phase? found)
          rw [step_stepped found] at distinct ⊢
          refine ⟨?_, distinct, ?_, ?_, ?_⟩
          · dsimp only
            split
            · exact opened.next
            · exact opened.next
          · dsimp only [setPhase]
            rw [keys]
            exact opened.keys
          · dsimp only [setPhase]
            rw [keys]
            exact opened.issued
          · intro entry member
            rcases List.mem_append.mp member with old | new
            · exact opened.delivered entry old
            · obtain ⟨batch, -, rfl⟩ := List.mem_map.mp new
              exact given
  | closedAll => exact ⟨opened.next, distinct, opened.keys, opened.issued, opened.delivered⟩
  | discarded other =>
      have fewer : ((hub.phases.filter fun entry => entry.1 ≠ other).map Prod.fst).Sublist
          (hub.phases.map Prod.fst) := List.filter_sublist.map Prod.fst
      refine ⟨opened.next, distinct, fewer.nodup opened.keys, ?_, opened.delivered⟩
      intro key member
      exact opened.issued key (fewer.subset member)

theorem Opened.run {count : Nat} (opened : Opened count hub) (events : List Event) :
    Opened (count + events.countP Event.opens) (hub.run events) := by
  induction events generalizing count hub with
  | nil => exact opened
  | cons event later ih =>
      have next := ih (opened.step event)
      rwa [Nat.add_assoc, ← List.countP_append] at next

theorem sent_eq_nil {count : Nat} (opened : Opened count hub)
    (new : id ∉ Registry.issued count) : hub.sent id = [] := by
  have nothing : hub.delivered.filter (fun entry => entry.1 = id) = [] := by
    rw [List.filter_eq_nil_iff]
    intro entry member same
    rw [decide_eq_true_eq] at same
    exact new (same ▸ opened.delivered entry member)
  rw [sent, nothing]
  rfl

/-- The view of a connection after a run is that of its own events, as long as its identifier is
not given out again. -/
theorem view_run {count : Nat} (opened : Opened count hub) (given : id ∈ Registry.issued count)
    (events : List Event) (few : count + events.countP Event.opens < UInt64.size) :
    (hub.run events).view id =
      (events.filter (Event.concerns id)).foldl View.step (hub.view id) := by
  induction events generalizing count hub with
  | nil => rfl
  | cons event later ih =>
      have next := opened.step event
      have count_le := Nat.le_add_right count ([event].countP Event.opens)
      rw [← List.singleton_append, List.countP_append, ← Nat.add_assoc] at few
      have after := ih next (Registry.mem_issued_mono count_le given) few
      rw [Hub.run, List.foldl_cons]
      rw [Hub.run] at after
      rw [after]
      cases own : event.concerns id with
      | true =>
          rw [List.filter_cons_of_pos own, List.foldl_cons,
            view_step_of_concerns opened.distinct own]
      | false =>
          have old : event.opens → hub.registry.next ≠ id := by
            intro opens same
            have one : [event].countP Event.opens = 1 := by simp [opens]
            rw [opened.next] at same
            rw [one] at few
            exact Registry.notMem_issued (by omega) (same ▸ given)
          rw [List.filter_cons_of_neg (by simp [own]),
            view_step_of_not_concerns opened.distinct own old]

theorem view_opened_new {count : Nat} (opened : Opened count hub) (few : count + 1 < UInt64.size)
    (limit : Nat) :
    (hub.step (.opened limit)).view hub.registry.next = View.opened limit := by
  have nothing : hub.sent hub.registry.next = [] := by
    apply sent_eq_nil opened
    rw [opened.next]
    exact Registry.notMem_issued few
  rw [view_opened opened.distinct, View.step, view, nothing]
  rfl

end Hub

end LogIntake
