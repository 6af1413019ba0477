import LogIntake.Proofs.Following

/-!
# Isolation

Connections that share a hub. Each one goes through the same phases and hands on the same batches as
if it were alone at a hub of its own and met the same events (`view_run_eq_alone`), and the counter
agrees with all that was handed on whenever no frame is on its way from the one to the other
(`Counted`).
-/
set_option autoImplicit false

namespace LogIntake

open LogIntake.Frame (ofStream)

namespace Phase

/-- Whether the connection has taken a frame that was not handed on yet. -/
def dispatching : Phase → Bool
  | .counting .. | .handing .. => true
  | _ => false

/-- How many entries were counted and not handed on yet. -/
def inHand : Phase → Nat
  | .handing batch _ => batch.length
  | _ => 0

theorem inHand_next (phase : Phase) : phase.next.inHand = phase.counted := by
  cases phase with
  | examining connection =>
      rw [next]
      cases connection.examine with
      | frame frame after => rfl
      | wait after => rfl
      | fault fault => rfl
  | counting frame after =>
      simp only [next, counted]
      rcases Hub.delivery_cases frame with ⟨empty, size⟩ | ⟨batch, one, size⟩
      · rw [empty, size]
        rfl
      · rw [one, ← size]
        rfl
  | waiting connection => rfl
  | handing batch after => rfl
  | ending exit => rfl
  | leaving exit => rfl
  | gone exit => rfl

theorem sum_handed (phase : Phase) : (phase.handed.map List.length).sum = phase.inHand := by
  cases phase with
  | handing batch after => simp [handed, inHand]
  | _ => rfl

theorem inHand_meet (told : Bool) (arrival : Arrival) (phase : Phase) :
    (phase.meet told arrival).inHand = phase.inHand := by
  cases phase with
  | waiting connection =>
      rw [meet]
      split
      · rfl
      · split
        · rfl
        · rfl
  | _ => rfl

theorem inHand_of_not_dispatching {phase : Phase} (idle : phase.dispatching = false) :
    phase.inHand = 0 := by
  cases phase with
  | handing batch after => cases idle
  | _ => rfl

end Phase

namespace Hub

variable {hub : Hub} {id : ConnectionId}

/-! ## A connection alone -/

/-- An event as it happens to a connection that is alone at its hub; none for events of others. -/
def Event.alone? (id : ConnectionId) : Event → Option Event
  | .opened _ => none
  | .arrived other arrival => if other = id then some (.arrived 1 arrival) else none
  | .stepped other => if other = id then some (.stepped 1) else none
  | .closedAll => some .closedAll
  | .discarded other => if other = id then some (.discarded 1) else none

theorem alone?_of_concerns {event : Event} (own : event.concerns id) :
    ∃ lone, event.alone? id = some lone ∧ lone.concerns 1 ∧ lone.opens = false ∧
      ∀ view : View, view.step lone = view.step event := by
  cases event with
  | opened limit => cases own
  | arrived other arrival =>
      obtain rfl : other = id := by simpa [Event.concerns] using own
      exact ⟨.arrived 1 arrival, if_pos rfl, by simp [Event.concerns], rfl, fun view => rfl⟩
  | stepped other =>
      obtain rfl : other = id := by simpa [Event.concerns] using own
      exact ⟨.stepped 1, if_pos rfl, by simp [Event.concerns], rfl, fun view => rfl⟩
  | closedAll => exact ⟨.closedAll, rfl, rfl, rfl, fun view => rfl⟩
  | discarded other =>
      obtain rfl : other = id := by simpa [Event.concerns] using own
      exact ⟨.discarded 1, if_pos rfl, by simp [Event.concerns], rfl, fun view => rfl⟩

theorem alone?_of_not_concerns {event : Event} (foreign : event.concerns id = false) :
    event.alone? id = none := by
  cases event with
  | opened limit => rfl
  | arrived other arrival => exact if_neg (by simpa [Event.concerns] using foreign)
  | stepped other => exact if_neg (by simpa [Event.concerns] using foreign)
  | closedAll => cases foreign
  | discarded other => exact if_neg (by simpa [Event.concerns] using foreign)

theorem foldl_alone (id : ConnectionId) (events : List Event) (view : View) :
    ((events.filterMap (Event.alone? id)).filter (Event.concerns 1)).foldl View.step view =
      (events.filter (Event.concerns id)).foldl View.step view ∧
    (events.filterMap (Event.alone? id)).countP Event.opens = 0 := by
  induction events generalizing view with
  | nil => exact ⟨rfl, rfl⟩
  | cons event later ih =>
      cases own : event.concerns id with
      | true =>
          obtain ⟨lone, found, concerns, calm, same⟩ := alone?_of_concerns own
          have rest := ih (view.step event)
          rw [List.filterMap_cons_some found, List.filter_cons_of_pos concerns,
            List.filter_cons_of_pos own, List.foldl_cons, List.foldl_cons, same,
            List.countP_cons_of_neg (by simp [calm])]
          exact rest
      | false =>
          have rest := ih view
          rw [List.filterMap_cons_none (alone?_of_not_concerns own),
            List.filter_cons_of_neg (by simp [own])]
          exact rest

theorem view_run_opened {count : Nat} (opened : Opened count hub) (limit : Nat)
    (later : List Event) (few : count + 1 + later.countP Event.opens < UInt64.size) :
    (hub.run (.opened limit :: later)).view hub.registry.next =
      (later.filter (Event.concerns hub.registry.next)).foldl View.step (View.opened limit) := by
  have given : hub.registry.next ∈ Registry.issued (count + 1) := by
    rw [opened.next]
    exact Registry.mem_issued_of_lt (Nat.lt_succ_self count)
  have after := view_run (opened.step (.opened limit)) given later few
  rw [view_opened_new opened (by omega)] at after
  exact after

theorem view_run_eq_alone {count : Nat} (opened : Opened count hub) (limit : Nat)
    (later : List Event) (few : count + 1 + later.countP Event.opens < UInt64.size) :
    (hub.run (.opened limit :: later)).view hub.registry.next =
      (({} : Hub).run
        (.opened limit :: later.filterMap (Event.alone? hub.registry.next))).view 1 := by
  have same := foldl_alone hub.registry.next later (View.opened limit)
  have lone := view_run_opened opened_empty limit
    (later.filterMap (Event.alone? hub.registry.next)) (by rw [same.2]; decide)
  rw [view_run_opened opened limit later few, ← same.1]
  exact lone.symm

/-! ## What a connection meets -/

def heardBy (hub : Hub) (id : ConnectionId) : List Event → List Arrival
  | [] => []
  | event :: later =>
    (if event.concerns id then (hub.view id).hears event else []) ++
      (hub.step event).heardBy id later

theorem heardBy_eq {count : Nat} (opened : Opened count hub) (given : id ∈ Registry.issued count)
    (events : List Event) (few : count + events.countP Event.opens < UInt64.size) :
    hub.heardBy id events = (hub.view id).heard (events.filter (Event.concerns id)) := by
  induction events generalizing count hub with
  | nil => rfl
  | cons event later ih =>
      have next := opened.step event
      have count_le := Nat.le_add_right count ([event].countP Event.opens)
      have step := view_run opened given [event] (by
        rw [← List.singleton_append, List.countP_append] at few
        omega)
      rw [← List.singleton_append, List.countP_append, ← Nat.add_assoc] at few
      have rest := ih next (Registry.mem_issued_mono count_le given) few
      rw [heardBy, rest]
      change (hub.step event).view id = _ at step
      rw [step]
      cases own : event.concerns id with
      | true =>
          rw [if_pos rfl, List.filter_cons_of_pos own, List.filter_cons_of_pos own]
          rfl
      | false =>
          rw [if_neg (by decide), List.filter_cons_of_neg (by simp [own]),
            List.filter_cons_of_neg (by simp [own])]
          rfl

theorem follows_run {count : Nat} (opened : Opened count hub) (limit : Nat)
    (later : List Event) (few : count + 1 + later.countP Event.opens < UInt64.size) :
    let after := hub.run (.opened limit :: later)
    View.Follows limit ((hub.step (.opened limit)).heardBy hub.registry.next later)
      (after.sent hub.registry.next) (after.phase? hub.registry.next) := by
  have given : hub.registry.next ∈ Registry.issued (count + 1) := by
    rw [opened.next]
    exact Registry.mem_issued_of_lt (Nat.lt_succ_self count)
  have heard := heardBy_eq (opened.step (.opened limit)) given later few
  have calm : ∀ event ∈ later.filter (Event.concerns hub.registry.next),
      event.opens = false := by
    intro event member
    have own := (List.mem_filter.mp member).2
    cases event with
    | opened limit => cases own
    | _ => rfl
  have follows := View.follows_foldl (View.follows_opened limit) calm
  rw [← view_run_opened opened limit later few] at follows
  rw [heard, view_opened_new opened (by omega)]
  exact follows

theorem batch_of_mem_delivery {frames : List Frame} {batch : Batch}
    (member : batch ∈ frames.flatMap Frame.delivery) :
    batch ≠ [] ∧ ∃ frame ∈ frames, batch = frame.entries.map Entry.normalize ∧
      ∀ entry ∈ batch, entry.tag = frame.tag := by
  obtain ⟨frame, inside, found⟩ := List.mem_flatMap.mp member
  rw [Frame.delivery] at found
  by_cases empty : frame.isEmpty
  · rw [if_pos empty] at found
    cases found
  · rw [if_neg empty, List.mem_singleton] at found
    subst found
    refine ⟨?_, frame, inside, rfl, ?_⟩
    · intro nothing
      have size := congrArg List.length nothing
      rw [List.length_map, Frame.length_entries] at size
      exact empty (by simpa [Frame.isEmpty] using size)
    · intro entry inBatch
      simp only [Frame.entries, List.map_map, List.mem_map] at inBatch
      obtain ⟨content, -, rfl⟩ := inBatch
      rfl

/-! ## The counter -/

def inHand (hub : Hub) : Nat := (hub.phases.map fun entry => entry.2.inHand).sum

def total (hub : Hub) : Nat := (hub.delivered.map fun entry => entry.2.length).sum

/-- Whether the counter is that of what was handed on and of what is on its way. -/
def Counted (hub : Hub) : Prop := hub.entries = UInt64.ofNat (hub.total + hub.inHand)

/-- Whether an event drops a connection between taking a frame and handing it on. -/
def abandons (hub : Hub) : Event → Bool
  | .discarded id => ((hub.phase? id).map Phase.dispatching).getD false
  | _ => false

def abandonsIn (hub : Hub) : List Event → Bool
  | [] => false
  | event :: later => hub.abandons event || (hub.step event).abandonsIn later

theorem phase?_of_mem (keys : (hub.phases.map Prod.fst).Nodup) {phase : Phase}
    (member : (id, phase) ∈ hub.phases) : hub.phase? id = some phase := by
  rw [phase?]
  generalize hub.phases = phases at keys member
  induction phases with
  | nil => cases member
  | cons entry rest ih =>
      rw [List.map_cons, List.nodup_cons] at keys
      rw [List.lookup_cons]
      rcases List.mem_cons.mp member with rfl | later
      · simp
      · have unlike : id ≠ entry.1 := by
          intro same
          exact keys.1 (List.mem_map.mpr ⟨(id, phase), later, same⟩)
        rw [beq_eq_false_iff_ne.mpr unlike]
        exact ih keys.2 later

theorem inHand_changePhase (keys : (hub.phases.map Prod.fst).Nodup) {phase : Phase}
    (found : hub.phase? id = some phase) (change : Phase → Phase) :
    (hub.changePhase id change).inHand + phase.inHand = hub.inHand + (change phase).inHand := by
  simp only [inHand, changePhase]
  rw [phase?] at found
  generalize hub.phases = phases at keys found
  induction phases with
  | nil => cases found
  | cons entry rest ih =>
      rw [List.map_cons, List.nodup_cons] at keys
      rw [List.lookup_cons] at found
      by_cases same : entry.1 = id
      · have others (other : ConnectionId × Phase) (member : other ∈ rest) :
            (if other.1 = id then (id, change other.2) else other) = other := by
          rw [if_neg]
          rintro rfl
          exact keys.1 (same ▸ List.mem_map_of_mem member)
        have here : entry.2 = phase := by simpa [same] using found
        rw [List.map_cons, if_pos same, List.map_congr_left others, List.map_id', here.symm]
        simp only [List.map_cons, List.sum_cons]
        omega
      · rw [beq_eq_false_iff_ne.mpr (Ne.symm same)] at found
        have further := ih keys.2 found
        simp only [List.map_cons, List.sum_cons, if_neg same]
        omega

theorem inHand_changePhase_of_same {change : Phase → Phase}
    (same : ∀ phase, (change phase).inHand = phase.inHand) :
    (hub.changePhase id change).inHand = hub.inHand := by
  simp only [inHand, changePhase, List.map_map]
  congr 1
  refine List.map_congr_left fun entry _ => ?_
  by_cases own : entry.1 = id
  · simp [own, same]
  · simp [own]

theorem inHand_filter {id : ConnectionId}
    (empty : ∀ entry ∈ hub.phases, entry.1 = id → entry.2.inHand = 0) :
    ((hub.phases.filter fun entry => entry.1 ≠ id).map fun entry => entry.2.inHand).sum =
      hub.inHand := by
  rw [inHand]
  generalize hub.phases = phases at empty
  induction phases with
  | nil => rfl
  | cons entry rest ih =>
      have further := ih fun other member => empty other (List.mem_cons_of_mem _ member)
      rw [List.map_cons, List.sum_cons, ← further]
      by_cases same : entry.1 = id
      · rw [List.filter_cons_of_neg (by simp [same]), empty entry List.mem_cons_self same,
          Nat.zero_add]
      · rw [List.filter_cons_of_pos (by simp [same]), List.map_cons, List.sum_cons]

theorem counted_stepped {count : Nat} (opened : Opened count hub) (counted : Counted hub)
    {phase : Phase} (found : hub.phase? id = some phase) : Counted (hub.step (.stepped id)) := by
  have hand := inHand_changePhase opened.keys found fun _ => phase.next
  rw [Phase.inHand_next] at hand
  have handed := phase.sum_handed
  have total : (hub.step (.stepped id)).total = hub.total + phase.inHand := by
    rw [Hub.total, step_stepped found]
    simp only [List.map_append, List.sum_append, List.map_map, ← handed, Hub.total]
    rfl
  have inHand : (hub.step (.stepped id)).inHand =
      (hub.changePhase id fun _ => phase.next).inHand := by
    rw [step_stepped found]
    rfl
  have entries : (hub.step (.stepped id)).entries = hub.entries + UInt64.ofNat phase.counted := by
    rw [step_stepped found]
  have sum : hub.total + hub.inHand + phase.counted =
      hub.total + phase.inHand + (hub.changePhase id fun _ => phase.next).inHand := by omega
  rw [Counted, entries, total, inHand, counted, ← UInt64.ofNat_add, sum]

theorem counted_step {count : Nat} (opened : Opened count hub) (counted : Counted hub)
    {event : Event} (few : count + [event].countP Event.opens < UInt64.size)
    (kept : hub.abandons event = false) : Counted (hub.step event) := by
  cases event with
  | opened limit =>
      -- Starting drops what was there under the identifier; as that is new, nothing was.
      have new (entry : ConnectionId × Phase) (member : entry ∈ hub.phases)
          (same : entry.1 = hub.registry.next) : entry.2.inHand = 0 := by
        have given := opened.issued entry.1 (List.mem_map_of_mem member)
        rw [same, opened.next] at given
        exact absurd given (Registry.notMem_issued few)
      have hand := inHand_filter new
      have same : (hub.step (.opened limit)).inHand = hub.inHand := by
        rw [inHand]
        simp only [step, register, start, List.map_append, List.sum_append]
        exact hand
      rw [Counted, same]
      exact counted
  | arrived id arrival =>
      have same : (hub.changePhase id
          (Phase.meet (hub.registry.isSignalled id) arrival)).inHand = hub.inHand :=
        inHand_changePhase_of_same (Phase.inHand_meet _ arrival)
      rw [Counted, step, same]
      exact counted
  | stepped id =>
      cases found : hub.phase? id with
      | none =>
          rw [step_stepped_of_none found]
          exact counted
      | some phase => exact counted_stepped opened counted found
  | closedAll => exact counted
  | discarded id =>
      have empty (entry : ConnectionId × Phase) (member : entry ∈ hub.phases)
          (same : entry.1 = id) : entry.2.inHand = 0 := by
        have found : hub.phase? id = some entry.2 := by
          apply phase?_of_mem opened.keys
          rw [← same]
          exact member
        rw [abandons, found] at kept
        exact Phase.inHand_of_not_dispatching kept
      have hand := inHand_filter empty
      have same : (hub.step (.discarded id)).inHand = hub.inHand := hand
      rw [Counted, same]
      exact counted

theorem counted_run {count : Nat} (opened : Opened count hub) (counted : Counted hub)
    {events : List Event} (few : count + events.countP Event.opens < UInt64.size)
    (kept : hub.abandonsIn events = false) : Counted (hub.run events) := by
  induction events generalizing count hub with
  | nil => exact counted
  | cons event later ih =>
      rw [abandonsIn, Bool.or_eq_false_iff] at kept
      rw [← List.singleton_append, List.countP_append, ← Nat.add_assoc] at few
      exact ih (opened.step event) (counted_step opened counted (by omega) kept.1) few kept.2

theorem entries_eq_total {count : Nat} (opened : Opened count hub) (counted : Counted hub)
    (idle : ∀ id phase, hub.phase? id = some phase → phase.dispatching = false) :
    hub.entries = UInt64.ofNat hub.total := by
  have nothing : hub.inHand = 0 := by
    rw [inHand, List.sum_eq_zero_iff_forall_eq_nat]
    intro hand member
    obtain ⟨entry, inside, rfl⟩ := List.mem_map.mp member
    exact Phase.inHand_of_not_dispatching
      (idle entry.1 entry.2 (phase?_of_mem opened.keys inside))
  rw [counted, nothing, Nat.add_zero]

/-! ## All connections -/

theorem run_append (hub : Hub) (events later : List Event) :
    hub.run (events ++ later) = (hub.run events).run later := List.foldl_append

/-- Connections do not disturb each other. A connection goes through the same phases among others as
alone, with the same exit, and hands on the same batches. They are the batches of the first frames
of the stream that it has met, of all of them once it has ended, and each is that of one frame,
whole and in order. Two connections that meet the same events fare the same, whatever happens to
others. The counter is the number of entries handed on whenever no connection is between taking a
frame and handing it on, unless one was dropped there. -/
theorem connections_do_not_disturb (events : List Event)
    (few : events.countP Event.opens < UInt64.size) :
    let hub := ({} : Hub).run events
    (∀ first limit later, events = first ++ .opened limit :: later →
      let id := (({} : Hub).run first).registry.next
      let lone := ({} : Hub).run (.opened limit :: later.filterMap (Event.alone? id))
      let arrivals := (({} : Hub).run (first ++ [.opened limit])).heardBy id later
      let frames := (ofStream (streamOf arrivals)).1
      hub.phase? id = lone.phase? 1 ∧ hub.sent id = lone.sent 1 ∧
      (∃ taken, taken <+: frames ∧ hub.sent id = taken.flatMap Frame.delivery) ∧
      (∀ exit, (hub.phase? id).bind Phase.exit? = some exit →
        hub.sent id = frames.flatMap Frame.delivery ∧ exitAfter limit arrivals = some exit) ∧
      (∀ batch ∈ hub.sent id, batch ≠ [] ∧
        ∃ frame ∈ frames, batch = frame.entries.map Entry.normalize ∧
          ∀ entry ∈ batch, entry.tag = frame.tag) ∧
      ∀ first' later', (first' ++ .opened limit :: later').countP Event.opens < UInt64.size →
        let id' := (({} : Hub).run first').registry.next
        let hub' := ({} : Hub).run (first' ++ .opened limit :: later')
        later'.filterMap (Event.alone? id') = later.filterMap (Event.alone? id) →
        hub'.phase? id' = hub.phase? id ∧ hub'.sent id' = hub.sent id) ∧
    (({} : Hub).abandonsIn events = false →
      (∀ id phase, hub.phase? id = some phase → phase.dispatching = false) →
      hub.entries = UInt64.ofNat hub.total) := by
  have alone (first later : List Event) (limit : Nat)
      (few : (first ++ .opened limit :: later).countP Event.opens < UInt64.size) :
      (({} : Hub).run (first ++ .opened limit :: later)).view
          (({} : Hub).run first).registry.next =
        (({} : Hub).run (.opened limit ::
          later.filterMap (Event.alone? (({} : Hub).run first).registry.next))).view 1 := by
    rw [List.countP_append, List.countP_cons_of_pos rfl] at few
    rw [run_append]
    exact view_run_eq_alone (opened_empty.run first) limit later (by omega)
  constructor
  · rintro first limit later rfl id lone arrivals frames
    have same := alone first later limit few
    have follows : View.Follows limit arrivals
        ((({} : Hub).run (first ++ .opened limit :: later)).sent id)
        ((({} : Hub).run (first ++ .opened limit :: later)).phase? id) := by
      rw [List.countP_append, List.countP_cons_of_pos rfl] at few
      have run := follows_run (opened_empty.run first) limit later (by omega)
      simp only [arrivals, run_append]
      exact run
    obtain ⟨taken, start, handed⟩ := follows.exists_prefix
    refine ⟨congrArg View.phase same, congrArg View.sent same, ⟨taken, start, handed⟩,
      fun exit exits => follows.of_exit exits, ?_, ?_⟩
    · intro batch member
      rw [handed] at member
      obtain ⟨content, frame, inside, rest⟩ := batch_of_mem_delivery member
      exact ⟨content, frame, start.subset inside, rest⟩
    · intro first' later' few' id' hub' agree
      have same' := alone first' later' limit few'
      rw [agree] at same'
      have views := same'.trans same.symm
      exact ⟨congrArg View.phase views, congrArg View.sent views⟩
  · intro kept idle
    have opened := opened_empty.run events
    have start : Counted {} := rfl
    have counted := counted_run opened_empty start (by omega) kept
    exact entries_eq_total opened counted idle

theorem garbage_leaves_others_alone :
    let first : List Event := [.opened 9]
    let later : List Event := [.stepped 1, .stepped 2, .arrived 1 (.bytes [0xc1]),
      .arrived 2 (.bytes [0x93, 0xa1, 0x74, 0x01, 0x81, 0xa1, 0x6b, 0xc0]),
      .stepped 1, .stepped 2, .stepped 1, .stepped 2, .stepped 1, .stepped 2]
    (first ++ .opened 9 :: later).countP Event.opens < UInt64.size ∧
    (({} : Hub).run (first ++ .opened 9 :: later)).sent 2 = [[⟨"t", 1, [("k", .nil)]⟩]] := by
  intro first later
  have few : (first ++ .opened 9 :: later).countP Event.opens < UInt64.size := by decide
  have among := ((connections_do_not_disturb _ few).1 first 9 later rfl).2.1
  have alone : (({} : Hub).run (.opened 9 :: later.filterMap (Event.alone? 2))).sent 1 =
      [[⟨"t", 1, [("k", .nil)]⟩]] := by
    set_option maxRecDepth 1024 in with_unfolding_all rfl
  exact ⟨few, among.trans alone⟩

end Hub

end LogIntake
