import LogIntake.Proofs.Identifiers
import LogIntake.Proofs.Serving

/-!
# Running through a script

What a connection that works alone meets is the front of what its script offers: all of it, unless
what it has met ends it (`met_offered`, `exitAfter_of_met`). At the hub it takes the frames that it
takes by itself, and is left as it is left by itself (`left_serve`).
-/
set_option autoImplicit false

namespace LogIntake

open LogIntake.Frame (ofStream)

def Phase.standing : Except Exit Connection → Phase
  | .ok connection => .waiting connection
  | .error exit => .gone exit

namespace Hub

variable {before hub after next : Hub} {id : ConnectionId} {limit : Nat} {arrivals : List Arrival}
  {connection : Connection}

/-- The arrivals that a script offers to a connection that waits: all of them, but the signal to
close only after the connections were told. -/
def offered : Bool → List Happening → List Arrival
  | _, [] => []
  | _, .told :: script => offered true script
  | told, .arrival arrival :: script =>
    if arrival = .close ∧ told = false then offered told script
    else arrival :: offered told script

/-! ## Signals -/

theorem signalled_restPhase (hub : Hub) (id : ConnectionId) (phase : Phase) :
    (hub.restPhase id phase).1.registry.signalled = hub.registry.signalled := by
  fun_induction restPhase hub id phase with
  | case1 hub phase busy next ih =>
      rw [ih]
      cases phase with
      | examining connection =>
          change (hub.stepPhase id _).1.registry.signalled = _
          rw [stepPhase]
          split <;> rfl
      | counting frame after =>
          change (hub.stepPhase id _).1.registry.signalled = _
          rw [stepPhase]
          split <;> rfl
      | _ => rfl
  | case2 => rfl

theorem isSignalled_rest (hub : Hub) (id other : ConnectionId) :
    (hub.rest id).registry.isSignalled other = hub.registry.isSignalled other := by
  rw [rest]
  split
  · next phase found =>
    rw [Registry.isSignalled, Registry.isSignalled, ← signalled_restPhase hub id phase]
    rfl
  · rfl

theorem isSignalled_arrived (hub : Hub) (id : ConnectionId) (arrival : Arrival) :
    (hub.follow id (.arrival arrival)).registry.isSignalled id = hub.registry.isSignalled id :=
  isSignalled_rest _ id id

theorem isSignalled_told (live : id ∈ hub.registry.live) :
    (hub.follow id .told).registry.isSignalled id = true := by
  rw [follow, isSignalled_rest]
  simp only [Registry.isSignalled, decide_eq_true_eq]
  change id ∈ hub.registry.signalled ++
    hub.registry.live.filter fun live => live ∉ hub.registry.signalled
  by_cases already : id ∈ hub.registry.signalled
  · exact List.mem_append_left _ already
  · exact List.mem_append_right _ (List.mem_filter.mpr ⟨live, by simpa using already⟩)

/-! ## What a connection meets -/

theorem met_append (hub : Hub) (id : ConnectionId) (script more : List Happening) :
    hub.met id (script ++ more) =
      hub.met id script ++ (script.foldl (fun now => now.follow id) hub).met id more := by
  induction script generalizing hub with
  | nil => rfl
  | cons happening rest ih =>
      rw [List.cons_append, met, met, ih, List.append_assoc]
      rfl

theorem meets_waiting (waits : hub.phase? id = some (.waiting connection)) (arrival : Arrival) :
    hub.meets id (.arrival arrival) =
      if arrival = .close ∧ hub.registry.isSignalled id = false then [] else [arrival] := by
  rw [meets, waits]

theorem follow_gone {exit : Exit} (gone : hub.phase? id = some (.gone exit))
    (happening : Happening) :
    (hub.follow id happening).phase? id = some (.gone exit) ∧
      (hub.follow id happening).entries = hub.entries ∧
      (hub.follow id happening).delivered = hub.delivered ∧ hub.meets id happening = [] := by
  have there : (hub.step (happening.event id)).phase? id = some (.gone exit) := by
    cases happening with
    | told => exact gone
    | arrival arrival =>
        rw [Happening.event, phase?_arrived, gone]
        rfl
  rw [follow, rest_eq there, restPhase_idle rfl]
  refine ⟨phase?_setPhase there _, ?_, ?_, ?_⟩
  · cases happening <;> rfl
  · cases happening <;> rfl
  · cases happening with
    | told => rfl
    | arrival arrival => rw [meets, gone]

theorem foldl_gone {exit : Exit} (gone : hub.phase? id = some (.gone exit))
    (script : List Happening) :
    let after := script.foldl (fun now => now.follow id) hub
    after.phase? id = some (.gone exit) ∧ after.entries = hub.entries ∧
      after.delivered = hub.delivered ∧ hub.met id script = [] := by
  induction script generalizing hub with
  | nil => exact ⟨gone, rfl, rfl, rfl⟩
  | cons happening rest ih =>
      obtain ⟨stays, entries, delivered, nothing⟩ := follow_gone gone happening
      have later := ih stays
      refine ⟨later.1, later.2.1.trans entries, later.2.2.1.trans delivered, ?_⟩
      rw [met, nothing, later.2.2.2]
      rfl

/-- A connection meets the front of what it is offered, and all of it unless it is gone then. -/
theorem met_offered (served : Served before id limit arrivals hub) (script : List Happening) :
    hub.met id script <+: offered (hub.registry.isSignalled id) script ∧
      (hub.met id script = offered (hub.registry.isSignalled id) script ∨ ∃ exit,
        (script.foldl (fun now => now.follow id) hub).phase? id = some (.gone exit)) := by
  induction script generalizing arrivals hub with
  | nil => exact ⟨List.prefix_refl [], .inl rfl⟩
  | cons happening rest ih =>
      have later := ih (served_follow served happening)
      rcases served.phase with ⟨exit, -, gone⟩ | ⟨left, scanner, -, -, -, -, live, waits⟩
      · have after := foldl_gone gone (happening :: rest)
        rw [after.2.2.2]
        exact ⟨List.nil_prefix, .inr ⟨exit, after.1⟩⟩
      · cases happening with
        | told =>
            rw [isSignalled_told live] at later
            exact later
        | arrival arrival =>
            rw [isSignalled_arrived] at later
            rw [met, meets_waiting waits, offered]
            by_cases deaf : arrival = .close ∧ hub.registry.isSignalled id = false
            · rw [if_pos deaf, if_pos deaf]
              exact later
            · rw [if_neg deaf, if_neg deaf]
              refine ⟨(List.prefix_cons_inj arrival).mpr later.1, ?_⟩
              rcases later.2 with all | gone
              · exact .inl (congrArg (arrival :: ·) all)
              · exact .inr gone

theorem exitAfter_of_met (served : Served before id limit arrivals hub) {script : List Happening}
    {front back : List Arrival} {last : Arrival}
    (cut : hub.met id script = front ++ last :: back) :
    exitAfter limit (arrivals ++ front) = none := by
  -- it waits before each arrival that it meets, and after it has met what is in `arrivals`
  induction script generalizing arrivals hub front with
  | nil => simp [met] at cut
  | cons happening rest ih =>
      have follows := served_follow served happening
      rcases served.phase with ⟨exit, -, gone⟩ | ⟨left, scanner, goes, -, -, -, -, waits⟩
      · rw [(foldl_gone gone _).2.2.2] at cut
        simp at cut
      · cases front with
        | nil => rwa [List.append_nil]
        | cons first others =>
            have nothing_or_one : hub.meets id happening = [] ∨
                ∃ arrival, hub.meets id happening = [arrival] := by
              cases happening with
              | told => exact .inl rfl
              | arrival arrival =>
                  rw [meets_waiting waits]
                  split
                  · exact .inl rfl
                  · exact .inr ⟨arrival, rfl⟩
            rw [met] at cut
            rcases nothing_or_one with nothing | ⟨arrival, one⟩
            · rw [nothing, List.append_nil] at follows
              rw [nothing] at cut
              exact ih follows cut
            · rw [one] at follows cut
              obtain ⟨rfl, rest⟩ := List.cons.inj cut
              have later := ih follows rest
              rwa [List.append_assoc] at later

def toldBefore (before : Hub) : Bool :=
  before.registry.register.2.isSignalled before.registry.next

theorem toldBefore_of_distinct (distinct : before.registry.Distinct) :
    before.toldBefore = false := by
  rw [toldBefore, Registry.isSignalled, decide_eq_false_iff_not]
  exact distinct.signalled.not_mem_erase

theorem heard_offered (before : Hub) (limit : Nat) (script : List Happening) :
    before.heard limit script <+: offered before.toldBefore script ∧
      (before.heard limit script = offered before.toldBefore script ∨ ∃ exit,
        (before.serve limit script).phase? before.registry.next = some (.gone exit)) := by
  have met := met_offered (served_opened before limit) script
  rw [isSignalled_rest] at met
  exact met

/-! ## Hubs and single connections -/

/-- Whether a connection that took these frames, and stands so, has left a hub this way. -/
structure Left (hub : Hub) (id : ConnectionId) (taken : List Frame × Except Exit Connection)
    (after : Hub) : Prop where
  entries : after.entries = (hub.dispatched id taken.1).entries
  delivered : after.delivered = (hub.dispatched id taken.1).delivered
  phase : after.phase? id = some (.standing taken.2)

theorem Left.append {taken : List Frame × Except Exit Connection}
    (left : Left next id taken after) (frames : List Frame)
    (entries : next.entries = (hub.dispatched id frames).entries)
    (delivered : next.delivered = (hub.dispatched id frames).delivered) :
    Left hub id (frames ++ taken.1, taken.2) after := by
  have whole := dispatched_append hub id frames taken.1
  refine ⟨?_, ?_, left.phase⟩
  · rw [left.entries, ← whole]
    simp only [dispatched, entries]
  · rw [left.delivered, ← whole]
    simp only [dispatched, delivered]

theorem Left.of_same {taken : List Frame × Except Exit Connection}
    (left : Left next id taken after) (entries : next.entries = hub.entries)
    (delivered : next.delivered = hub.delivered) : Left hub id taken after := by
  refine left.append [] ?_ ?_
  · rw [entries, dispatched_nil]
  · rw [delivered, dispatched_nil]

theorem left_self {standing : Except Exit Connection}
    (phase : hub.phase? id = some (.standing standing)) : Left hub id ([], standing) hub where
  entries := by rw [dispatched_nil]
  delivered := by rw [dispatched_nil]
  phase := phase

/-- A waiting connection that meets an arrival takes frames, and is left, as it does by itself. It
stays registered while it goes on. -/
theorem left_receive (waits : hub.phase? id = some (.waiting connection)) {arrival : Arrival}
    (heeded : ¬ (arrival = .close ∧ hub.registry.isSignalled id = false)) :
    Left hub id (connection.receive arrival) (hub.follow id (.arrival arrival)) ∧
      ((∃ next, (connection.receive arrival).2 = .ok next) →
        (hub.follow id (.arrival arrival)).registry.live = hub.registry.live) := by
  have moved := phase?_arrived hub id arrival
  rw [waits, Option.map_some, Phase.meet, if_neg heeded] at moved
  rw [follow, Happening.event, Connection.receive]
  cases taken : connection.take arrival with
  | error exit =>
      rw [taken] at moved
      rw [rest_eq moved, restPhase_ending]
      have gone : (((hub.step (.arrived id arrival)).deregister id).setPhase id
          (.gone exit)).phase? id = some (.standing (.error exit)) := phase?_setPhase moved _
      refine ⟨(left_self gone).of_same rfl rfl, ?_⟩
      rintro ⟨next, goes⟩
      cases goes
  | ok filled =>
      rw [taken] at moved
      rw [rest_eq moved, restPhase_examining]
      dsimp only
      rcases filled.settle with ⟨frames, exit | next⟩
      · refine ⟨⟨rfl, rfl, phase?_setPhase moved _⟩, ?_⟩
        rintro ⟨next, goes⟩
        cases goes
      · exact ⟨⟨rfl, rfl, phase?_setPhase moved _⟩, fun _ => rfl⟩

theorem follow_idle {happening : Happening}
    (idle : (hub.step (happening.event id)).phase? id = some (.waiting connection)) :
    (hub.follow id happening).phase? id = some (.waiting connection) ∧
      (hub.follow id happening).entries = hub.entries ∧
      (hub.follow id happening).delivered = hub.delivered ∧
      (hub.follow id happening).registry.live = hub.registry.live := by
  rw [follow, rest_eq idle, restPhase_idle rfl]
  refine ⟨phase?_setPhase idle _, ?_, ?_, ?_⟩
  · cases happening <;> rfl
  · cases happening <;> rfl
  · cases happening <;> rfl

theorem left_foldl (waits : hub.phase? id = some (.waiting connection))
    (live : id ∈ hub.registry.live) (script : List Happening) :
    Left hub id (connection.run (offered (hub.registry.isSignalled id) script))
      (script.foldl (fun now => now.follow id) hub) := by
  induction script generalizing hub connection with
  | nil =>
      rw [offered, Connection.run]
      exact left_self waits
  | cons happening rest ih =>
      -- what passes the connection by leaves it where it was
      have idle (told : Bool) (signalled : (hub.follow id happening).registry.isSignalled id = told)
          (stays : (hub.step (happening.event id)).phase? id = some (.waiting connection)) :
          Left hub id (connection.run (offered told rest))
            ((happening :: rest).foldl (fun now => now.follow id) hub) := by
        obtain ⟨phase, entries, delivered, still⟩ := follow_idle stays
        have later := ih phase (still ▸ live)
        rw [signalled] at later
        exact later.of_same entries delivered
      cases happening with
      | told => exact idle true (isSignalled_told live) waits
      | arrival arrival =>
          rw [offered]
          by_cases deaf : arrival = .close ∧ hub.registry.isSignalled id = false
          · rw [if_pos deaf]
            refine idle _ (isSignalled_arrived hub id arrival) ?_
            rw [Happening.event, phase?_arrived, waits, Option.map_some, Phase.meet, if_pos deaf]
          · rw [if_neg deaf]
            obtain ⟨first, stays⟩ := left_receive waits deaf
            have signalled := isSignalled_arrived hub id arrival
            rw [Connection.run]
            rcases taken : connection.receive arrival with ⟨frames, exit | next⟩
            · rw [taken] at first
              have after := foldl_gone first.phase rest
              refine ⟨after.2.1.trans first.entries, after.2.2.1.trans first.delivered, after.1⟩
            · rw [taken] at first stays
              have later := ih first.phase ((stays ⟨next, rfl⟩) ▸ live)
              rw [signalled] at later
              exact later.append frames first.entries first.delivered

theorem settle_empty (limit : Nat) :
    ({ limit } : Connection).settle = ([], .ok { limit }) := by
  have look : ({ limit } : Connection).examine = .wait { limit } := by
    have parsed : Frame.Scanner.parse {} [] = ({}, .incomplete) := by
      rw [Frame.Scanner.parse, Frame.Scanner.scan, Frame.Scanner.walk.eq_def]
      rfl
    rw [Connection.examine, parsed]
    exact if_neg (Nat.not_lt_zero limit)
  rw [Connection.settle.eq_def]
  split
  · next found => rw [look] at found; cases found
  · next found => rw [look] at found; cases found; rfl
  · next found => rw [look] at found; cases found

theorem rest_opened (before : Hub) (limit : Nat) :
    (before.step (.opened limit)).rest before.registry.next =
      (before.step (.opened limit)).setPhase before.registry.next (.waiting { limit }) := by
  have there : (before.step (.opened limit)).phase? before.registry.next =
      some (.examining { limit }) := phase?_start _ _ _
  rw [rest_eq there, restPhase_examining, settle_empty]
  dsimp only
  rw [dispatched_nil]

/-- A connection that is opened at a hub and meets a script there alone leaves the hub as it is left
by itself, running through what the script offers. -/
theorem left_serve (before : Hub) (limit : Nat) (script : List Happening) :
    Left before before.registry.next
      (({ limit } : Connection).run (offered before.toldBefore script))
      (before.serve limit script) := by
  have there : (before.step (.opened limit)).phase? before.registry.next =
      some (.examining { limit }) := phase?_start _ _ _
  have waits := phase?_setPhase there (.waiting { limit })
  have live : before.registry.next ∈ ((before.step (.opened limit)).setPhase
      before.registry.next (.waiting { limit })).registry.live :=
    List.mem_append_right _ (List.mem_singleton.mpr rfl)
  have left := left_foldl waits live script
  rw [serve, rest_opened]
  exact left.of_same rfl rfl

end Hub

end LogIntake
