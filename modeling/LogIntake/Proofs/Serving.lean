import LogIntake.Hub
import LogIntake.Proofs.Settling

/-!
# Serving a connection

A connection that works alone at a hub, from its opening through any script of arrivals. What it
hands on, what it adds to the counter and how it ends are functions of the bytes that it has met and
of the last arrival: `Served` says which, and holds after every script (`served_serve`).
-/
set_option autoImplicit false

namespace LogIntake

open LogIntake.Frame (ofStream Remainder)

namespace Hub

/-! ## One connection at rest -/

theorem phase?_changePhase (hub : Hub) (id : ConnectionId) (change : Phase → Phase) :
    (hub.changePhase id change).phase? id = (hub.phase? id).map change := by
  rw [phase?, changePhase, phase?]
  induction hub.phases with
  | nil => rfl
  | cons entry rest ih =>
      rw [List.map_cons, List.lookup_cons, List.lookup_cons]
      by_cases same : entry.1 = id
      · rw [if_pos same, same]
        simp
      · rw [if_neg same, beq_eq_false_iff_ne.mpr (Ne.symm same)]
        exact ih

theorem lookup_filter_self (id : ConnectionId) (phases : List (ConnectionId × Phase)) :
    (phases.filter fun entry => entry.1 ≠ id).lookup id = none := by
  rw [List.lookup_eq_none_iff]
  intro entry member
  have unlike : entry.1 ≠ id := by simpa using (List.mem_filter.mp member).2
  exact bne_iff_ne.mpr unlike.symm

theorem phase?_start (hub : Hub) (id : ConnectionId) (limit : Nat) :
    (hub.start id limit).phase? id = some (.examining { limit }) := by
  rw [phase?, start, List.lookup_append, lookup_filter_self, List.lookup_cons, beq_self_eq_true]
  rfl

theorem restPhase_busy {hub : Hub} {id : ConnectionId} {phase : Phase}
    (busy : phase.atRest = false) :
    hub.restPhase id phase =
      (hub.stepPhase id phase).1.restPhase id (hub.stepPhase id phase).2 := by
  rw [restPhase.eq_def, dif_pos busy]

theorem restPhase_idle {hub : Hub} {id : ConnectionId} {phase : Phase}
    (idle : phase.atRest = true) : hub.restPhase id phase = (hub, phase) := by
  rw [restPhase.eq_def, dif_neg (by simp [idle])]

def dispatched (hub : Hub) (id : ConnectionId) (frames : List Frame) : Hub :=
  { hub with
    entries := hub.entries +
      UInt64.ofNat ((frames.flatMap Frame.delivery).map List.length).sum
    delivered := hub.delivered ++ (frames.flatMap Frame.delivery).map (id, ·) }

theorem dispatched_nil (hub : Hub) (id : ConnectionId) : hub.dispatched id [] = hub := by
  simp [dispatched]

theorem dispatched_append (hub : Hub) (id : ConnectionId) (frames more : List Frame) :
    (hub.dispatched id frames).dispatched id more = hub.dispatched id (frames ++ more) := by
  simp [dispatched, UInt64.ofNat_add, UInt64.add_assoc]

theorem delivery_cases (frame : Frame) :
    frame.delivery = [] ∧ frame.size = 0 ∨
      ∃ batch, frame.delivery = [batch] ∧ batch.length = frame.size := by
  rw [Frame.delivery]
  by_cases empty : frame.isEmpty
  · rw [if_pos empty]
    exact .inl ⟨rfl, by simpa [Frame.isEmpty] using empty⟩
  · rw [if_neg empty]
    exact .inr ⟨_, rfl, by simp⟩

theorem restPhase_counting (hub : Hub) (id : ConnectionId) (frame : Frame) (after : Connection) :
    hub.restPhase id (.counting frame after) =
      (hub.dispatched id [frame]).restPhase id (.examining after) := by
  rw [restPhase_busy rfl, stepPhase, dispatched, List.flatMap_singleton]
  rcases delivery_cases frame with ⟨none, size⟩ | ⟨batch, one, size⟩
  · rw [none, size]
    simp
  · rw [one, ← size]
    dsimp only
    rw [restPhase_busy rfl, stepPhase]
    simp

theorem restPhase_ending (hub : Hub) (id : ConnectionId) (exit : Exit) :
    hub.restPhase id (.ending exit) = (hub.deregister id, .gone exit) := by
  rw [restPhase_busy rfl, stepPhase]
  dsimp only
  rw [restPhase_busy rfl, stepPhase]
  dsimp only
  rw [restPhase_idle rfl]

/-- A connection that looks at its buffer goes on until it has taken all frames off it. -/
theorem restPhase_examining (hub : Hub) (id : ConnectionId) (connection : Connection) :
    hub.restPhase id (.examining connection) =
      match connection.settle with
      | (frames, .ok after) => (hub.dispatched id frames, .waiting after)
      | (frames, .error exit) => ((hub.dispatched id frames).deregister id, .gone exit) := by
  rw [restPhase_busy rfl, stepPhase]
  fun_induction Connection.settle connection generalizing hub with
  | case1 connection frame after look others standing run ih =>
      rw [look]
      dsimp only
      rw [restPhase_counting, restPhase_busy rfl, stepPhase, ih, run]
      cases standing with
      | ok settled =>
          dsimp only
          rw [dispatched_append]
          rfl
      | error exit =>
          dsimp only
          rw [dispatched_append]
          rfl
  | case2 connection after look =>
      rw [look]
      dsimp only
      rw [restPhase_idle rfl, dispatched_nil]
  | case3 connection fault look =>
      rw [look]
      dsimp only
      rw [restPhase_ending, dispatched_nil]

theorem rest_eq {hub : Hub} {id : ConnectionId} {phase : Phase}
    (found : hub.phase? id = some phase) :
    hub.rest id = (hub.restPhase id phase).1.setPhase id (hub.restPhase id phase).2 := by
  rw [rest, found]

theorem phase?_setPhase {hub : Hub} {id : ConnectionId} {present : Phase}
    (found : hub.phase? id = some present) (phase : Phase) :
    (hub.setPhase id phase).phase? id = some phase := by
  rw [setPhase, phase?_changePhase, found]
  rfl

end Hub

/-! ## Scripts -/

namespace Arrival

def content : Arrival → Bytes
  | .bytes piece => piece
  | _ => []

def exit? : Arrival → Option Exit
  | .bytes [] => some .endOfStream
  | .bytes _ => none
  | .failure cause =>
    match cause.severity with
    | .temporary => none
    | .endOfStream => some .endOfStream
    | .fatal => some (.transport cause)
  | .close => some .closed

theorem content_of_exit? {arrival : Arrival} {exit : Exit} (ends : arrival.exit? = some exit) :
    arrival.content = [] := by
  cases arrival with
  | bytes piece =>
      cases piece with
      | nil => rfl
      | cons first rest => cases ends
  | failure cause => rfl
  | close => rfl

theorem exit?_ne_fault (arrival : Arrival) (fault : Frame.Fault) :
    arrival.exit? ≠ some (.fault fault) := by
  cases arrival with
  | bytes piece => cases piece <;> simp [exit?]
  | failure cause =>
      rw [exit?]
      split <;> simp
  | close => simp [exit?]

end Arrival

theorem Connection.take_eq (connection : Connection) (arrival : Arrival) :
    connection.take arrival =
      match arrival.exit? with
      | some exit => .error exit
      | none => .ok { connection with buffer := connection.buffer ++ arrival.content } := by
  cases arrival with
  | bytes piece =>
      cases piece with
      | nil => rfl
      | cons first rest => rfl
  | failure cause =>
      simp only [take, Arrival.exit?, Arrival.content, List.append_nil]
      cases cause.severity <;> rfl
  | close => rfl

/-- What happens while a connection works alone: something arrives, or all connections are told to
close. -/
inductive Happening where
  | arrival (arrival : Arrival)
  | told

def Happening.event (id : ConnectionId) : Happening → Hub.Event
  | .arrival next => .arrived id next
  | .told => .closedAll

namespace Hub

def follow (hub : Hub) (id : ConnectionId) (happening : Happening) : Hub :=
  (hub.step (happening.event id)).rest id

/-- The hub after a connection was opened that met a script alone. -/
def serve (hub : Hub) (limit : Nat) (script : List Happening) : Hub :=
  script.foldl (fun now => now.follow hub.registry.next)
    ((hub.step (.opened limit)).rest hub.registry.next)

/-- What a connection meets of what happens: an arrival while it waits, but the signal to close only
after it was told. -/
def meets (hub : Hub) (id : ConnectionId) : Happening → List Arrival
  | .arrival arrival =>
    match hub.phase? id with
    | some (.waiting _) =>
      if arrival = .close ∧ hub.registry.isSignalled id = false then [] else [arrival]
    | _ => []
  | .told => []

def met (hub : Hub) (id : ConnectionId) : List Happening → List Arrival
  | [] => []
  | happening :: script => hub.meets id happening ++ (hub.follow id happening).met id script

def heard (hub : Hub) (limit : Nat) (script : List Happening) : List Arrival :=
  ((hub.step (.opened limit)).rest hub.registry.next).met hub.registry.next script

end Hub

def streamOf (arrivals : List Arrival) : Bytes := arrivals.flatMap Arrival.content

theorem streamOf_append (arrivals more : List Arrival) :
    streamOf (arrivals ++ more) = streamOf arrivals ++ streamOf more := List.flatMap_append

theorem streamOf_singleton (arrival : Arrival) : streamOf [arrival] = arrival.content :=
  List.flatMap_singleton _ _

/-- How a connection has ended that met these arrivals, if it has: by the fault that follows the
frames in its stream, by too long a frame that is unfinished, or by the last arrival. -/
def exitAfter (limit : Nat) (arrivals : List Arrival) : Option Exit :=
  match (ofStream (streamOf arrivals)).2 with
  | .faulty fault => some (.fault fault)
  | .unfinished rest =>
    if limit < rest.length then some (.fault (.tooLarge limit))
    else arrivals.getLast?.bind Arrival.exit?

namespace Hub

/-- A hub at which a connection has met some arrivals, alone since it was opened at `before`. -/
structure Served (before : Hub) (id : ConnectionId) (limit : Nat) (arrivals : List Arrival)
    (hub : Hub) : Prop where
  entries : hub.entries = (before.dispatched id (ofStream (streamOf arrivals)).1).entries
  delivered : hub.delivered = (before.dispatched id (ofStream (streamOf arrivals)).1).delivered
  phase : (∃ exit, exitAfter limit arrivals = some exit ∧ hub.phase? id = some (.gone exit)) ∨
    ∃ rest scanner, exitAfter limit arrivals = none ∧
      (ofStream (streamOf arrivals)).2 = .unfinished rest ∧ rest.length ≤ limit ∧
      Frame.Scanner.Resumes scanner rest ∧ id ∈ hub.registry.live ∧
      hub.phase? id = some (.waiting ⟨limit, rest, scanner⟩)

theorem exitAfter_settled {limit : Nat} {arrivals : List Arrival}
    {standing : Except Exit Connection}
    (quiet : arrivals.getLast?.bind Arrival.exit? = none)
    (settled : Connection.Settled limit (ofStream (streamOf arrivals)).2 standing) :
    (∃ exit, standing = .error exit ∧ exitAfter limit arrivals = some exit) ∨
    ∃ rest scanner, standing = .ok ⟨limit, rest, scanner⟩ ∧ exitAfter limit arrivals = none ∧
      (ofStream (streamOf arrivals)).2 = .unfinished rest ∧ rest.length ≤ limit ∧
      Frame.Scanner.Resumes scanner rest := by
  rw [exitAfter, quiet]
  generalize (ofStream (streamOf arrivals)).2 = remainder at settled
  cases settled with
  | faulty fault => exact .inl ⟨_, rfl, rfl⟩
  | tooLarge rest long => exact .inl ⟨_, rfl, if_pos long⟩
  | waiting rest scanner short resumes =>
      exact .inr ⟨rest, scanner, rfl, if_neg (Nat.not_lt.mpr short), rfl, short, resumes⟩

variable {before hub : Hub} {id : ConnectionId} {limit : Nat} {arrivals : List Arrival}

theorem served_of_examining {frames : List Frame} {buffer : Bytes} {scanner : Frame.Scanner}
    (entries : hub.entries = (before.dispatched id frames).entries)
    (delivered : hub.delivered = (before.dispatched id frames).delivered)
    (live : id ∈ hub.registry.live)
    (phase : hub.phase? id = some (.examining ⟨limit, buffer, scanner⟩))
    (resumes : scanner.Resumes buffer)
    (stream : ofStream (streamOf arrivals) =
      (frames ++ (ofStream buffer).1, (ofStream buffer).2))
    (quiet : arrivals.getLast?.bind Arrival.exit? = none) :
    Served before id limit arrivals (hub.rest id) := by
  have taken := @Connection.settle_eq ⟨limit, buffer, scanner⟩ resumes
  have whole := dispatched_append before id frames (ofStream buffer).1
  have first : (ofStream (streamOf arrivals)).1 = frames ++ (ofStream buffer).1 := by rw [stream]
  have second : (ofStream (streamOf arrivals)).2 = (ofStream buffer).2 := by rw [stream]
  rcases run : Connection.settle ⟨limit, buffer, scanner⟩ with ⟨found, standing⟩
  rw [run] at taken
  obtain ⟨rfl, settled⟩ := taken
  rw [← second] at settled
  have moved := restPhase_examining hub id ⟨limit, buffer, scanner⟩
  rw [run] at moved
  rw [rest_eq phase, moved]
  rcases exitAfter_settled quiet settled with ⟨exit, rfl, ends⟩ |
    ⟨rest, kept, rfl, goes, unfinished, short, again⟩
  · refine ⟨?_, ?_, .inl ⟨exit, ends, phase?_setPhase phase _⟩⟩
    · rw [first, ← whole]
      simp only [setPhase, changePhase, deregister, dispatched, entries]
    · rw [first, ← whole]
      simp only [setPhase, changePhase, deregister, dispatched, delivered]
  · refine ⟨?_, ?_, .inr ⟨rest, kept, goes, unfinished, short, again, live, ?_⟩⟩
    · rw [first, ← whole]
      simp only [setPhase, changePhase, dispatched, entries]
    · rw [first, ← whole]
      simp only [setPhase, changePhase, dispatched, delivered]
    · exact phase?_setPhase phase _

theorem served_opened (before : Hub) (limit : Nat) :
    Served before before.registry.next limit []
      ((before.step (.opened limit)).rest before.registry.next) := by
  have entries : before.entries = (before.dispatched before.registry.next []).entries := by
    rw [dispatched_nil]
  have delivered : before.delivered = (before.dispatched before.registry.next []).delivered := by
    rw [dispatched_nil]
  refine served_of_examining entries delivered ?_ (phase?_start _ _ _)
    (Frame.Scanner.resumes_fresh []) rfl rfl
  · exact List.mem_append_right _ (List.mem_singleton.mpr rfl)

/-- A connection at rest that something leaves as it is stays served. -/
theorem served_of_idle {next : Hub} {phase : Phase} (served : Served before id limit arrivals hub)
    (here : hub.phase? id = some phase) (there : next.phase? id = some phase)
    (entries : next.entries = hub.entries) (delivered : next.delivered = hub.delivered)
    (live : next.registry.live = hub.registry.live) (idle : phase.atRest = true) :
    Served before id limit arrivals (next.rest id) := by
  rw [rest_eq there, restPhase_idle idle]
  refine ⟨entries.trans served.entries, delivered.trans served.delivered, ?_⟩
  have stays : (next.setPhase id phase).phase? id = some phase := phase?_setPhase there phase
  rcases served.phase with ⟨exit, ends, found⟩ |
    ⟨rest, scanner, goes, unfinished, short, resumes, member, found⟩
  · rw [here] at found
    cases found
    exact .inl ⟨exit, ends, stays⟩
  · rw [here] at found
    cases found
    have member : id ∈ next.registry.live := live ▸ member
    exact .inr ⟨rest, scanner, goes, unfinished, short, resumes, member, stays⟩

theorem phase?_arrived (hub : Hub) (id : ConnectionId) (arrival : Arrival) :
    (hub.step (.arrived id arrival)).phase? id =
      (hub.phase? id).map (Phase.meet (hub.registry.isSignalled id) arrival) :=
  phase?_changePhase hub id _

theorem served_follow (served : Served before id limit arrivals hub) (happening : Happening) :
    Served before id limit (arrivals ++ hub.meets id happening) (hub.follow id happening) := by
  cases happening with
  | told =>
      rw [meets, List.append_nil, follow]
      rcases served.phase with ⟨exit, -, found⟩ | ⟨rest, scanner, -, -, -, -, -, found⟩
      · exact served_of_idle served found found rfl rfl rfl rfl
      · exact served_of_idle served found found rfl rfl rfl rfl
  | arrival arrival =>
      have moved := phase?_arrived hub id arrival
      rcases served.phase with ⟨exit, -, found⟩ |
        ⟨rest, scanner, -, unfinished, short, resumes, member, found⟩
      · rw [found] at moved
        rw [meets, found]
        dsimp only
        rw [List.append_nil, follow]
        exact served_of_idle served found moved rfl rfl rfl rfl
      · rw [found, Option.map_some, Phase.meet] at moved
        rw [meets, found]
        dsimp only
        by_cases deaf : arrival = .close ∧ hub.registry.isSignalled id = false
        · rw [if_pos deaf] at moved ⊢
          rw [List.append_nil, follow]
          exact served_of_idle served found moved rfl rfl rfl rfl
        · rw [if_neg deaf, Connection.take_eq] at moved
          rw [if_neg deaf, follow, Happening.event]
          have more : streamOf (arrivals ++ [arrival]) = streamOf arrivals ++ arrival.content := by
            rw [streamOf_append, streamOf_singleton]
          have last : (arrivals ++ [arrival]).getLast?.bind Arrival.exit? = arrival.exit? := by
            simp
          -- an arrival that ends the connection brings no bytes; any other leads to another look
          cases ends : arrival.exit? with
          | some exit =>
              rw [ends] at moved last
              dsimp only at moved
              rw [Arrival.content_of_exit? ends, List.append_nil] at more
              rw [rest_eq moved, restPhase_ending]
              refine ⟨?_, ?_, .inl ⟨exit, ?_, phase?_setPhase moved _⟩⟩
              · rw [more]
                exact served.entries
              · rw [more]
                exact served.delivered
              · rw [exitAfter, more, unfinished, last]
                exact if_neg (Nat.not_lt.mpr short)
          | none =>
              rw [ends] at moved last
              dsimp only at moved
              have stream := Frame.ofStream_append (Prod.ext rfl unfinished) arrival.content
              rw [← more] at stream
              exact served_of_examining served.entries served.delivered member moved
                (resumes.append arrival.content) stream last

theorem served_foldl (served : Served before id limit arrivals hub) (script : List Happening) :
    Served before id limit (arrivals ++ hub.met id script)
      (script.foldl (fun now => now.follow id) hub) := by
  induction script generalizing arrivals hub with
  | nil =>
      rw [met, List.append_nil]
      exact served
  | cons happening rest ih =>
      have next := ih (served_follow served happening)
      rw [List.append_assoc] at next
      exact next

theorem served_serve (before : Hub) (limit : Nat) (script : List Happening) :
    Served before before.registry.next limit (before.heard limit script)
      (before.serve limit script) :=
  served_foldl (served_opened before limit) script

/-- A served connection is gone just when what it has met ends it. -/
theorem Served.gone_iff (served : Served before id limit arrivals hub) (exit : Exit) :
    hub.phase? id = some (.gone exit) ↔ exitAfter limit arrivals = some exit := by
  rcases served.phase with ⟨other, ends, found⟩ | ⟨rest, scanner, goes, -, -, -, -, found⟩
  · rw [found, ends]
    simp
  · rw [found, goes]
    simp

theorem exitAfter_eq_fault {fault : Frame.Fault} (parsed : ∀ other, fault ≠ .tooLarge other) :
    exitAfter limit arrivals = some (.fault fault) ↔
      (ofStream (streamOf arrivals)).2 = .faulty fault := by
  rw [exitAfter]
  cases (ofStream (streamOf arrivals)).2 with
  | faulty other => simp
  | unfinished rest =>
      dsimp only
      split
      · simp [(parsed limit).symm]
      · cases last : arrivals.getLast? with
        | none => simp
        | some arrival => simp [arrival.exit?_ne_fault fault]

theorem exitAfter_eq_tooLarge :
    exitAfter limit arrivals = some (.fault (.tooLarge limit)) ↔
      ∃ rest, (ofStream (streamOf arrivals)).2 = .unfinished rest ∧ limit < rest.length := by
  have parsed := Frame.remainder_ne_tooLarge (streamOf arrivals) limit
  rw [exitAfter]
  cases remainder : (ofStream (streamOf arrivals)).2 with
  | faulty other =>
      rw [remainder] at parsed
      simpa using parsed
  | unfinished rest =>
      dsimp only
      split
      · next long => simp [long]
      · next short =>
        cases last : arrivals.getLast? with
        | none => simp [short]
        | some arrival => simp [short, arrival.exit?_ne_fault (.tooLarge limit)]

theorem exitAfter_of_short {rest : Bytes}
    (unfinished : (ofStream (streamOf arrivals)).2 = .unfinished rest)
    (short : rest.length ≤ limit) :
    exitAfter limit arrivals = arrivals.getLast?.bind Arrival.exit? := by
  rw [exitAfter, unfinished]
  exact if_neg (Nat.not_lt.mpr short)

end Hub

end LogIntake
