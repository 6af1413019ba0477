import LogIntake.Connection
import LogIntake.Registry

/-!
# The hub

Connections that share a registry, a counter of entries and a way downstream. The hub moves in
atomic steps, so that connections may interleave between any two of them: looking at a buffer,
counting the entries of a frame, handing them on, closing a stream and leaving the registry are one
step each. What went downstream is kept with the connection that it came from. A connection that is
not disturbed comes to rest, where it waits for an arrival or is gone: every step until then lowers
its effort (`effort_stepPhase`).
-/
set_option autoImplicit false

namespace LogIntake

/-- Where a connection is in its work: what it waits for, or is about to do next. -/
inductive Phase where
  | waiting (connection : Connection)
  | examining (connection : Connection)
  | counting (frame : Frame) (after : Connection)
  | handing (batch : Batch) (after : Connection)
  | ending (exit : Exit)
  | leaving (exit : Exit)
  | gone (exit : Exit)
  deriving Repr

namespace Phase

/-- Whether the connection moves only when something arrives, or never again. -/
def atRest : Phase → Bool
  | waiting _ | gone _ => true
  | _ => false

def exit? : Phase → Option Exit
  | ending exit | leaving exit | gone exit => some exit
  | _ => none

def streamClosed : Phase → Bool
  | leaving _ | gone _ => true
  | _ => false

/-- What an arrival makes of a connection. It meets a waiting connection only, and the signal to
close only one that was told. -/
def meet (told : Bool) (arrival : Arrival) : Phase → Phase
  | waiting connection =>
    if arrival = .close ∧ told = false then waiting connection
    else match connection.take arrival with
      | .ok connection => examining connection
      | .error exit => ending exit
  | phase => phase

/-- A bound on the steps to the next rest. A look that finds a frame shortens the buffer, and the
frame takes two more steps. -/
def effort : Phase → Nat
  | waiting _ | gone _ => 0
  | examining connection => 3 * connection.buffer.length + 3
  | counting _ after => 3 * after.buffer.length + 5
  | handing _ after => 3 * after.buffer.length + 4
  | ending _ => 2
  | leaving _ => 1

end Phase

structure Hub where
  registry : Registry := {}
  entries : UInt64 := 0
  /-- What went downstream, in order, with the connection that it came from. -/
  delivered : List (ConnectionId × Batch) := []
  phases : List (ConnectionId × Phase) := []
  deriving Repr, Inhabited

namespace Hub

def register (hub : Hub) : ConnectionId × Hub :=
  let (id, registry) := hub.registry.register
  (id, { hub with registry })

def deregister (hub : Hub) (id : ConnectionId) : Hub :=
  { hub with registry := hub.registry.deregister id }

def start (hub : Hub) (id : ConnectionId) (limit : Nat) : Hub :=
  { hub with
    phases := hub.phases.filter (fun entry => entry.1 ≠ id) ++ [(id, .examining { limit })] }

def closeAll (hub : Hub) : Hub := { hub with registry := hub.registry.closeAll }

def phase? (hub : Hub) (id : ConnectionId) : Option Phase := hub.phases.lookup id

def changePhase (hub : Hub) (id : ConnectionId) (change : Phase → Phase) : Hub :=
  { hub with
    phases := hub.phases.map fun entry => if entry.1 = id then (id, change entry.2) else entry }

def setPhase (hub : Hub) (id : ConnectionId) (phase : Phase) : Hub :=
  hub.changePhase id fun _ => phase

/-- The step of a connection in this phase, in which it also acts on the shared state. -/
def stepPhase (hub : Hub) (id : ConnectionId) : Phase → Hub × Phase
  | .examining connection =>
    match connection.examine with
    | .frame frame after => (hub, .counting frame after)
    | .wait after => (hub, .waiting after)
    | .fault fault => (hub, .ending (.fault fault))
  | .counting frame after =>
    let counted := { hub with entries := hub.entries + UInt64.ofNat frame.size }
    match frame.delivery with
    | [] => (counted, .examining after)
    | batch :: _ => (counted, .handing batch after)
  | .handing batch after =>
    ({ hub with delivered := hub.delivered ++ [(id, batch)] }, .examining after)
  | .ending exit => (hub, .leaving exit)
  | .leaving exit => (hub.deregister id, .gone exit)
  | phase => (hub, phase)

inductive Event where
  | opened (limit : Nat)
  /-- A waiting connection meets an arrival; the signal to close only if it was given. -/
  | arrived (id : ConnectionId) (arrival : Arrival)
  | stepped (id : ConnectionId)
  | closedAll
  /-- A connection is dropped wherever it is. -/
  | discarded (id : ConnectionId)
  deriving Repr

def step (hub : Hub) : Event → Hub
  | .opened limit =>
    let (id, hub) := hub.register
    hub.start id limit
  | .arrived id arrival =>
    let told := hub.registry.isSignalled id
    hub.changePhase id (Phase.meet told arrival)
  | .stepped id =>
    match hub.phase? id with
    | some phase =>
      let (hub, phase) := hub.stepPhase id phase
      hub.setPhase id phase
    | none => hub
  | .closedAll => hub.closeAll
  | .discarded id =>
    { hub.deregister id with phases := hub.phases.filter fun entry => entry.1 ≠ id }

def run (hub : Hub) (events : List Event) : Hub := events.foldl step hub

theorem effort_stepPhase (hub : Hub) (id : ConnectionId) {phase : Phase}
    (h : phase.atRest = false) : (hub.stepPhase id phase).2.effort < phase.effort := by
  cases phase with
  | waiting connection => cases h
  | gone exit => cases h
  | examining connection =>
    simp only [stepPhase]
    split
    · next look =>
      have := Connection.length_of_examine look
      simp only [Phase.effort]
      omega
    · exact Nat.succ_pos _
    · simp only [Phase.effort]
      omega
  | counting frame after =>
    simp only [stepPhase]
    split
    · exact Nat.lt_succ_of_lt (Nat.lt_succ_self _)
    · exact Nat.lt_succ_self _
  | handing batch after => exact Nat.lt_succ_self _
  | ending exit => exact Nat.lt_succ_self _
  | leaving exit => exact Nat.lt_succ_self _

def restPhase (hub : Hub) (id : ConnectionId) (phase : Phase) : Hub × Phase :=
  if _busy : phase.atRest = false then
    let next := hub.stepPhase id phase
    restPhase next.1 id next.2
  else (hub, phase)
termination_by phase.effort
decreasing_by exact effort_stepPhase hub id _busy

/-- The hub after a connection stepped on to its next rest, undisturbed. -/
def rest (hub : Hub) (id : ConnectionId) : Hub :=
  match hub.phase? id with
  | some phase =>
    let (hub, phase) := hub.restPhase id phase
    hub.setPhase id phase
  | none => hub

end Hub

end LogIntake
