import LogIntake.Hub
import LogIntake.Settings.Basic

/-!
# The listener

The listener admits connections one at a time, as long as there are free slots, and is shut down
once. Calls to admit a connection and calls to shut down move in atomic steps between which anything
else may happen: other calls, arrivals, steps of connections. A call to admit waits for a slot and
for a connection, and gives up at either place when the listener was stopped. A connection is
registered before its call looks once more whether the listener was stopped, and a shutdown stops
the listener before it tells the registered connections to close; so each connection meets one of
the two.
-/
set_option autoImplicit false

namespace LogIntake

inductive Listener.Error where
  | alreadyClosed
  | invalidAddress (address : String)
  | transport (cause : Transport.Failure)
  | tooManySlots
  deriving DecidableEq, Repr

def Listener.Error.message : Listener.Error → String
  | alreadyClosed => "listener already closed"
  | invalidAddress address => s!"invalid bind address '{address}'"
  | transport cause => "io error: " ++ cause.description
  | tooManySlots => "too many connection slots"

inductive Admission where
  | admitted
  | stopped
  | failed (cause : Transport.Failure)
  deriving DecidableEq, Repr

/-- Where a call to admit a connection is. It holds a slot from `ready` on and a connection from
`accepted` on, and looks again whether the listener was stopped once it is `registered`. -/
inductive Admitting where
  | entering
  | seeking
  | ready
  | accepted
  | registered (id : ConnectionId)
  | starting (id : ConnectionId)
  | withdrawing (id : ConnectionId)
  | releasing (result : Admission)
  | done (result : Admission)
  deriving DecidableEq, Repr

/-- Where a call to shut down is: about to take the listener, to stop it, to tell the registered
connections to close, to drop it. -/
inductive Closing where
  | entering
  | stopping
  | telling
  | dropping
  | done (result : Except Listener.Error Unit)
  deriving Repr

structure Listener where
  capacity : Nat
  limit : Nat
  free : Nat := capacity
  /-- Whether the listener is there for calls to find. -/
  present : Bool := true
  stopped : Bool := false
  hub : Hub := {}
  /-- The started connections that hold a slot. -/
  holders : List ConnectionId := []
  admitting : List Admitting := []
  closing : List Closing := []
  deriving Repr, Inhabited

namespace Listener

/-- What can happen at a listener. Calls are known by their number. -/
inductive Event where
  | call
  /-- A call to admit takes a step that waits for nothing from outside but a slot. -/
  | proceed (call : Nat)
  | connect (call : Nat)
  | fail (call : Nat) (cause : Transport.Failure)
  | notice (call : Nat)
  | shut
  | shutProceed (call : Nat)
  | arrive (id : ConnectionId) (arrival : Arrival)
  | work (id : ConnectionId)
  | release (id : ConnectionId)
  deriving Repr

/-- The step of a call to admit, in which it also acts on the listener; `none` while it waits. -/
def proceed? (listener : Listener) : Admitting → Option (Listener × Admitting)
  | .entering =>
    some (listener, if listener.present then .seeking else .done .stopped)
  | .seeking =>
    match listener.free with
    | 0 => none
    | free + 1 => some ({ listener with free }, .ready)
  | .ready => none
  | .accepted =>
    let (id, hub) := listener.hub.register
    some ({ listener with hub }, .registered id)
  | .registered id =>
    some (listener, if listener.stopped then .withdrawing id else .starting id)
  | .starting id =>
    let hub := listener.hub.start id listener.limit
    some ({ listener with hub, holders := listener.holders ++ [id] }, .done .admitted)
  | .withdrawing id =>
    some ({ listener with hub := listener.hub.deregister id }, .releasing .stopped)
  | .releasing result => some ({ listener with free := listener.free + 1 }, .done result)
  | .done _ => none

def notice? : Admitting → Option Admitting
  | .seeking => some (.done .stopped)
  | .ready => some (.releasing .stopped)
  | _ => none

def shutProceed (listener : Listener) : Closing → Listener × Closing
  | .entering =>
    if listener.present then ({ listener with present := false }, .stopping)
    else (listener, .done (.error .alreadyClosed))
  | .stopping => ({ listener with stopped := true }, .telling)
  | .telling => ({ listener with hub := listener.hub.closeAll }, .dropping)
  | .dropping => (listener, .done (.ok ()))
  | .done result => (listener, .done result)

def setAdmitting (listener : Listener) (call : Nat) (state : Admitting) : Listener :=
  { listener with admitting := listener.admitting.set call state }

def setClosing (listener : Listener) (call : Nat) (state : Closing) : Listener :=
  { listener with closing := listener.closing.set call state }

/-- The listener after an event. An event that cannot happen changes nothing. -/
def step (listener : Listener) : Event → Listener
  | .call => { listener with admitting := listener.admitting ++ [.entering] }
  | .proceed call =>
    match (listener.admitting[call]?).bind listener.proceed? with
    | some (listener, state) => listener.setAdmitting call state
    | none => listener
  | .connect call =>
    match listener.admitting[call]? with
    | some .ready => listener.setAdmitting call .accepted
    | _ => listener
  | .fail call cause =>
    match listener.admitting[call]? with
    | some .ready => listener.setAdmitting call (.releasing (.failed cause))
    | _ => listener
  | .notice call =>
    match (listener.admitting[call]?).bind notice?, listener.stopped with
    | some state, true => listener.setAdmitting call state
    | _, _ => listener
  | .shut => { listener with closing := listener.closing ++ [.entering] }
  | .shutProceed call =>
    match listener.closing[call]? with
    | some state =>
      let (listener, state) := listener.shutProceed state
      listener.setClosing call state
    | none => listener
  | .arrive id arrival => { listener with hub := listener.hub.step (.arrived id arrival) }
  | .work id => { listener with hub := listener.hub.step (.stepped id) }
  | .release id =>
    match listener.hub.phase? id with
    | some (.gone _) =>
      if id ∈ listener.holders then
        { listener with holders := listener.holders.erase id, free := listener.free + 1 }
      else listener
    | _ => listener

def run (listener : Listener) (events : List Event) : Listener := events.foldl step listener

/-! ## Binding -/

inductive Binding where
  | bound
  | unresolved
  | refused (cause : Transport.Failure)
  deriving DecidableEq, Repr

def slotLimit : Nat := 0x1fffffffffffffff

/-- A listener at the address of the settings, on a machine where listening at an address comes to
`bindings`. -/
def bind (bindings : String → Binding) (settings : Settings) : Except Error Listener :=
  match bindings settings.bindAddress with
  | .unresolved => .error (.invalidAddress settings.bindAddress)
  | .refused cause => .error (.transport cause)
  | .bound =>
    if settings.maxConnections.toNat ≤ slotLimit then
      .ok { capacity := settings.maxConnections.toNat, limit := settings.maxFrameSize.toNat }
    else .error .tooManySlots

end Listener

end LogIntake
