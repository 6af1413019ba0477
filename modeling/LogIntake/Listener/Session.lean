import LogIntake.Listener.Basic

/-!
# Sessions

A listener that is kept serving, together with its clients, between moments at which everything has
settled: whatever was sent has arrived, every connection waits or is gone, slots were given back,
and one call to admit waits for the next connection. Clients that connect while no slot is free wait
in line, unaccepted.
-/
set_option autoImplicit false

namespace LogIntake.Listener

structure Client where
  name : String
  /-- The connection at the listener, once there is one. -/
  id : Option ConnectionId := none
  /-- What was sent and has not arrived. -/
  sent : List Arrival := []
  held : Bool := true
  deriving Repr

structure Session where
  listener : Listener
  reachable : Bool
  clients : List Client := []
  deriving Repr

namespace Session

/-- The number of the call that serves. -/
def server (session : Session) : Nat := session.listener.admitting.length - 1

def serving (session : Session) : Bool :=
  match session.listener.admitting[session.server]? with
  | some (.done _) | none => false
  | _ => true

def ofListener (listener : Listener) (reachable : Bool) : Session :=
  let first := listener.admitting.length
  ⟨listener.run [.call, .proceed first, .proceed first], reachable, []⟩

def arriveAll (listener : Listener) (id : ConnectionId) (arrivals : List Arrival) : Listener :=
  arrivals.foldl (fun listener arrival =>
    let listener := listener.step (.arrive id arrival)
    { listener with hub := listener.hub.rest id }) listener

/-- Lets everything that a client sent arrive, and the signal to close after it if that was given.
-/
def deliver (listener : Listener) (client : Client) : Listener × Client :=
  match client.id with
  | none => (listener, client)
  | some id =>
    let listener := arriveAll listener id client.sent
    let told := if listener.hub.registry.isSignalled id then [Arrival.close] else []
    ((arriveAll listener id told).step (.release id), { client with sent := [] })

def deliverAll (session : Session) : Session :=
  let (listener, clients) := session.clients.foldl (fun (listener, clients) client =>
    let (listener, client) := deliver listener client
    (listener, clients ++ [client])) (session.listener, [])
  { session with listener, clients }

def assign (id : ConnectionId) : List Client → List Client
  | [] => []
  | client :: rest =>
    if client.id.isNone then { client with id := some id } :: rest else client :: assign id rest

/-- Admits the first client in line, if there is one and a slot for it, and begins the next call. A
stopped listener ends the call instead. -/
def admitNext (session : Session) : Session :=
  let call := session.server
  let listener := session.listener.step (.proceed call)
  let session := { session with listener }
  if listener.stopped then
    { session with listener := listener.run [.notice call, .proceed call] }
  else
    match listener.admitting[call]?, session.clients.find? (·.id.isNone) with
    | some .ready, some _ =>
      { session with
        listener := listener.run
          [.connect call, .proceed call, .proceed call, .proceed call,
            .call, .proceed (call + 1), .proceed (call + 1)]
        clients := assign listener.hub.registry.next session.clients }
    | _, _ => session

/-- Lets the session go on until nothing moves. Each round but the last admits a client. -/
def settle (session : Session) : Session :=
  let served := session.clients.foldl (fun session _ => session.deliverAll.admitNext) session
  served.deliverAll.admitNext

def connect? (session : Session) (name : String) : Option Session :=
  if session.reachable && session.listener.present then
    let client : Client := { name }
    some ({ session with clients := session.clients ++ [client] }).settle
  else none

/-- What a client does that holds its end: it sends, and goes on holding it or not. -/
def send? (session : Session) (name : String) (arrival : Arrival) (hold : Bool) : Option Session :=
  if session.clients.any fun client => client.name = name && client.held then
    let clients := session.clients.map fun client =>
      if client.name = name && client.held then
        { client with sent := client.sent ++ [arrival], held := hold }
      else client
    some ({ session with clients }).settle
  else none

def shutdown (session : Session) : Except Error Unit × Session :=
  let call := session.listener.closing.length
  let listener := session.listener.run
    [.shut, .shutProceed call, .shutProceed call, .shutProceed call, .shutProceed call]
  let result := match listener.closing[call]? with
    | some (.done result) => result
    | _ => .ok ()
  (result, ({ session with listener }).settle)

def closedByServer (session : Session) : List String :=
  let closed (client : Client) : Bool :=
    match client.id with
    | some id => ((session.listener.hub.phase? id).map Phase.streamClosed).getD false
    | none => session.listener.stopped
  (session.clients.filter fun client => client.held && closed client).map Client.name

end Session

end LogIntake.Listener
