import LogIntake.Frame.Fault
import LogIntake.Load.Dial
import LogIntake.Load.Plan
import LogIntake.Load.Send

/-!
# Load runs

How workers end, in which order they are joined, and what a whole run comes to. A worker that cannot
reach the target ends the run at once; any other failure only ends its worker, and the first of them
is the run's result after all workers are joined.
-/
set_option autoImplicit false

namespace LogIntake.Load

inductive Misfit where
  | plan (fault : Plan.Fault)
  | payloadText
  | payloadKind (kind : Kind)
  | other (reason : String)
  deriving DecidableEq, Repr

def Misfit.message : Misfit → String
  | plan fault => fault.message
  | payloadText => "invalid --data"
  | payloadKind kind => "--data must be a JSON object, got " ++ kind.name
  | other reason => reason

inductive Error where
  | misfit (cause : Misfit)
  | exhausted (worker dials : UInt64)
  | transport (worker : UInt64) (cause : Transport.Failure)
  | protocol (fault : Frame.Fault)
  /-- A worker came to an end that is none of its own. -/
  | broken
  deriving DecidableEq, Repr

def Error.message : Error → String
  | misfit cause => cause.message
  | exhausted worker dials => s!"worker {worker}: retry count exceeded after {dials} dial attempts"
  | transport worker cause => s!"worker {worker}: transport error: {cause.description}"
  | protocol fault => fault.message
  | broken => "worker task failed"

inductive WorkerEnd where
  | sent (batches : UInt64)
  | failed (error : Error)
  | stopped
  deriving DecidableEq, Repr

/-- What a run came to, and the ends of the workers that were not waited for. -/
structure Joined where
  result : Except Error UInt64
  unjoined : List WorkerEnd
  deriving Repr

/-- Joins workers in the order in which they end, with the batches sent and the first failure so
far. -/
def joinFrom (batches : UInt64) (failure : Option Error) : List WorkerEnd → Joined
  | [] =>
    match failure with
    | some error => ⟨.error error, []⟩
    | none => ⟨.ok batches, []⟩
  | .sent more :: rest => joinFrom (batches + more) failure rest
  | .failed (.exhausted worker dials) :: rest => ⟨.error (.exhausted worker dials), rest⟩
  | .failed error :: rest => joinFrom batches (failure <|> some error) rest
  | .stopped :: rest => joinFrom batches failure rest

def join (ends : List WorkerEnd) : Joined := joinFrom 0 none ends

structure Report where
  records : UInt64
  batches : UInt64
  deriving DecidableEq, Repr

structure Elapsed where
  seconds : UInt64
  nanoseconds : UInt32
  deriving DecidableEq, Repr

/-- The span of some seconds and nanoseconds, of which there may be more than make a second, unless
the seconds are then too many for 64 bits. -/
def Elapsed.ofParts? (seconds : UInt64) (nanoseconds : UInt32) : Option Elapsed :=
  let whole := seconds.toNat + nanoseconds.toNat / 1000000000
  if whole < UInt64.size then some ⟨UInt64.ofNat whole, nanoseconds % 1000000000⟩ else none

def Elapsed.toFloat (elapsed : Elapsed) : Float :=
  elapsed.seconds.toFloat + elapsed.nanoseconds.toFloat / 1e9

/-- Records for each second of a run; 0 for a run that took no time. -/
def rate (records : UInt64) (elapsed : Elapsed) : Float :=
  if elapsed.toFloat > 0 then records.toFloat / elapsed.toFloat else 0

def Plan.report (plan : Plan) (batches : UInt64) : Report := ⟨batches * plan.perBatch, batches⟩

/-- What a worker meets on its way: which dials connect, the time at each batch, and how the writes
of each batch end. -/
structure Fortune where
  dials : Nat → Bool
  time : Nat → UInt64
  writes : Nat → List WriteOutcome

def sendBatches (plan : Plan) (fortune : Fortune) (first : Nat) : (count : Nat) → Bytes × Sent
  | 0 => ([], .done)
  | count + 1 =>
    let sending := send (plan.batchBytes (fortune.time first)) (fortune.writes first)
    match sending.result with
    | .done =>
      let (accepted, result) := sendBatches plan fortune (first + 1) count
      (sending.accepted ++ accepted, result)
    | stopped => (sending.accepted, stopped)

/-- One worker: it dials, then sends its share of batches. Gives the bytes that its stream took, and
how it ended. A worker whose writes do not end is stopped. -/
def work (plan : Plan) (worker share : UInt64) (fortune : Fortune) : Bytes × WorkerEnd :=
  match dial fortune.dials plan.retries with
  | .exhausted dials => ([], .failed (.exhausted worker dials))
  | .connected _ =>
    match sendBatches plan fortune 0 share.toNat with
    | (accepted, .done) => (accepted, .sent share)
    | (accepted, .failed cause) => (accepted, .failed (.transport worker cause))
    | (accepted, .pending _) => (accepted, .stopped)

/-- A whole run. `fortunes` says what each worker meets, `order` in which order the workers end.
Gives the bytes of each worker's stream, and the report. -/
def run (plan : Plan) (fortunes : Nat → Fortune) (order : List WorkerEnd → List WorkerEnd) :
    Except Error (List Bytes × Report) :=
  match plan.fault? with
  | some fault => .error (.misfit (.plan fault))
  | none =>
    let works := (shares plan.batches plan.workers).zipIdx.map fun (share, worker) =>
      work plan (UInt64.ofNat worker) share (fortunes worker)
    match (join (order (works.map Prod.snd))).result with
    | .ok batches => .ok (works.map Prod.fst, plan.report batches)
    | .error error => .error error

/-- A whole run, if there is room for the shares of its workers. A plan that is not fit to run has
none. -/
def run? (plan : Plan) (fortunes : Nat → Fortune) (order : List WorkerEnd → List WorkerEnd) :
    Option (Except Error (List Bytes × Report)) :=
  if plan.fault? = none ∧ (shares? plan.batches plan.workers).isNone then none
  else some (run plan fortunes order)

end LogIntake.Load
