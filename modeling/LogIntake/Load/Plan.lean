import LogIntake.Frame.Writer

/-!
# Plans of load runs

What a load run is to send: how many records, in batches of which size, over how many workers, and
in frames of which shape. A plan is fit to run when the records make whole batches and there is a
batch for every worker. `shares` spreads the batches over the workers as evenly as they go.
-/
set_option autoImplicit false

namespace LogIntake.Load

structure Plan where
  target : String
  framing : Frame.Shape
  records : UInt64
  perBatch : UInt64
  workers : UInt64
  tag : String
  payload : Record
  /-- How many failed dials a worker puts up with. -/
  retries : UInt64
  /-- Milliseconds to wait after a failed dial. -/
  pause : UInt64
  deriving Repr

inductive Plan.Fault where
  | emptyBatches
  | noWorkers
  | unevenBatches
  /-- There are fewer batches than workers. -/
  | idleWorkers
  deriving DecidableEq, Repr

def Plan.Fault.message : Plan.Fault → String
  | emptyBatches => "the value of 'multi' must be greater than zero"
  | noWorkers => "the value of 'concurrent' must be greater than zero"
  | unevenBatches => "the value of 'count' must be a multiple of 'multi'"
  | idleWorkers =>
    "the division of 'count' by 'multi' must be equal to or greater than 'concurrent'"

namespace Plan

def batches (plan : Plan) : UInt64 := plan.records / plan.perBatch

def fault? (plan : Plan) : Option Fault :=
  if plan.perBatch = 0 then some .emptyBatches
  else if plan.workers = 0 then some .noWorkers
  else if plan.records % plan.perBatch ≠ 0 then some .unevenBatches
  else if plan.batches < plan.workers then some .idleWorkers
  else none

end Plan

/-- How many batches each worker sends; the first workers take one more until none is left over. -/
def shares (batches workers : UInt64) : List UInt64 :=
  (List.range workers.toNat).map fun worker =>
    batches / workers + if worker < (batches % workers).toNat then 1 else 0

/-- Memory ends before it holds this many counts: they take eight bytes each, and no block of memory
is longer than `2 ^ 63 - 1` bytes. -/
def shareLimit : Nat := 0x1000000000000000

def shares? (batches workers : UInt64) : Option (List UInt64) :=
  if workers.toNat < shareLimit then some (shares batches workers) else none

namespace Plan

def batch (plan : Plan) (time : UInt64) : List Stamped :=
  List.replicate plan.perBatch.toNat ⟨time, plan.payload⟩

/-- The frames of one batch: one for each record in message framing, one for all otherwise. -/
def frames (plan : Plan) (time : UInt64) : List Frame :=
  match plan.framing with
  | .message => (plan.batch time).map (.message plan.tag)
  | .forward => [.forward plan.tag (plan.batch time)]
  | .packed => [.packed plan.tag (plan.batch time)]

def batchBytes (plan : Plan) (time : UInt64) : Bytes := (plan.frames time).flatMap Frame.write

end Plan

end LogIntake.Load
