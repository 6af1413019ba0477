import Mathlib.Algebra.BigOperators.Ring.List
import LogIntake.Proofs.Joining
import LogIntake.Proofs.RoundTrip
import LogIntake.Proofs.Sending

/-!
# Delivering what was planned

A worker that reaches its target and is seen through by its stream writes its share of batches and
nothing else (`work_of_unhindered`). What is on the stream is read back batch by batch, whatever the
framing (`holds_batches`). As the shares make up the plan, the run as a whole delivers all records
of the plan.
-/
set_option autoImplicit false

namespace LogIntake

/-! ## Frames of a batch -/

namespace Frame

theorem entries_canonical (frame : Frame) :
    frame.canonical.entries =
      frame.content.map fun pair => ⟨frame.tag, pair.timestamp, pair.record.canonical⟩ := by
  cases frame with
  | message tag pair => rfl
  | forward tag pairs => exact List.map_map
  | packed tag pairs => exact List.map_map

end Frame

namespace Load

namespace Plan

def framedAs (plan : Plan) (framing : Frame.Shape) : Plan := { plan with framing }

/-- The entries that a batch is to bring: the payload, as often as a batch has records. -/
def delivered (plan : Plan) (time : UInt64) : Batch :=
  List.replicate plan.perBatch.toNat ⟨plan.tag, time, plan.payload.canonical⟩

variable {plan : Plan} {time : UInt64}

theorem sum_length_delivered (share : UInt64) (time : Nat → UInt64) :
    (((List.range share.toNat).map fun batch => plan.delivered (time batch)).map
      List.length).sum = share.toNat * plan.perBatch.toNat := by
  have each : (List.length ∘ fun batch => plan.delivered (time batch)) =
      fun _ => plan.perBatch.toNat :=
    funext fun batch => List.length_replicate
  rw [List.map_map, each, List.map_const', List.length_range, List.sum_replicate_nat]

theorem content_of_mem_frames {frame : Frame} (member : frame ∈ plan.frames time) :
    ∀ pair ∈ frame.content, pair = ⟨time, plan.payload⟩ := by
  have same : ∀ pair ∈ plan.batch time, pair = ⟨time, plan.payload⟩ :=
    fun pair inside => List.eq_of_mem_replicate inside
  unfold frames at member
  cases framing : plan.framing with
  | message =>
      rw [framing] at member
      obtain ⟨only, inside, rfl⟩ := List.mem_map.mp member
      exact fun pair here => (List.mem_singleton.mp here).trans (same only inside)
  | forward =>
      rw [framing] at member
      obtain rfl := List.mem_singleton.mp member
      exact same
  | packed =>
      rw [framing] at member
      obtain rfl := List.mem_singleton.mp member
      exact same

theorem shallow_of_mem_frames (shallow : plan.payload.depth ≤ 1020) {frame : Frame}
    (member : frame ∈ plan.frames time) : frame.Shallow := by
  intro pair inside
  rw [content_of_mem_frames member pair inside]
  exact Nat.le_trans shallow frame.shape.le_recordLimit

theorem entries_frames :
    ((plan.frames time).map Frame.canonical).flatMap Frame.entries = plan.delivered time := by
  rw [List.flatMap_map]
  simp only [Frame.entries_canonical]
  unfold frames
  cases plan.framing with
  | message =>
      rw [List.flatMap_map]
      simp only [Frame.content, Frame.tag, List.map_singleton]
      rw [← List.map_eq_flatMap]
      exact List.map_replicate
  | forward =>
      rw [List.flatMap_singleton]
      exact List.map_replicate
  | packed =>
      rw [List.flatMap_singleton]
      exact List.map_replicate

end Plan

/-! ## One worker -/

/-- Whether a stream holds batches that bring these entries, and nothing else: the frames of one
batch follow those of another, and nothing follows the last. -/
def Holds (stream : Bytes) (batches : List Batch) : Prop :=
  ∃ frames : List (List Frame), Frame.ofStream stream = (frames.flatten, .unfinished []) ∧
    frames.map (fun batch => batch.flatMap Frame.entries) = batches

theorem Holds.length_entries {stream : Bytes} {batches : List Batch}
    (holds : Holds stream batches) :
    ((Frame.ofStream stream).1.flatMap Frame.entries).length = (batches.map List.length).sum := by
  obtain ⟨frames, read, rfl⟩ := holds
  rw [read, List.flatten_eq_flatMap, List.flatMap_assoc, List.length_flatMap, List.map_map]
  rfl

/-- What a worker writes that nothing stops. -/
def Plan.stream (plan : Plan) (share : UInt64) (time : Nat → UInt64) : Bytes :=
  (List.range share.toNat).flatMap fun batch => plan.batchBytes (time batch)

/-- Whether nothing stops a worker: a dial connects before its retries are used up, and every batch
is seen through. -/
structure Unhindered (plan : Plan) (share : UInt64) (fortune : Fortune) : Prop where
  dials : ∃ dials, dial fortune.dials plan.retries = .connected dials
  through : ∀ batch < share.toNat,
    SeenThrough (plan.batchBytes (fortune.time batch)).length (fortune.writes batch)

variable {plan : Plan} {share : UInt64} {fortune : Fortune}

theorem sendBatches_of_seenThrough {first count : Nat}
    (through : ∀ batch ∈ List.range' first count,
      SeenThrough (plan.batchBytes (fortune.time batch)).length (fortune.writes batch)) :
    sendBatches plan fortune first count =
      ((List.range' first count).flatMap fun batch => plan.batchBytes (fortune.time batch),
        .done) := by
  induction count generalizing first with
  | zero => rfl
  | succ count ih =>
      rw [List.range'_succ] at through ⊢
      have sent := send_of_seenThrough (through first List.mem_cons_self)
      have later := ih fun batch member => through batch (List.mem_cons_of_mem _ member)
      rw [sendBatches]
      simp only [sent, later]
      rw [List.flatMap_cons]

theorem work_of_unhindered (unhindered : Unhindered plan share fortune) (worker : UInt64) :
    work plan worker share fortune = (plan.stream share fortune.time, .sent share) := by
  obtain ⟨dials, connected⟩ := unhindered.dials
  have through : ∀ batch ∈ List.range' 0 share.toNat,
      SeenThrough (plan.batchBytes (fortune.time batch)).length (fortune.writes batch) := by
    intro batch member
    rw [← List.range_eq_range'] at member
    exact unhindered.through batch (List.mem_range.mp member)
  rw [work, connected]
  simp only [sendBatches_of_seenThrough through]
  rw [Plan.stream, List.range_eq_range']

theorem holds_batches {time : Nat → UInt64} (shallow : plan.payload.depth ≤ 1020)
    (fits : ∀ batch < share.toNat, ∀ frame ∈ plan.frames (time batch), frame.Writable) :
    Holds (plan.stream share time)
      ((List.range share.toNat).map fun batch => plan.delivered (time batch)) := by
  let calls := (List.range share.toNat).flatMap fun batch => plan.frames (time batch)
  have writable : ∀ call ∈ calls, call.Writable := by
    intro call member
    obtain ⟨batch, below, inside⟩ := List.mem_flatMap.mp member
    exact fits batch (List.mem_range.mp below) call inside
  have fine : ∀ call ∈ calls, call.Shallow := by
    intro call member
    obtain ⟨batch, -, inside⟩ := List.mem_flatMap.mp member
    exact Plan.shallow_of_mem_frames shallow inside
  have written : plan.stream share time = calls.flatMap Frame.write := by
    rw [List.flatMap_assoc]
    rfl
  have read := Frame.ofStream_flatMap_write writable fine
  refine ⟨(List.range share.toNat).map fun batch => (plan.frames (time batch)).map Frame.canonical,
    ?_, ?_⟩
  · rw [written, read, List.map_flatMap, List.flatMap_def]
  · rw [List.map_map]
    exact List.map_congr_left fun batch _ => Plan.entries_frames

/-! ## All workers -/

theorem map_zipIdx_fst {α β : Type} (list : List α) (f : α → β) :
    (list.zipIdx.map fun numbered => f numbered.1) = list.map f := by
  calc
    _ = (list.zipIdx.map Prod.fst).map f := List.map_map.symm
    _ = list.map f := by rw [List.zipIdx_map_fst]

def Plan.streams (plan : Plan) (fortunes : Nat → Fortune) : List Bytes :=
  (shares plan.batches plan.workers).zipIdx.map fun (share, worker) =>
    plan.stream share (fortunes worker).time

variable {fortunes : Nat → Fortune}

theorem Plan.getElem?_streams {worker : Nat}
    (found : (shares plan.batches plan.workers)[worker]? = some share) :
    (plan.streams fortunes)[worker]? = some (plan.stream share (fortunes worker).time) := by
  rw [streams, List.getElem?_map, List.getElem?_zipIdx, found, Nat.zero_add]
  rfl

theorem run_of_unhindered {order : List WorkerEnd → List WorkerEnd} (sound : plan.fault? = none)
    (unhindered : ∀ worker share, (shares plan.batches plan.workers)[worker]? = some share →
      Unhindered plan share (fortunes worker))
    (joined : ∀ ends, (order ends).Perm ends) :
    run plan fortunes order = .ok (plan.streams fortunes, ⟨plan.records, plan.batches⟩) := by
  have works : plan.works fortunes =
      (shares plan.batches plan.workers).zipIdx.map fun (share, worker) =>
        (plan.stream share (fortunes worker).time, .sent share) := by
    refine List.map_congr_left ?_
    rintro ⟨share, worker⟩ member
    have found := List.mk_mem_zipIdx_iff_getElem?.mp member
    exact work_of_unhindered (unhindered worker share found) _
  have ends : (plan.works fortunes).map Prod.snd =
      (shares plan.batches plan.workers).map .sent := by
    rw [works, List.map_map]
    exact map_zipIdx_fst _ WorkerEnd.sent
  have streams : (plan.works fortunes).map Prod.fst = plan.streams fortunes := by
    rw [works, List.map_map]
    rfl
  rw [Plan.run_eq_outcome sound, ends, Plan.outcome_of_sent sound (joined _), streams]
  rfl

theorem run?_of_room {order : List WorkerEnd → List WorkerEnd}
    (room : plan.workers.toNat < shareLimit) :
    run? plan fortunes order = some (run plan fortunes order) := by
  have present : (shares? plan.batches plan.workers).isNone = false := by
    rw [shares?, if_pos room]
    rfl
  rw [run?, present]
  exact if_neg fun crowded => Bool.false_ne_true crowded.2

theorem sum_length_streams (sound : plan.fault? = none) (shallow : plan.payload.depth ≤ 1020)
    (fits : ∀ worker share, (shares plan.batches plan.workers)[worker]? = some share →
      ∀ batch < share.toNat, ∀ frame ∈ plan.frames ((fortunes worker).time batch),
        frame.Writable) :
    ((plan.streams fortunes).map fun stream =>
      ((Frame.ofStream stream).1.flatMap Frame.entries).length).sum = plan.records.toNat := by
  have each : ∀ numbered ∈ (shares plan.batches plan.workers).zipIdx,
      ((Frame.ofStream (plan.stream numbered.1 (fortunes numbered.2).time)).1.flatMap
        Frame.entries).length = numbered.1.toNat * plan.perBatch.toNat := by
    rintro ⟨share, worker⟩ member
    have found := List.mk_mem_zipIdx_iff_getElem?.mp member
    have holds := holds_batches shallow (fits worker share found)
    rw [holds.length_entries, Plan.sum_length_delivered]
  calc
    _ = ((shares plan.batches plan.workers).zipIdx.map fun numbered =>
          numbered.1.toNat * plan.perBatch.toNat).sum := by
        rw [Plan.streams, List.map_map]
        exact congrArg List.sum (List.map_congr_left each)
    _ = ((shares plan.batches plan.workers).map fun share =>
          share.toNat * plan.perBatch.toNat).sum :=
        congrArg List.sum (map_zipIdx_fst _ fun share : UInt64 => share.toNat * plan.perBatch.toNat)
    _ = plan.batches.toNat * plan.perBatch.toNat := by
        rw [List.sum_map_mul_right, sum_shares _ (Plan.fault?_eq_none.mp sound).2.1]
    _ = plan.records.toNat := Plan.batches_mul_perBatch sound

/-- A load run delivers what was planned. The plan is fit to run, its payload is no deeper than 1020
containers, and the frames of all batches fit the wire; every worker gets a dial through before its
retries are used up, and every batch is seen through, with temporary failures and in whatever
pieces; the workers end in any order. Then the stream of each worker is read to its last byte as its
share of batches, each with as many entries as the plan says, of its tag, the time of the batch and
its payload. These are the same in every framing. All streams together hold as many entries as the
plan has records, which is what the report says. So ends every run that has room for the shares of
its workers. -/
theorem load_run_delivers_its_plan (plan : Plan) (framing : Frame.Shape) (fortunes : Nat → Fortune)
    (order : List WorkerEnd → List WorkerEnd) (sound : plan.fault? = none)
    (shallow : plan.payload.depth ≤ 1020)
    (fits : ∀ worker share, (shares plan.batches plan.workers)[worker]? = some share →
      ∀ batch < share.toNat,
        ∀ frame ∈ (plan.framedAs framing).frames ((fortunes worker).time batch), frame.Writable)
    (unhindered : ∀ worker share, (shares plan.batches plan.workers)[worker]? = some share →
      Unhindered (plan.framedAs framing) share (fortunes worker))
    (joined : ∀ ends, (order ends).Perm ends) :
    ∃ streams : List Bytes,
      run (plan.framedAs framing) fortunes order = .ok (streams, ⟨plan.records, plan.batches⟩) ∧
      (plan.workers.toNat < shareLimit → run? (plan.framedAs framing) fortunes order =
        some (.ok (streams, ⟨plan.records, plan.batches⟩))) ∧
      streams.length = plan.workers.toNat ∧
      (∀ worker share, (shares plan.batches plan.workers)[worker]? = some share →
        ∃ stream, streams[worker]? = some stream ∧
          Holds stream ((List.range share.toNat).map fun batch =>
            plan.delivered ((fortunes worker).time batch))) ∧
      (streams.map fun stream => ((Frame.ofStream stream).1.flatMap Frame.entries).length).sum =
        plan.records.toNat := by
  have fit : (plan.framedAs framing).fault? = none := sound
  have runs := run_of_unhindered fit unhindered joined
  have total := sum_length_streams fit shallow fits
  refine ⟨(plan.framedAs framing).streams fortunes, runs, ?_, ?_, ?_, total⟩
  · intro room
    have enough : (plan.framedAs framing).workers.toNat < shareLimit := room
    rw [run?_of_room enough, runs]
    rfl
  · rw [Plan.streams, List.length_map, List.length_zipIdx, length_shares]
    rfl
  · intro worker share found
    exact ⟨_, Plan.getElem?_streams found, holds_batches shallow (fits worker share found)⟩

def threeRecords : Plan where
  target := "collector:24224"
  framing := .message
  records := 3
  perBatch := 1
  workers := 2
  tag := "t"
  payload := [("a", .int 5)]
  retries := 1
  pause := 0

/-- The second dial connects, and each batch goes through in two pieces after an interruption. -/
def stumbling : Fortune where
  dials := fun dial => dial = 1
  time := fun batch => UInt64.ofNat (7 + batch)
  writes := fun _ => [.failed .interrupted, .accepted 4, .accepted 60]

theorem three_records_delivered_packed :
    threeRecords.fault? = none ∧
    ∃ streams : List Bytes,
      run (threeRecords.framedAs .packed) (fun _ => stumbling) List.reverse =
        .ok (streams, ⟨3, 3⟩) ∧
      streams.length = 2 ∧
      ∃ stream, streams[0]? = some stream ∧
        Holds stream [[⟨"t", 7, [("a", .uint 5)]⟩], [⟨"t", 8, [("a", .uint 5)]⟩]] := by
  have sound : threeRecords.fault? = none := by decide
  have small : ∀ (worker : Nat) (share : UInt64),
      (shares threeRecords.batches threeRecords.workers)[worker]? = some share →
        ∀ batch < share.toNat, batch = 0 ∨ batch = 1 := by
    intro worker share found batch below
    have listed : shares threeRecords.batches threeRecords.workers = [2, 1] := by decide
    rw [listed] at found
    have most : share.toNat ≤ 2 := by
      rcases List.mem_cons.mp (List.mem_of_getElem? found) with rfl | member
      · exact Nat.le_refl 2
      · obtain rfl := List.mem_singleton.mp member
        exact Nat.le_succ 1
    omega
  have record : (Value.map [("a", .int 5)]).Writable :=
    ⟨by decide, by decide, by decide, trivial, trivial⟩
  have delivered := load_run_delivers_its_plan threeRecords .packed (fun _ => stumbling)
    List.reverse sound (by decide) ?_ ?_ List.reverse_perm
  · obtain ⟨streams, runs, -, workers, held, -⟩ := delivered
    exact ⟨sound, streams, runs, workers, held 0 2 (by decide)⟩
  · intro worker share found batch below frame member
    obtain rfl := List.mem_singleton.mp member
    have blob : (Frame.blobOf
        ((threeRecords.framedAs .packed).batch (stumbling.time batch))).length <
          Value.lengthLimit := by
      rcases small worker share found batch below with rfl | rfl <;> decide
    refine ⟨show (Utf8.encode "t").length < Value.lengthLimit by decide, ?_, blob⟩
    intro pair inside
    obtain rfl := List.mem_singleton.mp inside
    exact record
  · intro worker share found
    have second : dial stumbling.dials (threeRecords.framedAs .packed).retries = .connected 2 := by
      rw [dial, redial]
      rfl
    refine ⟨⟨2, second⟩, ?_⟩
    intro batch below
    have goes : ∀ outcome ∈ stumbling.writes 0, outcome.GoesOn := by decide
    refine ⟨stumbling.writes 0, List.prefix_rfl, goes, ?_⟩
    rcases small worker share found batch below with rfl | rfl <;> decide

end Load

end LogIntake
