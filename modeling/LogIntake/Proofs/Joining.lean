import LogIntake.Proofs.Sharing

/-!
# Joining workers

Workers are joined in the order in which they end. Until one of them has dialled in vain, joining
adds up what was sent and remembers the first failure (`joinFrom_append`). So a run succeeds if and
only if no worker failed (`isOk_join_iff`), and then with the sum of what they sent
(`join_of_unfailed`): neither depends on the order.
-/
set_option autoImplicit false

namespace LogIntake.Load

def WorkerEnd.batches : WorkerEnd → Nat
  | sent batches => batches.toNat
  | failed _ | stopped => 0

def WorkerEnd.failure? : WorkerEnd → Option Error
  | failed error => some error
  | sent _ | stopped => none

def WorkerEnd.exhausted : WorkerEnd → Bool
  | failed (.exhausted _ _) => true
  | _ => false

theorem exists_of_exhausted {last : WorkerEnd} (exhausted : last.exhausted = true) :
    ∃ worker dials, last = .failed (.exhausted worker dials) := by
  cases last with
  | sent batches => cases exhausted
  | stopped => cases exhausted
  | failed error =>
      cases error with
      | exhausted worker dials => exact ⟨worker, dials, rfl⟩
      | misfit cause => cases exhausted
      | transport worker cause => cases exhausted
      | protocol fault => cases exhausted
      | broken => cases exhausted

theorem joinFrom_failed {error : Error} (mild : (WorkerEnd.failed error).exhausted = false)
    (batches : UInt64) (failure : Option Error) (rest : List WorkerEnd) :
    joinFrom batches failure (.failed error :: rest) =
      joinFrom batches (failure <|> some error) rest := by
  cases error with
  | exhausted worker dials => cases mild
  | misfit cause => rfl
  | transport worker cause => rfl
  | protocol fault => rfl
  | broken => rfl

theorem joinFrom_append {before : List WorkerEnd}
    (mild : ∀ last ∈ before, last.exhausted = false) (batches : UInt64) (failure : Option Error)
    (after : List WorkerEnd) :
    joinFrom batches failure (before ++ after) =
      joinFrom (batches + UInt64.ofNat (before.map WorkerEnd.batches).sum)
        (failure <|> before.findSome? WorkerEnd.failure?) after := by
  -- a step changes the sum and the first failure, and nothing else
  induction before generalizing batches failure with
  | nil => cases failure <;> simp
  | cons last rest ih =>
      have later := ih fun other member => mild other (List.mem_cons_of_mem _ member)
      rw [List.cons_append, List.map_cons, List.sum_cons, UInt64.ofNat_add, ← UInt64.add_assoc]
      cases last with
      | sent more =>
          rw [joinFrom, later, WorkerEnd.batches, UInt64.ofNat_toNat]
          rfl
      | failed error =>
          rw [joinFrom_failed (mild _ List.mem_cons_self), later]
          cases failure <;> simp [List.findSome?_cons, WorkerEnd.batches, WorkerEnd.failure?]
      | stopped =>
          rw [joinFrom, later]
          simp [List.findSome?_cons, WorkerEnd.batches, WorkerEnd.failure?]

theorem join_of_exhausted {before : List WorkerEnd}
    (mild : ∀ last ∈ before, last.exhausted = false) (worker dials : UInt64)
    (after : List WorkerEnd) :
    join (before ++ .failed (.exhausted worker dials) :: after) =
      ⟨.error (.exhausted worker dials), after⟩ := by
  rw [join, joinFrom_append mild, joinFrom]

theorem join_of_mild {ends : List WorkerEnd} (mild : ∀ last ∈ ends, last.exhausted = false) :
    join ends =
      match ends.findSome? WorkerEnd.failure? with
      | some error => ⟨.error error, []⟩
      | none => ⟨.ok (UInt64.ofNat (ends.map WorkerEnd.batches).sum), []⟩ := by
  have joined := joinFrom_append mild 0 none []
  rw [List.append_nil] at joined
  rw [join, joined]
  cases found : ends.findSome? WorkerEnd.failure? <;> simp [joinFrom]

theorem exhausted_of_unfailed {last : WorkerEnd} (unfailed : last.failure? = none) :
    last.exhausted = false := by
  cases last with
  | sent batches => rfl
  | failed error => cases unfailed
  | stopped => rfl

theorem join_of_unfailed {ends : List WorkerEnd} (unfailed : ∀ last ∈ ends, last.failure? = none) :
    join ends = ⟨.ok (UInt64.ofNat (ends.map WorkerEnd.batches).sum), []⟩ := by
  have mild : ∀ last ∈ ends, last.exhausted = false := by
    intro last member
    exact exhausted_of_unfailed (unfailed last member)
  rw [join_of_mild mild, List.findSome?_eq_none_iff.mpr unfailed]

theorem join_of_failed {before after : List WorkerEnd} {error : Error}
    (mild : ∀ last ∈ before ++ .failed error :: after, last.exhausted = false)
    (unfailed : ∀ last ∈ before, last.failure? = none) :
    join (before ++ .failed error :: after) = ⟨.error error, []⟩ := by
  have first : (before ++ .failed error :: after).findSome? WorkerEnd.failure? = some error := by
    rw [List.findSome?_append, List.findSome?_eq_none_iff.mpr unfailed]
    rfl
  rw [join_of_mild mild, first]

theorem isOk_join_iff {ends : List WorkerEnd} :
    (join ends).result.isOk = true ↔ ∀ last ∈ ends, last.failure? = none := by
  constructor
  · intro succeeds
    cases found : ends.find? WorkerEnd.exhausted with
    | some last =>
        obtain ⟨exhausted, before, after, rfl, mild⟩ := List.find?_eq_some_iff_append.mp found
        obtain ⟨worker, dials, rfl⟩ := exists_of_exhausted exhausted
        rw [join_of_exhausted (by simpa using mild)] at succeeds
        cases succeeds
    | none =>
        have mild : ∀ last ∈ ends, last.exhausted = false := by simpa using found
        rw [join_of_mild mild] at succeeds
        cases first : ends.findSome? WorkerEnd.failure? with
        | some error =>
            rw [first] at succeeds
            cases succeeds
        | none => exact List.findSome?_eq_none_iff.mp first
  · intro unfailed
    rw [join_of_unfailed unfailed]
    rfl

/-! ## The workers of a plan -/

namespace Plan

/-- Whether the workers of a plan can end like this, in this order: each of them sent its share or
failed, and none was stopped from outside. -/
def MayEnd (plan : Plan) (ends : List WorkerEnd) : Prop :=
  ∃ lasts, ends.Perm lasts ∧
    List.Forall₂ (fun share last => last = .sent share ∨ ∃ error, last = .failed error)
      (shares plan.batches plan.workers) lasts

def outcome (plan : Plan) (ends : List WorkerEnd) : Except Error Report :=
  (join ends).result.map plan.report

/-- What the workers of a run write and how they end, worker by worker. -/
def works (plan : Plan) (fortunes : Nat → Fortune) : List (Bytes × WorkerEnd) :=
  (shares plan.batches plan.workers).zipIdx.map fun (share, worker) =>
    work plan (UInt64.ofNat worker) share (fortunes worker)

variable {plan : Plan} {ends : List WorkerEnd}

theorem work_cases (worker share : UInt64) (fortune : Fortune) :
    (work plan worker share fortune).2 = .sent share ∨
      (∃ error, (work plan worker share fortune).2 = .failed error) ∨
        (work plan worker share fortune).2 = .stopped := by
  unfold work
  split
  · exact Or.inr (Or.inl ⟨_, rfl⟩)
  · split
    · exact Or.inl rfl
    · exact Or.inr (Or.inl ⟨_, rfl⟩)
    · exact Or.inr (Or.inr rfl)

theorem mayEnd_works (fortunes : Nat → Fortune)
    (unstopped : ∀ last ∈ (plan.works fortunes).map Prod.snd, last ≠ .stopped) :
    plan.MayEnd ((plan.works fortunes).map Prod.snd) := by
  refine ⟨_, List.Perm.refl _, ?_⟩
  unfold works at unstopped ⊢
  rw [List.map_map] at unstopped ⊢
  nth_rewrite 1 [← List.zipIdx_map_fst 0 (shares plan.batches plan.workers)]
  rw [List.forall₂_map_left_iff, List.forall₂_map_right_iff, List.forall₂_same]
  rintro ⟨share, worker⟩ member
  rcases work_cases (UInt64.ofNat worker) share (fortunes worker) with sent | failed | stopped
  · exact Or.inl sent
  · exact Or.inr failed
  · exact absurd stopped (unstopped _ (List.mem_map_of_mem member))

theorem run_eq_outcome (sound : plan.fault? = none) (fortunes : Nat → Fortune)
    (order : List WorkerEnd → List WorkerEnd) :
    run plan fortunes order =
      (plan.outcome (order ((plan.works fortunes).map Prod.snd))).map fun report =>
        ((plan.works fortunes).map Prod.fst, report) := by
  rw [run, sound]
  dsimp only
  rw [outcome, works]
  cases (join (order (((shares plan.batches plan.workers).zipIdx.map fun (share, worker) =>
    work plan (UInt64.ofNat worker) share (fortunes worker)).map Prod.snd))).result <;> rfl

theorem sum_batches_of_sent (sound : plan.fault? = none)
    (sent : ends.Perm ((shares plan.batches plan.workers).map .sent)) :
    (ends.map WorkerEnd.batches).sum = plan.batches.toNat := by
  rw [(sent.map WorkerEnd.batches).sum_nat, List.map_map,
    ← sum_shares plan.batches (fault?_eq_none.mp sound).2.1]
  rfl

theorem outcome_of_sent (sound : plan.fault? = none)
    (sent : ends.Perm ((shares plan.batches plan.workers).map .sent)) :
    plan.outcome ends = .ok ⟨plan.records, plan.batches⟩ := by
  have unfailed : ∀ last ∈ ends, last.failure? = none := by
    intro last member
    obtain ⟨share, -, rfl⟩ := List.mem_map.mp (sent.mem_iff.mp member)
    rfl
  rw [outcome, join_of_unfailed unfailed, sum_batches_of_sent sound sent, UInt64.ofNat_toNat]
  exact congrArg Except.ok (report_batches sound)

theorem eq_sent_of_unfailed {shares : List UInt64} {lasts : List WorkerEnd}
    (possible : List.Forall₂ (fun share last => last = .sent share ∨ ∃ error, last = .failed error)
      shares lasts) (unfailed : ∀ last ∈ lasts, last.failure? = none) :
    lasts = shares.map .sent := by
  induction possible with
  | nil => rfl
  | @cons share last shares lasts here _ ih =>
      have rest := ih fun other member => unfailed other (List.mem_cons_of_mem _ member)
      rcases here with rfl | ⟨error, rfl⟩
      · rw [List.map_cons, ← rest]
      · have failed := unfailed _ List.mem_cons_self
        cases failed

theorem MayEnd.perm_sent (possible : plan.MayEnd ends)
    (unfailed : ∀ last ∈ ends, last.failure? = none) :
    ends.Perm ((shares plan.batches plan.workers).map .sent) := by
  obtain ⟨lasts, order, each⟩ := possible
  have same := eq_sent_of_unfailed each fun last member =>
    unfailed last (order.mem_iff.mpr member)
  rwa [← same]

theorem isOk_outcome_iff :
    (plan.outcome ends).isOk = true ↔ ∀ last ∈ ends, last.failure? = none := by
  rw [← isOk_join_iff, outcome]
  cases (join ends).result <;> rfl

theorem unfailed_of_outcome {report : Report} (succeeds : plan.outcome ends = .ok report) :
    ∀ last ∈ ends, last.failure? = none := by
  apply isOk_outcome_iff.mp
  rw [succeeds]
  rfl

/-- The workers of a plan that is fit to run settle what the run comes to, in whatever order they
end: with their shares sent, in vain, or with another failure, of which a breakdown is one. If some
worker dialled in vain, the first of these is the result, whatever failed before it, and no one
after it is waited for. Otherwise the first failure is the result, once all are joined. Otherwise
the run succeeds, with as many batches as the workers sent, and all records of the plan. In any
other order of the same ends the run succeeds if and only if it did in this one, and with the same
report. The workers of a run of which none is stopped can end like this. -/
theorem run_is_settled_in_any_order (plan : Plan) (ends : List WorkerEnd)
    (sound : plan.fault? = none) (possible : plan.MayEnd ends) :
    (∀ before worker dials after, ends = before ++ .failed (.exhausted worker dials) :: after →
      (∀ last ∈ before, last.exhausted = false) →
        join ends = ⟨.error (.exhausted worker dials), after⟩) ∧
    ((∀ last ∈ ends, last.exhausted = false) →
      ∀ before error after, ends = before ++ .failed error :: after →
        (∀ last ∈ before, last.failure? = none) → join ends = ⟨.error error, []⟩) ∧
    ((∀ last ∈ ends, last.failure? = none) →
      ∃ total, join ends = ⟨.ok total, []⟩ ∧
        total.toNat = (ends.map WorkerEnd.batches).sum ∧
        plan.outcome ends = .ok ⟨plan.records, total⟩) ∧
    (∀ report, plan.outcome ends = .ok report → report = ⟨plan.records, plan.batches⟩) ∧
    (∀ others : List WorkerEnd, others.Perm ends →
      (plan.outcome others).isOk = (plan.outcome ends).isOk ∧
      ∀ report, plan.outcome ends = .ok report → plan.outcome others = .ok report) ∧
    (∀ fortunes order, order ((plan.works fortunes).map Prod.snd) = ends →
      run plan fortunes order =
        (plan.outcome ends).map fun report => ((plan.works fortunes).map Prod.fst, report)) ∧
    (∀ fortunes, (∀ last ∈ (plan.works fortunes).map Prod.snd, last ≠ .stopped) →
      plan.MayEnd ((plan.works fortunes).map Prod.snd)) := by
  refine ⟨?_, ?_, ?_, ?_, ?_, ?_, mayEnd_works⟩
  · rintro before worker dials after rfl mild
    exact join_of_exhausted mild worker dials after
  · rintro mild before error after rfl unfailed
    exact join_of_failed mild unfailed
  · intro unfailed
    have sent := possible.perm_sent unfailed
    have sum := sum_batches_of_sent sound sent
    refine ⟨plan.batches, ?_, sum.symm, outcome_of_sent sound sent⟩
    rw [join_of_unfailed unfailed, sum, UInt64.ofNat_toNat]
  · intro report succeeds
    have sent := possible.perm_sent (unfailed_of_outcome succeeds)
    exact Except.ok.inj (succeeds.symm.trans (outcome_of_sent sound sent))
  · intro others order
    refine ⟨?_, ?_⟩
    · rw [Bool.eq_iff_iff, isOk_outcome_iff, isOk_outcome_iff]
      simp only [order.mem_iff]
    · intro report succeeds
      have sent := possible.perm_sent (unfailed_of_outcome succeeds)
      rw [← succeeds, outcome_of_sent sound sent, outcome_of_sent sound (order.trans sent)]
  · rintro fortunes order rfl
    exact run_eq_outcome sound fortunes order

def sixRecords : Plan where
  target := "collector:24224"
  framing := .forward
  records := 6
  perBatch := 2
  workers := 3
  tag := "t"
  payload := []
  retries := 5
  pause := 0

/-- One worker loses its connection, then another one dials in vain: the dials in vain are the
result, and the third worker is not waited for. Had there been none, the lost connection would
be. -/
theorem dials_in_vain_come_before_lost_connection :
    sixRecords.fault? = none ∧
    join [.failed (.transport 1 .connectionReset), .failed (.exhausted 0 6), .sent 1] =
      ⟨.error (.exhausted 0 6), [.sent 1]⟩ ∧
    join [.failed (.transport 1 .connectionReset), .sent 1, .sent 1] =
      ⟨.error (.transport 1 .connectionReset), []⟩ ∧
    sixRecords.outcome [.sent 1, .sent 1, .sent 1] = .ok ⟨6, 3⟩ := by
  have sound : sixRecords.fault? = none := by decide
  have listed : shares sixRecords.batches sixRecords.workers = [1, 1, 1] := by decide
  have possible : ∀ first second third : WorkerEnd,
      (∀ last ∈ [first, second, third], last = .sent 1 ∨ ∃ error, last = .failed error) →
        sixRecords.MayEnd [first, second, third] := by
    intro first second third each
    refine ⟨_, List.Perm.refl _, ?_⟩
    rw [listed]
    simpa using each
  have exhausting := run_is_settled_in_any_order sixRecords
    [.failed (.transport 1 .connectionReset), .failed (.exhausted 0 6), .sent 1] sound
    (possible _ _ _ (by simp))
  have losing := run_is_settled_in_any_order sixRecords
    [.failed (.transport 1 .connectionReset), .sent 1, .sent 1] sound (possible _ _ _ (by simp))
  have sending := run_is_settled_in_any_order sixRecords [.sent 1, .sent 1, .sent 1] sound
    (possible _ _ _ (by simp))
  refine ⟨sound, ?_, ?_, ?_⟩
  · exact exhausting.1 [.failed (.transport 1 .connectionReset)] 0 6 [.sent 1] rfl (by decide)
  · exact losing.2.1 (by decide) [] _ _ rfl (by decide)
  · obtain ⟨total, -, sum, succeeds⟩ := sending.2.2.1 (by decide)
    obtain rfl : total = 3 := UInt64.toNat_inj.mp (sum.trans (by decide))
    exact succeeds

end Plan

end LogIntake.Load
