import Mathlib.Algebra.Order.BigOperators.Group.List
import Mathlib.Algebra.Order.Ring.Nat
import Mathlib.Data.List.Perm.Subperm
import LogIntake.Load.Run

/-!
# Shares

The batches of a plan that is fit to run make up its records, and the shares of its workers make up
its batches (`sum_shares`): the first few have one more than the others (`map_toNat_shares`). Counts
are 64-bit words; no sum here reaches past them (`toNat_foldl_add`).
-/
set_option autoImplicit false

namespace LogIntake.Load

theorem toNat_share (batches workers : UInt64) (worker : Nat) :
    (batches / workers + if worker < (batches % workers).toNat then 1 else 0).toNat =
      batches.toNat / workers.toNat + if worker < batches.toNat % workers.toNat then 1 else 0 := by
  have size := batches.toNat_lt
  rw [UInt64.toNat_mod]
  split
  · next extra =>
    -- a remainder is left over by two workers or more, so the quotient is far from the limit
    have several : workers.toNat ≠ 1 := by
      intro one
      rw [one, Nat.mod_one] at extra
      exact absurd extra (Nat.not_lt_zero worker)
    have half : batches.toNat / workers.toNat ≤ batches.toNat / 2 := by
      rcases Nat.eq_zero_or_pos workers.toNat with zero | positive
      · rw [zero, Nat.div_zero]
        exact Nat.zero_le _
      · exact Nat.div_le_div_left (Nat.lt_of_le_of_ne positive several.symm) (by decide)
    rw [UInt64.toNat_add, UInt64.toNat_div, UInt64.toNat_one]
    exact Nat.mod_eq_of_lt (by omega)
  · rw [UInt64.add_zero, UInt64.toNat_div, Nat.add_zero]

theorem map_range_extra (quotient : Nat) {workers extra : Nat} (few : extra ≤ workers) :
    ((List.range workers).map fun worker => quotient + if worker < extra then 1 else 0) =
      List.replicate extra (quotient + 1) ++ List.replicate (workers - extra) quotient := by
  obtain ⟨others, rfl⟩ := Nat.exists_eq_add_of_le few
  have first : ∀ worker ∈ List.range extra,
      (quotient + if worker < extra then 1 else 0) = quotient + 1 := by
    intro worker member
    rw [if_pos (List.mem_range.mp member)]
  have second : ∀ worker ∈ List.range others,
      ((fun worker => quotient + if worker < extra then 1 else 0) ∘ (extra + ·)) worker =
        quotient := by
    intro worker _
    rw [Function.comp_apply, if_neg (Nat.not_lt.mpr (Nat.le_add_right extra worker))]
    exact Nat.add_zero quotient
  rw [List.range_add, List.map_append, List.map_map, List.map_congr_left first,
    List.map_congr_left second, List.map_const', List.map_const', List.length_range,
    List.length_range, Nat.add_sub_cancel_left]

theorem length_shares (batches workers : UInt64) :
    (shares batches workers).length = workers.toNat := by
  rw [shares, List.length_map, List.length_range]

theorem toNat_pos {word : UInt64} : 0 < word.toNat ↔ word ≠ 0 := by
  rw [Nat.pos_iff_ne_zero, ne_eq, ne_eq, ← UInt64.toNat_inj, UInt64.toNat_zero]

theorem map_toNat_shares (batches : UInt64) {workers : UInt64} (present : workers ≠ 0) :
    (shares batches workers).map UInt64.toNat =
      List.replicate (batches.toNat % workers.toNat) (batches.toNat / workers.toNat + 1) ++
        List.replicate (workers.toNat - batches.toNat % workers.toNat)
          (batches.toNat / workers.toNat) := by
  have remainder := Nat.mod_lt batches.toNat (toNat_pos.mpr present)
  have each : (UInt64.toNat ∘ fun worker =>
      batches / workers + if worker < (batches % workers).toNat then 1 else 0) = fun worker =>
        batches.toNat / workers.toNat +
          if worker < batches.toNat % workers.toNat then 1 else 0 :=
    funext fun worker => toNat_share batches workers worker
  rw [shares, List.map_map, each, map_range_extra _ (Nat.le_of_lt remainder)]

theorem sum_shares (batches : UInt64) {workers : UInt64} (present : workers ≠ 0) :
    ((shares batches workers).map UInt64.toNat).sum = batches.toNat := by
  have remainder := Nat.mod_lt batches.toNat (toNat_pos.mpr present)
  have parts := Nat.div_add_mod batches.toNat workers.toNat
  rw [map_toNat_shares batches present, List.sum_append, List.sum_replicate_nat,
    List.sum_replicate_nat, Nat.mul_succ, Nat.add_right_comm, ← Nat.add_mul,
    Nat.add_sub_of_le (Nat.le_of_lt remainder), parts]

/-- How some batches are spread over some workers: as evenly as they go, the larger shares first. -/
structure SpreadEvenly (shares : List UInt64) (batches workers : Nat) : Prop where
  one_for_each : shares.length = workers
  none_idle : ∀ share ∈ shares, 1 ≤ share.toNat
  falling : shares.Pairwise fun share later => later.toNat ≤ share.toNat
  alike : ∀ share ∈ shares,
    share.toNat = batches / workers ∨ share.toNat = batches / workers + 1
  larger : (shares.map UInt64.toNat).count (batches / workers + 1) = batches % workers
  whole : (shares.map UInt64.toNat).sum = batches

theorem spreadEvenly_shares {batches workers : UInt64} (present : workers ≠ 0)
    (enough : workers ≤ batches) :
    SpreadEvenly (shares batches workers) batches.toNat workers.toNat := by
  have listed := map_toNat_shares batches present
  have least : 1 ≤ batches.toNat / workers.toNat :=
    Nat.div_pos (UInt64.le_iff_toNat_le.mp enough) (toNat_pos.mpr present)
  have alike : ∀ share ∈ shares batches workers, share.toNat = batches.toNat / workers.toNat ∨
      share.toNat = batches.toNat / workers.toNat + 1 := by
    intro share member
    have inside := List.mem_map_of_mem (f := UInt64.toNat) member
    rw [listed, List.mem_append, List.mem_replicate, List.mem_replicate] at inside
    rcases inside with ⟨-, more⟩ | ⟨-, same⟩
    · exact Or.inr more
    · exact Or.inl same
  constructor
  · exact length_shares batches workers
  · intro share member
    rcases alike share member with same | more <;> omega
  · rw [← List.pairwise_map (f := UInt64.toNat) (R := fun share later => later ≤ share), listed]
    simp [List.pairwise_append, List.pairwise_replicate]
  · exact alike
  · rw [listed]
    simp [List.count_replicate]
  · exact sum_shares batches present

theorem toNat_foldl_add (words : List UInt64) (start : UInt64)
    (small : start.toNat + (words.map UInt64.toNat).sum < UInt64.size) :
    (words.foldl (· + ·) start).toNat = start.toNat + (words.map UInt64.toNat).sum := by
  induction words generalizing start with
  | nil => rfl
  | cons word rest ih =>
      rw [List.map_cons, List.sum_cons] at small ⊢
      have next : (start + word).toNat = start.toNat + word.toNat := by
        rw [UInt64.toNat_add]
        exact Nat.mod_eq_of_lt (by simp only [UInt64.size] at small; omega)
      rw [List.foldl_cons, ih, next, Nat.add_assoc]
      rw [next]
      omega

namespace Plan

variable {plan : Plan}

theorem fault?_eq_none : plan.fault? = none ↔
    plan.perBatch ≠ 0 ∧ plan.workers ≠ 0 ∧ plan.records % plan.perBatch = 0 ∧
      plan.workers ≤ plan.batches := by
  unfold fault?
  split
  · simp [*]
  · split
    · simp [*]
    · split
      · simp [*]
      · split
        · next idle => simp [*, UInt64.not_le.mpr idle]
        · next busy => simp_all [UInt64.not_lt.mp busy]

theorem batches_mul_perBatch (sound : plan.fault? = none) :
    plan.batches.toNat * plan.perBatch.toNat = plan.records.toNat := by
  obtain ⟨-, -, whole, -⟩ := fault?_eq_none.mp sound
  have even : plan.records.toNat % plan.perBatch.toNat = 0 := by
    rw [← UInt64.toNat_mod, whole]
    rfl
  rw [batches, UInt64.toNat_div, Nat.div_mul_cancel (Nat.dvd_of_mod_eq_zero even)]

theorem report_batches (sound : plan.fault? = none) :
    plan.report plan.batches = ⟨plan.records, plan.batches⟩ := by
  have product : plan.batches * plan.perBatch = plan.records := by
    apply UInt64.toNat_inj.mp
    rw [UInt64.toNat_mul, batches_mul_perBatch sound, Nat.mod_eq_of_lt plan.records.toNat_lt]
  rw [report, product]

/-! ## Judging a plan -/

theorem fault?_eq_none_iff_toNat : plan.fault? = none ↔
    0 < plan.perBatch.toNat ∧ 0 < plan.workers.toNat ∧
      plan.perBatch.toNat ∣ plan.records.toNat ∧
      plan.workers.toNat * plan.perBatch.toNat ≤ plan.records.toNat := by
  rw [fault?_eq_none, toNat_pos, toNat_pos]
  refine and_congr_right fun filled => and_congr_right fun _ => and_congr ?_ ?_
  · rw [← UInt64.toNat_inj, UInt64.toNat_mod, UInt64.toNat_zero, Nat.dvd_iff_mod_eq_zero]
  · rw [UInt64.le_iff_toNat_le, batches, UInt64.toNat_div,
      Nat.le_div_iff_mul_le (toNat_pos.mpr filled)]

/-- Division that has no answer when it is by zero. -/
def quotient? (number divisor : UInt64) : Option UInt64 :=
  if divisor = 0 then none else some (number / divisor)

def remainder? (number divisor : UInt64) : Option UInt64 :=
  if divisor = 0 then none else some (number % divisor)

/-- The judgement of a plan that has no answer when it divides by zero. -/
def judge? (plan : Plan) : Option (Option Fault) :=
  if plan.perBatch = 0 then some (some .emptyBatches)
  else if plan.workers = 0 then some (some .noWorkers)
  else do
    let left ← remainder? plan.records plan.perBatch
    if left ≠ 0 then return some .unevenBatches
    let batches ← quotient? plan.records plan.perBatch
    if batches < plan.workers then return some .idleWorkers
    return none

theorem judge?_eq (plan : Plan) : plan.judge? = some plan.fault? := by
  unfold judge? fault?
  by_cases empty : plan.perBatch = 0
  · rw [if_pos empty, if_pos empty]
  · by_cases alone : plan.workers = 0
    · rw [if_neg empty, if_neg empty, if_pos alone, if_pos alone]
    · have left : remainder? plan.records plan.perBatch = some (plan.records % plan.perBatch) :=
        if_neg empty
      have quotient : quotient? plan.records plan.perBatch = some plan.batches := if_neg empty
      rw [if_neg empty, if_neg empty, if_neg alone, if_neg alone, left, quotient]
      by_cases uneven : plan.records % plan.perBatch ≠ 0
      · simp [uneven]
      · by_cases idle : plan.batches < plan.workers
        · simp [uneven, idle]
        · simp [uneven, idle]

/-- A plan is judged without division by zero, and is fit to run if and only if there are records in
a batch, workers, whole batches, and as many of them as workers. Then the shares of the workers are
even, none is empty, and they make up the records. No number on the way leaves the words: no share,
no sum of shares, however many of them are added and in whatever order, nor the records of all
batches, which are those that are reported. -/
theorem accounts_for_every_record (plan : Plan) :
    (plan.fault? = none ↔
      0 < plan.perBatch.toNat ∧ 0 < plan.workers.toNat ∧
        plan.perBatch.toNat ∣ plan.records.toNat ∧
        plan.workers.toNat * plan.perBatch.toNat ≤ plan.records.toNat) ∧
    plan.judge? = some plan.fault? ∧
    (plan.fault? = none →
      SpreadEvenly (shares plan.batches plan.workers) plan.batches.toNat plan.workers.toNat ∧
      ((shares plan.batches plan.workers).map UInt64.toNat).sum * plan.perBatch.toNat =
        plan.records.toNat ∧
      (∀ part : List UInt64, part.Subperm (shares plan.batches plan.workers) →
        (part.foldl (· + ·) 0).toNat = (part.map UInt64.toNat).sum) ∧
      (plan.batches * plan.perBatch).toNat = plan.batches.toNat * plan.perBatch.toNat ∧
      plan.report ((shares plan.batches plan.workers).foldl (· + ·) 0) =
        ⟨plan.records, plan.batches⟩ ∧
      (plan.workers.toNat < shareLimit →
        shares? plan.batches plan.workers = some (shares plan.batches plan.workers))) := by
  refine ⟨fault?_eq_none_iff_toNat, judge?_eq plan, ?_⟩
  intro sound
  obtain ⟨-, present, -, enough⟩ := fault?_eq_none.mp sound
  have total := sum_shares plan.batches present
  have product := batches_mul_perBatch sound
  have sums : ∀ part : List UInt64, part.Subperm (shares plan.batches plan.workers) →
      (part.foldl (· + ·) 0).toNat = (part.map UInt64.toNat).sum := by
    intro part inside
    obtain ⟨chosen, order, within⟩ := inside
    have fewer := List.Sublist.sum_le_sum (within.map UInt64.toNat) fun _ _ => Nat.zero_le _
    rw [total, (order.map UInt64.toNat).sum_nat] at fewer
    rw [toNat_foldl_add, UInt64.toNat_zero, Nat.zero_add]
    rw [UInt64.toNat_zero, Nat.zero_add]
    exact Nat.lt_of_le_of_lt fewer plan.batches.toNat_lt
  refine ⟨spreadEvenly_shares present enough, ?_, sums, ?_, ?_, fun room => if_pos room⟩
  · rw [total, product]
  · rw [UInt64.toNat_mul, product]
    exact Nat.mod_eq_of_lt plan.records.toNat_lt
  · have reported : (shares plan.batches plan.workers).foldl (· + ·) 0 = plan.batches := by
      apply UInt64.toNat_inj.mp
      rw [sums _ (List.Subperm.refl _), total]
    rw [reported, report_batches sound]

example : shares 10 3 = [4, 3, 3] := by decide

end Plan

end LogIntake.Load
