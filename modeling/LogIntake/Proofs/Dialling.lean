import Mathlib.Algebra.Ring.Int.Defs
import Mathlib.Algebra.Ring.Nat
import Mathlib.Data.Nat.Find
import LogIntake.Load.Dial

/-!
# Dialling within a budget

A budget of less than `2 ^ 63` failures is spent one failure at a time: after `n` failed dials
exactly `n` of it are gone (`Stands.exact`), so dialling ends at the first dial that connects, or
after one failure more than was allowed (`honours_dial`). From `2 ^ 63` on the budget is read as a
negative number. Taking one off `2 ^ 63` wraps around to where it should be; any larger budget is
overdrawn by the first failure (`dial_of_overdrawn`).
-/
set_option autoImplicit false

namespace LogIntake.Load

variable {answers : Nat → Bool} {retries : UInt64} {failures : Nat} {budget : Int64} {made : UInt64}

def Dialled.dials : Dialled → UInt64
  | connected dials | exhausted dials => dials

/-- Whether dialling ended as it should that may fail this often: at the first dial that connects,
or after one failure more than is allowed. -/
structure Dialled.Honours (ended : Dialled) (answers : Nat → Bool) (allowed : Nat) : Prop where
  connects : ∀ first ≤ allowed, answers first = true →
    (∀ earlier < first, answers earlier = false) →
    ∃ dials, ended = .connected dials ∧ dials.toNat = first + 1
  gives_up : (∀ dial ≤ allowed, answers dial = false) →
    ∃ dials, ended = .exhausted dials ∧ dials.toNat = allowed + 1

/-- After this many dials, all of them failed, dialling stands at this budget and this count. -/
inductive Stands (answers : Nat → Bool) (retries : UInt64) : Nat → Int64 → UInt64 → Prop
  | once (failed : answers 0 = false) : Stands answers retries 1 (retries.toInt64 - 1) 1
  | again {failures : Nat} {budget : Int64} {made : UInt64}
      (before : Stands answers retries failures budget made) (covered : ¬ budget < 0)
      (failed : answers made.toNat = false) :
      Stands answers retries (failures + 1) (budget - 1) (made + 1)

theorem Stands.dial_eq (stands : Stands answers retries failures budget made) :
    dial answers retries = redial answers budget made := by
  induction stands with
  | once failed => simp [dial, failed]
  | again before covered failed ih =>
      rw [ih, redial]
      simp [covered, failed]

/-! ## The words of the loop -/

theorem toInt_toInt64 (word : UInt64) : word.toInt64.toInt = (word.toNat : Int).bmod (2 ^ 64) := by
  have same : word.toInt64.toInt = word.toBitVec.toInt := rfl
  rw [same, BitVec.toInt_eq_toNat_bmod]
  rfl

theorem toInt_toInt64_of_lt (small : retries.toNat < 2 ^ 63) :
    retries.toInt64.toInt = retries.toNat := by
  rw [toInt_toInt64]
  exact Int.bmod_eq_of_le (by omega) (by omega)

theorem toInt_toInt64_sub_one (word : UInt64) :
    (word.toInt64 - 1).toInt = ((word.toNat : Int) - 1).bmod (2 ^ 64) := by
  rw [Int64.toInt_sub, toInt_toInt64, Int64.toInt_one, Int.bmod_sub_bmod]

/-- The wrap of `2 ^ 63` to a negative number is undone by the first subtraction. -/
theorem toInt_toInt64_sub_one_of_le (within : retries.toNat ≤ 2 ^ 63) :
    (retries.toInt64 - 1).toInt = (retries.toNat : Int) - 1 := by
  rw [toInt_toInt64_sub_one]
  exact Int.bmod_eq_of_le (by omega) (by omega)

theorem toInt_toInt64_sub_one_of_lt (beyond : 2 ^ 63 < retries.toNat) :
    (retries.toInt64 - 1).toInt = (retries.toNat : Int) - 1 - 2 ^ 64 := by
  have size := retries.toNat_lt
  rw [toInt_toInt64_sub_one, ← Int.sub_bmod_right]
  exact Int.bmod_eq_of_le (by omega) (by omega)

/-! ## Budgets that are spent one by one -/

theorem Stands.exact (within : retries.toNat ≤ 2 ^ 63)
    (stands : Stands answers retries failures budget made) :
    budget.toInt = (retries.toNat : Int) - failures ∧ made.toNat = failures ∧
      failures ≤ retries.toNat + 1 := by
  induction stands with
  | once failed =>
      refine ⟨toInt_toInt64_sub_one_of_le within, rfl, ?_⟩
      omega
  | @again failures budget made before covered failed ih =>
      obtain ⟨left, counted, -⟩ := ih
      have positive := toInt_nonneg covered
      have few : failures ≤ retries.toNat := by omega
      refine ⟨?_, ?_, Nat.succ_le_succ few⟩
      · rw [toInt_sub_one covered, left]
        omega
      · rw [UInt64.toNat_add, UInt64.toNat_one, counted]
        exact Nat.mod_eq_of_lt (by omega)

theorem Stands.overdrawn_iff (within : retries.toNat ≤ 2 ^ 63)
    (stands : Stands answers retries failures budget made) :
    budget < 0 ↔ retries.toNat < failures := by
  rw [Int64.lt_iff_toInt_lt, Int64.toInt_zero, (stands.exact within).1]
  omega

theorem exists_stands (within : retries.toNat ≤ 2 ^ 63) (failures : Nat)
    (few : failures ≤ retries.toNat) (failed : ∀ dial ≤ failures, answers dial = false) :
    ∃ budget made, Stands answers retries (failures + 1) budget made := by
  induction failures with
  | zero => exact ⟨_, _, .once (failed 0 (Nat.le_refl 0))⟩
  | succ failures ih =>
      obtain ⟨budget, made, before⟩ := ih (Nat.le_of_succ_le few)
        fun dial below => failed dial (Nat.le_succ_of_le below)
      -- what is left covers the next failure, and the next dial is the one of this number
      have covered : ¬ budget < 0 := by
        rw [before.overdrawn_iff within]
        omega
      have next : answers made.toNat = false := by
        rw [(before.exact within).2.1]
        exact failed _ (Nat.le_refl _)
      exact ⟨_, _, before.again covered next⟩

theorem honours_dial (within : retries.toNat ≤ 2 ^ 63) :
    (dial answers retries).Honours answers retries.toNat := by
  constructor
  · intro first few success failed
    cases first with
    | zero => exact ⟨1, by simp [dial, success], rfl⟩
    | succ failures =>
        obtain ⟨budget, made, stands⟩ := exists_stands within failures (Nat.le_of_succ_le few)
          fun dial below => failed dial (Nat.lt_succ_of_le below)
        obtain ⟨-, counted, -⟩ := stands.exact within
        have covered : ¬ budget < 0 := by
          rw [stands.overdrawn_iff within]
          omega
        refine ⟨made + 1, ?_, ?_⟩
        · rw [stands.dial_eq, redial]
          simp [covered, counted, success]
        · rw [UInt64.toNat_add, UInt64.toNat_one, counted]
          exact Nat.mod_eq_of_lt (by omega)
  · intro failed
    obtain ⟨budget, made, stands⟩ := exists_stands within retries.toNat (Nat.le_refl _) failed
    have overdrawn : budget < 0 := by
      rw [stands.overdrawn_iff within]
      exact Nat.lt_succ_self _
    refine ⟨made, ?_, (stands.exact within).2.1⟩
    rw [stands.dial_eq, redial]
    simp [overdrawn]

theorem exists_first_or_none (answers : Nat → Bool) (allowed : Nat) :
    (∃ first ≤ allowed, answers first = true ∧ ∀ earlier < first, answers earlier = false) ∨
      ∀ dial ≤ allowed, answers dial = false := by
  by_cases success : ∃ dial, answers dial = true
  · have failed : ∀ earlier < Nat.find success, answers earlier = false := by
      intro earlier below
      simpa using Nat.find_min success below
    rcases Nat.lt_or_ge allowed (Nat.find success) with late | soon
    · exact Or.inr fun dial below => failed dial (Nat.lt_of_le_of_lt below late)
    · exact Or.inl ⟨_, soon, Nat.find_spec success, failed⟩
  · exact Or.inr fun dial _ => by simpa using fun connected => success ⟨dial, connected⟩

theorem Dialled.Honours.eq_of_agree {ended other : Dialled} {others : Nat → Bool} {allowed : Nat}
    (honours : ended.Honours answers allowed) (alike : other.Honours others allowed)
    (agree : ∀ dial < ended.dials.toNat, others dial = answers dial) : other = ended := by
  rcases exists_first_or_none answers allowed with ⟨first, few, success, failed⟩ | failed
  · obtain ⟨dials, rfl, counted⟩ := honours.connects first few success failed
    have same : ∀ dial ≤ first, others dial = answers dial := by
      intro dial below
      apply agree
      rw [Dialled.dials, counted]
      exact Nat.lt_succ_of_le below
    obtain ⟨made, rfl, recounted⟩ := alike.connects first few
      ((same first (Nat.le_refl first)).trans success)
      fun earlier below => (same earlier (Nat.le_of_lt below)).trans (failed earlier below)
    rw [UInt64.toNat_inj.mp (recounted.trans counted.symm)]
  · obtain ⟨dials, rfl, counted⟩ := honours.gives_up failed
    obtain ⟨made, rfl, recounted⟩ := alike.gives_up fun dial below => by
      rw [← failed dial below]
      apply agree
      rw [Dialled.dials, counted]
      exact Nat.lt_succ_of_le below
    rw [UInt64.toNat_inj.mp (recounted.trans counted.symm)]

/-! ## Budgets beyond the signed range -/

theorem dial_of_overdrawn (beyond : 2 ^ 63 < retries.toNat) :
    dial answers retries = if answers 0 then .connected 1 else .exhausted 1 := by
  have overdrawn : retries.toInt64 - 1 < 0 := by
    have size := retries.toNat_lt
    rw [Int64.lt_iff_toInt_lt, Int64.toInt_zero, toInt_toInt64_sub_one_of_lt beyond]
    omega
  rw [dial, redial, dif_pos overdrawn]

/-- Dialling honours every budget below `2 ^ 63`: it ends at the first dial that connects, dials no
further, and gives up after one failure more than was allowed. On the way the budget and the count
of dials are at every moment the numbers that they stand for. With `2 ^ 63` allowed failures the
outcome is the same, but the first subtraction leaves the signed range. With more, the first failure
is the last. -/
theorem dialling_honours_signed_budgets (answers : Nat → Bool) (retries : UInt64) :
    (retries.toNat < 2 ^ 63 →
      (dial answers retries).Honours answers retries.toNat ∧
      retries.toInt64.toInt = retries.toNat ∧
      ∀ failures budget made, Stands answers retries failures budget made →
        dial answers retries = redial answers budget made ∧
        budget.toInt = (retries.toNat : Int) - failures ∧ made.toNat = failures) ∧
    (retries.toNat = 2 ^ 63 →
      (dial answers retries).Honours answers retries.toNat ∧
      (retries.toInt64 - 1).toInt ≠ retries.toInt64.toInt - 1) ∧
    (2 ^ 63 < retries.toNat →
      dial answers retries = if answers 0 then .connected 1 else .exhausted 1) ∧
    ∀ others, (∀ number < (dial answers retries).dials.toNat, others number = answers number) →
      dial others retries = dial answers retries := by
  refine ⟨?_, ?_, dial_of_overdrawn, ?_⟩
  · intro small
    have within := Nat.le_of_lt small
    refine ⟨honours_dial within, toInt_toInt64_of_lt small, ?_⟩
    intro failures budget made stands
    obtain ⟨left, counted, -⟩ := stands.exact within
    exact ⟨stands.dial_eq, left, counted⟩
  · intro edge
    refine ⟨honours_dial (Nat.le_of_eq edge), ?_⟩
    rw [toInt_toInt64_sub_one_of_le (Nat.le_of_eq edge), toInt_toInt64, edge]
    decide
  · intro others agree
    by_cases within : retries.toNat ≤ 2 ^ 63
    · exact (honours_dial within).eq_of_agree (honours_dial within) agree
    · have beyond := Nat.lt_of_not_le within
      have first : others 0 = answers 0 := by
        refine agree 0 ?_
        rw [dial_of_overdrawn beyond]
        cases answers 0 <;> decide
      rw [dial_of_overdrawn beyond, dial_of_overdrawn beyond, first]

/-- One allowed failure more than `2 ^ 63`, and no dial that connects: there is one dial. -/
theorem budget_beyond_signed_range_is_forfeited :
    ¬ (dial (fun _ => false) 9223372036854775809).Honours (fun _ => false)
      (9223372036854775809 : UInt64).toNat := by
  intro honours
  obtain ⟨dials, ended, counted⟩ := honours.gives_up fun _ _ => rfl
  rw [dial_of_overdrawn (by decide)] at ended
  cases ended
  exact absurd counted (by decide)

end LogIntake.Load
