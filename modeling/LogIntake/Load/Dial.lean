/-!
# Dialling

A worker dials its target until a dial connects. Every failed dial costs one unit of a budget, and
the failure that overdraws it is the last. The budget is a signed 64-bit word, and so reads a count
of allowed failures from `2 ^ 63` on as a negative number. Main statement: dialling comes to an end,
for each dial after the first leaves less of the budget.
-/
set_option autoImplicit false

namespace LogIntake.Load

inductive Dialled where
  | connected (dials : UInt64)
  | exhausted (dials : UInt64)
  deriving DecidableEq, Repr

/-- How often one may still dial after a failure that leaves this much of the budget. -/
def dialsLeft (budget : Int64) : Nat := if budget < 0 then 0 else budget.toInt.toNat + 1

theorem toInt_nonneg {budget : Int64} (covered : ¬ budget < 0) : 0 ≤ budget.toInt := by
  rw [Int64.lt_iff_toInt_lt] at covered
  exact Int.not_lt.mp covered

theorem toInt_sub_one {budget : Int64} (covered : ¬ budget < 0) :
    (budget - 1).toInt = budget.toInt - 1 := by
  have positive := toInt_nonneg covered
  have small := budget.toInt_lt
  rw [Int64.toInt_sub, Int64.toInt_one]
  exact Int.bmod_eq_of_le (by omega) (by omega)

theorem dialsLeft_sub_one {budget : Int64} (h : ¬ budget < 0) :
    dialsLeft (budget - 1) < dialsLeft budget := by
  have positive := toInt_nonneg h
  have negative : budget - 1 < 0 ↔ budget.toInt - 1 < 0 := by
    rw [Int64.lt_iff_toInt_lt, toInt_sub_one h, Int64.toInt_zero]
  simp only [dialsLeft, if_neg h, negative, toInt_sub_one h]
  split <;> omega

/-- Goes on dialling after `made` dials without success, while the budget is not overdrawn.
`answers` says which dials connect, the first of all dials being number 0. -/
def redial (answers : Nat → Bool) (budget : Int64) (made : UInt64) : Dialled :=
  if _open : budget < 0 then .exhausted made
  else if answers made.toNat then .connected (made + 1)
  else redial answers (budget - 1) (made + 1)
termination_by dialsLeft budget
decreasing_by exact dialsLeft_sub_one _open

/-- Dials at least once, and again after each failure that the budget covers. -/
def dial (answers : Nat → Bool) (retries : UInt64) : Dialled :=
  if answers 0 then .connected 1 else redial answers (retries.toInt64 - 1) 1

end LogIntake.Load
