import LogIntake.Binary64

/-!
# Shortest decimal digits

For a finite nonzero binary64 number, the decimal with the fewest digits that reads back as that
number, and of those the nearest; where two are as near, a `Tie` decides. The search is exact: the
reals that round to the number form an interval, a decimal with a given count of digits lies on a
grid, and if the interval holds a grid point then it holds one of the two that enclose the number.
-/
set_option autoImplicit false

namespace LogIntake

structure Decimal where
  coefficient : Nat
  exponent : Int
  deriving DecidableEq, Repr, Inhabited

namespace Decimal

inductive Tie where
  | toEven | up
  deriving DecidableEq, Repr

/-- Whether the neighbour below is taken, when it is this multiple of the unit of the grid. -/
def Tie.takesBelow (tie : Tie) (below : Nat) : Bool :=
  match tie with
  | toEven => below % 2 = 0
  | up => false

/-- The positive rationals that round to one number, as numerators over a common denominator. The
ends belong to the interval when it is `closed`. -/
structure Interval where
  low : Nat
  middle : Nat
  high : Nat
  denominator : Nat
  closed : Bool
  deriving Repr

/-- The reals that round to a finite nonzero number: half a unit to either side, a quarter below a
power of two, and the ends exactly when the significand is even. -/
def Interval.ofBinary64 (number : Binary64) : Interval :=
  let significand := number.significand
  let scale := number.exponent - 2
  let below := if number.fraction = 0 ∧ number.biasedExponent > 1 then 1 else 2
  let up := Nat.pow 2 scale.toNat
  { low := (4 * significand - below) * up
    middle := 4 * significand * up
    high := (4 * significand + 2) * up
    denominator := Nat.pow 2 (-scale).toNat
    closed := significand % 2 = 0 }

def leadingExponent (numerator denominator : Nat) : Int :=
  if denominator ≤ numerator then
    ((Nat.toDigits 10 (numerator / denominator)).length : Int) - 1
  else
    let quotient := (denominator + numerator - 1) / numerator
    Int.negOfNat (Nat.toDigits 10 (quotient - 1)).length

/-- The point of the grid of multiples of `10 ^ exponent` that lies in the interval and is nearest
to its middle, if there is one. -/
def Interval.onGrid (interval : Interval) (tie : Tie) (exponent : Int) : Option Decimal :=
  let up := Nat.pow 10 (-exponent).toNat
  let unit := interval.denominator * Nat.pow 10 exponent.toNat
  let middle := interval.middle * up
  let inside (multiple : Nat) : Bool :=
    let point := multiple * unit
    if interval.closed then interval.low * up ≤ point ∧ point ≤ interval.high * up
    else interval.low * up < point ∧ point < interval.high * up
  let below := middle / unit
  let above := below + 1
  match decide (below ≠ 0) && inside below, inside above with
  | true, true =>
    let downward := middle - below * unit
    let upward := above * unit - middle
    if downward < upward ∨ downward = upward ∧ tie.takesBelow below then some ⟨below, exponent⟩
    else some ⟨above, exponent⟩
  | true, false => some ⟨below, exponent⟩
  | false, true => some ⟨above, exponent⟩
  | false, false => none

def Interval.coarsest (interval : Interval) (tie : Tie) :
    (grids : Nat) → (exponent : Int) → Option Decimal
  | 0, _ => none
  | grids + 1, exponent =>
    match interval.onGrid tie exponent with
    | some decimal => some decimal
    | none => interval.coarsest tie grids (exponent - 1)

/-- The shortest decimal that reads back as a finite nonzero number. Seventeen digits always do. -/
def ofBinary64 (tie : Tie) (number : Binary64) : Decimal :=
  let interval := Interval.ofBinary64 number
  let first := leadingExponent interval.middle interval.denominator
  (interval.coarsest tie 17 first).getD ⟨number.significand, 0⟩

end Decimal

end LogIntake
