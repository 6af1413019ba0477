import Mathlib.Algebra.Field.Rat
import Mathlib.Tactic.NormNum
import Mathlib.Tactic.Ring
import LogIntake.Binary64

/-!
# Widening of single-precision numbers

The number that a binary32 pattern stands for, and the one that a binary64 pattern stands for.
Widening keeps it: value, sign of zero, infinities and the property of being no number
(`quantity_ofBinary32Bits`).
-/
set_option autoImplicit false

namespace LogIntake

/-- What an IEEE 754 pattern stands for. -/
inductive Quantity where
  | finite (negative : Bool) (magnitude : ℚ)
  | infinite (negative : Bool)
  | nan

namespace Binary64

def quantity (number : Binary64) : Quantity :=
  if number.isNaN then .nan
  else if number.isInfinite then .infinite number.isNegative
  else .finite number.isNegative (number.significand * (2 : ℚ) ^ number.exponent)

def quantityOfBinary32 (bits : UInt32) : Quantity :=
  let negative : Bool := bits.toNat / 0x80000000 = 1
  let exponent := bits.toNat / 0x800000 % 0x100
  let fraction := bits.toNat % 0x800000
  if exponent = 255 then
    if fraction = 0 then .infinite negative else .nan
  else if exponent = 0 then .finite negative (fraction * (2 : ℚ) ^ (-149 : Int))
  else .finite negative ((0x800000 + fraction) * (2 : ℚ) ^ ((exponent : Int) - 150))

section Fields

variable {negative : Bool} {biased fraction : Nat}

theorem toNat_bits_ofFields (exponentFits : biased < 0x800)
    (fractionFits : fraction < exponentPlace) :
    (ofFields negative biased fraction).bits.toNat =
      (if negative then signPlace else 0) + biased * exponentPlace + fraction := by
  rw [ofFields, UInt64.toNat_ofNat_of_lt']
  rw [exponentPlace] at fractionFits ⊢
  rw [signPlace]
  change _ < 0x10000000000000000
  split <;> omega

theorem isNegative_ofFields (exponentFits : biased < 0x800)
    (fractionFits : fraction < exponentPlace) :
    (ofFields negative biased fraction).isNegative = negative := by
  rw [isNegative, toNat_bits_ofFields exponentFits fractionFits]
  rw [exponentPlace] at fractionFits ⊢
  cases negative with
  | false => simp [signPlace]; omega
  | true => simp [signPlace]; omega

theorem biasedExponent_ofFields (exponentFits : biased < 0x800)
    (fractionFits : fraction < exponentPlace) :
    (ofFields negative biased fraction).biasedExponent = biased := by
  rw [biasedExponent, toNat_bits_ofFields exponentFits fractionFits]
  rw [exponentPlace] at fractionFits ⊢
  cases negative with
  | false => simp; omega
  | true => simp [signPlace]; omega

theorem fraction_ofFields (exponentFits : biased < 0x800)
    (fractionFits : fraction < exponentPlace) :
    (ofFields negative biased fraction).fraction = fraction := by
  rw [Binary64.fraction, toNat_bits_ofFields exponentFits fractionFits]
  rw [exponentPlace] at fractionFits ⊢
  cases negative with
  | false => simp; omega
  | true => simp [signPlace]; omega

theorem quantity_ofFields (exponentFits : biased < 0x800)
    (fractionFits : fraction < exponentPlace) :
    (ofFields negative biased fraction).quantity =
      if biased = 2047 then if fraction = 0 then .infinite negative else .nan
      else if biased = 0 then .finite negative (fraction * (2 : ℚ) ^ (-1074 : Int))
      else .finite negative
        ((exponentPlace + fraction : Nat) * (2 : ℚ) ^ ((biased : Int) - 1075)) := by
  have sign : (ofFields negative biased fraction).isNegative = negative :=
    isNegative_ofFields exponentFits fractionFits
  have power : (ofFields negative biased fraction).biasedExponent = biased :=
    biasedExponent_ofFields exponentFits fractionFits
  have rest : (ofFields negative biased fraction).fraction = fraction :=
    fraction_ofFields exponentFits fractionFits
  rw [quantity, isNaN, isInfinite, significand, exponent, sign, power, rest]
  by_cases special : biased = 2047
  · by_cases zero : fraction = 0
    · simp [special, zero]
    · simp [special, zero]
  · by_cases small : biased = 0
    · simp [small]
    · rw [Nat.max_eq_left (by omega)]
      simp [special, small]

end Fields

theorem shift_mul_zpow (significand shift : Nat) (power : Int) :
    ((significand * Nat.pow 2 shift : Nat) : ℚ) * (2 : ℚ) ^ (power - shift) =
      significand * (2 : ℚ) ^ power := by
  have cast : ((Nat.pow 2 shift : Nat) : ℚ) = (2 : ℚ) ^ (shift : Int) := by
    rw [zpow_natCast]
    exact Nat.cast_pow 2 shift
  rw [Nat.cast_mul, cast, mul_assoc, ← zpow_add₀ two_ne_zero, add_sub_cancel]

/-- The significand of a subnormal number, moved up until its first bit has the place of the hidden
bit. -/
theorem hidden_bit {fraction : Nat} (positive : fraction ≠ 0) (small : fraction < 0x800000) :
    fraction.log2 < 23 ∧
      (fraction - Nat.pow 2 fraction.log2) * Nat.pow 2 (52 - fraction.log2) < exponentPlace ∧
      exponentPlace + (fraction - Nat.pow 2 fraction.log2) * Nat.pow 2 (52 - fraction.log2) =
        fraction * Nat.pow 2 (52 - fraction.log2) := by
  have top : fraction.log2 < 23 := (Nat.log2_lt positive).mpr small
  have low : Nat.pow 2 fraction.log2 ≤ fraction := Nat.log2_self_le positive
  have high : fraction < Nat.pow 2 (fraction.log2 + 1) := Nat.lt_log2_self
  have place : exponentPlace = Nat.pow 2 fraction.log2 * Nat.pow 2 (52 - fraction.log2) := by
    change 2 ^ 52 = 2 ^ fraction.log2 * 2 ^ (52 - fraction.log2)
    rw [← Nat.pow_add]
    congr 1
    omega
  refine ⟨top, ?_, ?_⟩
  · rw [Nat.pow_eq, Nat.pow_succ, ← Nat.pow_eq] at high
    rw [place]
    exact Nat.mul_lt_mul_of_pos_right (by omega) (Nat.pow_pos (by decide))
  · rw [place, ← Nat.add_mul, Nat.add_sub_cancel' low]

/-- Widening a binary32 number is exact. -/
theorem quantity_ofBinary32Bits (bits : UInt32) :
    (ofBinary32Bits bits).quantity = quantityOfBinary32 bits := by
  have exponentBound : bits.toNat / 0x800000 % 0x100 < 0x100 := Nat.mod_lt _ (by decide)
  have fractionBound : bits.toNat % 0x800000 < 0x800000 := Nat.mod_lt _ (by decide)
  rw [ofBinary32Bits, quantityOfBinary32]
  generalize bits.toNat / 0x800000 % 0x100 = exponent at exponentBound ⊢
  generalize bits.toNat % 0x800000 = fraction at fractionBound ⊢
  generalize decide (bits.toNat / 0x80000000 = 1) = negative
  dsimp only
  by_cases special : exponent = 255
  · rw [if_pos special, if_pos special]
    by_cases zero : fraction = 0
    · have size : fraction * 0x20000000 + 0 < exponentPlace := by simp [zero, exponentPlace]
      rw [if_pos (Or.inl zero), if_pos zero, quantity_ofFields (by decide) size]
      simp [zero]
    · rw [if_neg zero, quantity_ofFields (by decide) (by rw [exponentPlace]; split <;> omega),
        if_pos rfl, if_neg (by omega)]
  · rw [if_neg special, if_neg special]
    by_cases small : exponent = 0
    · rw [if_neg (not_not.mpr small), if_pos small]
      by_cases zero : fraction = 0
      · rw [if_pos zero, quantity_ofFields (by decide) (by decide)]
        simp [zero]
      · obtain ⟨top, size, moved⟩ := hidden_bit zero fractionBound
        have power : ((fraction.log2 + 874 : Nat) : Int) - 1075 =
            -149 - ((52 - fraction.log2 : Nat) : Int) := by omega
        rw [if_neg zero, quantity_ofFields (by omega) size, if_neg (by omega), if_neg (by omega),
          moved, power, shift_mul_zpow]
    · rw [if_pos small, if_neg small, quantity_ofFields (by omega) (by rw [exponentPlace]; omega),
        if_neg (by omega), if_neg (by omega)]
      have moved : exponentPlace + fraction * 0x20000000 =
          (0x800000 + fraction) * Nat.pow 2 29 := by
        rw [Nat.add_mul]
        rfl
      have power : ((exponent + 896 : Nat) : Int) - 1075 =
          (exponent : Int) - 150 - (29 : Nat) := by omega
      rw [moved, power, shift_mul_zpow]
      norm_num

end Binary64

end LogIntake
