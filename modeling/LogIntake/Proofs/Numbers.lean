import LogIntake.Bytes

/-!
# Numbers in bytes

A byte string and the number that it writes determine each other once the width is known, for
magnitudes (`ofNat_toNat`, `toNat_ofNat_of_lt`) and for two's complement (`ofInt_toInt`,
`toInt_ofInt`).
-/
set_option autoImplicit false

namespace LogIntake.Bytes

/-! ## Magnitudes -/

theorem room_pos (width : Nat) : 0 < room width := by
  induction width with
  | zero => exact Nat.one_pos
  | succ width ih => exact Nat.mul_pos ih (by decide)

theorem foldl_eq_toNat (bytes : Bytes) (start : Nat) :
    bytes.foldl (fun number byte => number * 256 + byte.toNat) start =
      start * room bytes.length + toNat bytes := by
  induction bytes generalizing start with
  | nil => simp [room, toNat]
  | cons byte rest ih =>
      have head : toNat (byte :: rest) = byte.toNat * room rest.length + toNat rest := by
        rw [toNat, List.foldl_cons, ih, Nat.zero_mul, Nat.zero_add]
      rw [List.foldl_cons, ih, head, List.length_cons, room, Nat.add_mul, Nat.mul_assoc,
        Nat.mul_comm 256, Nat.add_assoc]

theorem toNat_cons (byte : UInt8) (rest : Bytes) :
    toNat (byte :: rest) = byte.toNat * room rest.length + toNat rest := by
  rw [toNat, List.foldl_cons, foldl_eq_toNat, Nat.zero_mul, Nat.zero_add]

theorem toNat_lt_room (bytes : Bytes) : toNat bytes < room bytes.length := by
  induction bytes with
  | nil => exact Nat.one_pos
  | cons byte rest ih =>
      have digit : byte.toNat ≤ 255 := Nat.le_of_lt_succ byte.toNat_lt
      have scaled := Nat.mul_le_mul_right (room rest.length) digit
      rw [toNat_cons, List.length_cons, room]
      omega

theorem ofNat_mul_room_add (width factor number : Nat) :
    ofNat width (factor * room width + number) = ofNat width number := by
  induction width generalizing factor with
  | zero => rfl
  | succ width ih =>
      have split : factor * room (width + 1) + number =
          factor * 256 * room width + number := by
        rw [room, Nat.mul_comm (room width), Nat.mul_assoc]
      have digit : (factor * 256 * room width + number) / room width =
          number / room width + factor * 256 := by
        rw [Nat.add_comm, Nat.add_mul_div_right _ _ (room_pos width)]
      rw [split, ofNat, ofNat, ih, digit]
      congr 1
      apply UInt8.toNat_inj.mp
      simp

theorem ofNat_toNat (bytes : Bytes) : ofNat bytes.length (toNat bytes) = bytes := by
  induction bytes with
  | nil => rfl
  | cons byte rest ih =>
      have digit : (byte.toNat * room rest.length + toNat rest) / room rest.length =
          byte.toNat := by
        rw [Nat.add_comm, Nat.add_mul_div_right _ _ (room_pos _),
          Nat.div_eq_of_lt (toNat_lt_room rest), Nat.zero_add]
      rw [List.length_cons, toNat_cons, ofNat, digit, ofNat_mul_room_add, ih, UInt8.ofNat_toNat]

theorem toNat_ofNat_of_lt {width number : Nat} (fits : number < room width) :
    toNat (ofNat width number) = number := by
  rw [toNat_ofNat, Nat.mod_eq_of_lt fits]

/-! ## Two's complement -/

theorem toInt_bounds (bytes : Bytes) :
    -(room bytes.length : Int) ≤ 2 * toInt bytes ∧ 2 * toInt bytes < (room bytes.length : Int) := by
  have bound := toNat_lt_room bytes
  simp only [toInt]
  split
  · omega
  · omega

theorem ofInt_toInt (bytes : Bytes) : ofInt bytes.length (toInt bytes) = bytes := by
  have bound := toNat_lt_room bytes
  have remainder : toInt bytes % (room bytes.length : Int) = (toNat bytes : Int) := by
    simp only [toInt]
    split
    · exact Int.emod_eq_of_lt (by omega) (by omega)
    · rw [Int.sub_emod, Int.emod_self, Int.sub_zero, Int.emod_emod]
      exact Int.emod_eq_of_lt (by omega) (by omega)
  rw [ofInt, remainder, Int.toNat_natCast, ofNat_toNat]

theorem toInt_ofInt {width : Nat} {number : Int} (low : -(room width : Int) ≤ 2 * number)
    (high : 2 * number < (room width : Int)) : toInt (ofInt width number) = number := by
  have positive := room_pos width
  have magnitude : toNat (ofInt width number) = (number % (room width : Int)).toNat := by
    have bound := Int.emod_lt_of_pos number (by omega : (0 : Int) < room width)
    have sign := Int.emod_nonneg number (by omega : (room width : Int) ≠ 0)
    rw [ofInt, toNat_ofNat_of_lt (by omega)]
  have length : (ofInt width number).length = width := length_ofNat _ _
  simp only [toInt, length, magnitude]
  by_cases sign : 0 ≤ number
  · rw [Int.emod_eq_of_lt sign (by omega), if_pos (by omega)]
    omega
  · have wrapped : number % (room width : Int) = number + room width := by
      rw [← Int.add_emod_right, Int.emod_eq_of_lt (by omega) (by omega)]
    rw [wrapped, if_neg (by omega)]
    omega

end LogIntake.Bytes
