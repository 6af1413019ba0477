/-!
# Byte strings

Finite byte strings and big-endian numbers in them. Main statements: `drop?` gives the bytes after a
given count exactly when there are that many, and a number written in `width` bytes reads back
modulo the count of numbers for which those bytes have room.
-/
set_option autoImplicit false

namespace LogIntake

abbrev Bytes := List UInt8

namespace Bytes

/-- The bytes after the first `count`, when there are that many. Looks at no byte after them, so a
huge count on a short string ends with the string. -/
def drop? : (count : Nat) → Bytes → Option Bytes
  | 0, bytes => some bytes
  | _ + 1, [] => none
  | count + 1, _ :: rest => drop? count rest

theorem drop?_eq (count : Nat) (bytes : Bytes) :
    drop? count bytes = if count ≤ bytes.length then some (bytes.drop count) else none := by
  induction count generalizing bytes with
  | zero => simp [drop?]
  | succ count ih =>
    cases bytes with
    | nil => simp [drop?]
    | cons head rest => simp [drop?, ih]

/-- The number that a byte string writes, most significant byte first. -/
def toNat (bytes : Bytes) : Nat :=
  bytes.foldl (fun number byte => number * 256 + byte.toNat) 0

def room : (width : Nat) → Nat
  | 0 => 1
  | width + 1 => room width * 256

/-- The last `width` base-256 digits of a number, most significant first. -/
def ofNat : (width : Nat) → (number : Nat) → Bytes
  | 0, _ => []
  | width + 1, number => UInt8.ofNat (number / room width) :: ofNat width number

@[simp] theorem length_ofNat (width number : Nat) : (ofNat width number).length = width := by
  induction width with
  | zero => rfl
  | succ width ih => simp [ofNat, ih]

private theorem foldl_ofNat (width number start : Nat) :
    (ofNat width number).foldl (fun value byte => value * 256 + byte.toNat) start =
      start * room width + number % room width := by
  induction width generalizing start with
  | zero => simp [ofNat, room, Nat.mod_one]
  | succ width ih =>
    have digit : (UInt8.ofNat (number / room width)).toNat = number / room width % 256 := by simp
    rw [ofNat, List.foldl_cons, ih, digit, room, Nat.mod_mul, Nat.add_mul, Nat.mul_assoc,
      Nat.mul_comm 256, Nat.add_assoc, Nat.mul_comm (number / room width % 256)]
    omega

theorem toNat_ofNat (width number : Nat) : toNat (ofNat width number) = number % room width := by
  simpa [toNat] using foldl_ofNat width number 0

def toInt (bytes : Bytes) : Int :=
  let number := toNat bytes
  if 2 * number < room bytes.length then number else (number : Int) - (room bytes.length : Nat)

def ofInt (width : Nat) (number : Int) : Bytes := ofNat width (number % (room width : Nat)).toNat

end Bytes

end LogIntake
