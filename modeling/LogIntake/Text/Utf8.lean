import LogIntake.Bytes

/-!
# UTF-8

Text as bytes and bytes as text. Main statements: `decode?` inverts `encode` and accepts nothing
else, and `decodeLossy` agrees with `decode?` wherever that succeeds. Bytes that are not UTF-8 read
as text in which every maximal part that no character can start with, or continue, stands as one
U+FFFD.
-/
set_option autoImplicit false

namespace LogIntake.Utf8

def encode (text : String) : Bytes := text.toUTF8.data.toList

def decode? (bytes : Bytes) : Option String := String.fromUTF8? ⟨bytes.toArray⟩

structure Range where
  low : UInt8
  high : UInt8
  deriving DecidableEq, Repr

def Range.admits (range : Range) (byte : UInt8) : Bool := range.low ≤ byte && byte ≤ range.high

/-- The bytes that follow a lead byte in a character: the Unicode table of well-formed byte
sequences, which leaves out overlong forms, surrogates and values past U+10FFFF. A byte that starts
no character has no row. -/
def followers (lead : UInt8) : Option (List Range) :=
  let tail : Range := ⟨0x80, 0xbf⟩
  if lead ≤ 0x7f then some []
  else if lead < 0xc2 then none
  else if lead ≤ 0xdf then some [tail]
  else if lead = 0xe0 then some [⟨0xa0, 0xbf⟩, tail]
  else if lead = 0xed then some [⟨0x80, 0x9f⟩, tail]
  else if lead ≤ 0xef then some [tail, tail]
  else if lead = 0xf0 then some [⟨0x90, 0xbf⟩, tail, tail]
  else if lead ≤ 0xf3 then some [tail, tail, tail]
  else if lead = 0xf4 then some [⟨0x80, 0x8f⟩, tail, tail]
  else none

/-- How many bytes at the front fit the ranges, one each, before the first that does not. -/
def fitting : List Range → Bytes → Nat
  | range :: ranges, byte :: rest => if range.admits byte then fitting ranges rest + 1 else 0
  | _, _ => 0

def leadBits (lead : UInt8) : (count : Nat) → Nat
  | 0 => lead.toNat
  | 1 => lead.toNat % 32
  | 2 => lead.toNat % 16
  | _ => lead.toNat % 8

def character (lead : UInt8) (tail : Bytes) : Char :=
  Char.ofNat
    (tail.foldl (fun value byte => value * 64 + byte.toNat % 64) (leadBits lead tail.length))

def replacement : Char := '\ufffd'

/-- Reads characters, with one replacement for each maximal part that is not one: a byte that starts
no character, or the start of a character up to the first byte that cannot continue it. -/
def substitute : Bytes → List Char
  | [] => []
  | lead :: rest =>
    match followers lead with
    | none => replacement :: substitute rest
    | some ranges =>
      let count := fitting ranges rest
      let next := if count = ranges.length then character lead (rest.take count) else replacement
      next :: substitute (rest.drop count)
termination_by bytes => bytes.length
decreasing_by all_goals simp +arith

def decodeLossy (bytes : Bytes) : String :=
  (decode? bytes).getD (String.ofList (substitute bytes))

theorem decode?_encode (text : String) : decode? (encode text) = some text := by
  simp only [decode?, encode, String.fromUTF8?, Array.toArray_toList]
  exact dif_pos text.isValidUTF8

theorem encode_of_decode? {bytes : Bytes} {text : String} (h : decode? bytes = some text) :
    encode text = bytes := by
  unfold decode? String.fromUTF8? at h
  split at h
  · cases h
    simp [encode, String.fromUTF8]
  · cases h

theorem decodeLossy_encode (text : String) : decodeLossy (encode text) = text := by
  simp [decodeLossy, decode?_encode]

end LogIntake.Utf8
