import LogIntake.MessagePack.Item

/-!
# Values as MessagePack

The written form of a value is that of one item. Everything takes the smallest form that holds it,
floats take eight bytes, and fields stand in key order. An integer is written by its sign and
magnitude alone, so a non-negative `int` looks like a `uint`.
-/
set_option autoImplicit false

namespace LogIntake.MessagePack

def LengthWidth.least (length : Nat) : LengthWidth :=
  if length < UInt8.size then .one else if length < UInt16.size then .two else .four

def CountWidth.least (count : Nat) : CountWidth := if count < UInt16.size then .two else .four

namespace Item

/-- The smallest item for a non-negative integer below `2 ^ 64`. -/
def ofNat (number : Nat) : Item :=
  if h : number < 128 then .smallUInt ⟨number, h⟩
  else if number < UInt8.size then .uint .one number
  else if number < UInt16.size then .uint .two number
  else if number < UInt32.size then .uint .four number
  else .uint .eight number

/-- The smallest item for an integer from `-2 ^ 63` to below `2 ^ 64`. -/
def ofInt (number : Int) : Item :=
  if _sign : 0 ≤ number then ofNat number.toNat
  else if _small : -0x20 ≤ number then .smallInt ⟨(number + 32).toNat, by omega⟩
  else if -0x80 ≤ number then .int .one number
  else if -0x8000 ≤ number then .int .two number
  else if -0x80000000 ≤ number then .int .four number
  else .int .eight number

def ofStr (content : Bytes) : Item :=
  if content.length < 32 then .smallStr content else .str (.least content.length) content

def ofBin (content : Bytes) : Item := .bin (.least content.length) content

def ofItems (items : List Item) : Item :=
  if items.length < 16 then .smallArray items else .array (.least items.length) items

def ofFields (fields : List (Item × Item)) : Item :=
  if fields.length < 16 then .smallMap fields else .map (.least fields.length) fields

mutual

def ofValue : Value → Item
  | .nil => .nil
  | .bool truth => .bool truth
  | .uint number => ofNat number.toNat
  | .int number => ofInt number.toInt
  | .float number => .float64 number.bits
  | .text content => ofStr (Utf8.encode content)
  | .binary content => ofBin content
  | .array items => ofItems (ofValues items)
  | .map fields => ofFields (ofRecord fields)

def ofValues : List Value → List Item
  | [] => []
  | value :: rest => ofValue value :: ofValues rest

def ofRecord : List (String × Value) → List (Item × Item)
  | [] => []
  | (key, value) :: rest => (ofStr (Utf8.encode key), ofValue value) :: ofRecord rest

end

end Item

def write (value : Value) : Bytes := (Item.ofValue value).bytes

def writeRecord (record : Record) : Bytes := write (.map record)

end LogIntake.MessagePack
