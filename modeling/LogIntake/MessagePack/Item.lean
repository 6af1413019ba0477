import LogIntake.MessagePack.Marker
import LogIntake.Value.Basic

/-!
# MessagePack items

The grammar of the format as trees. An `Item` keeps the form in which it is written: most numbers
and strings can be written in several, and the shortest need not be taken. `bytes` is the written
form, `Fits` says that every number and length has room in its form, `depth` counts nested
containers, and `value?` is the value that an item stands for. Extensions, and maps with keys that
are no strings, are items and stand for no value.
-/
set_option autoImplicit false

namespace LogIntake.MessagePack

inductive Item where
  | nil
  | bool (truth : Bool)
  | smallUInt (number : Fin 128)
  /-- The integer `index - 32`. -/
  | smallInt (index : Fin 32)
  | uint (width : IntegerWidth) (number : Nat)
  | int (width : IntegerWidth) (number : Int)
  | float32 (bits : UInt32)
  | float64 (bits : UInt64)
  | smallStr (content : Bytes)
  | str (width : LengthWidth) (content : Bytes)
  | bin (width : LengthWidth) (content : Bytes)
  | fixedExt (size : ExtSize) (type : UInt8) (content : Bytes)
  | ext (width : LengthWidth) (type : UInt8) (content : Bytes)
  | smallArray (items : List Item)
  | array (width : CountWidth) (items : List Item)
  | smallMap (fields : List (Item × Item))
  | map (width : CountWidth) (fields : List (Item × Item))
  deriving Repr, Inhabited

namespace Item

mutual

def bytes : Item → Bytes
  | .nil => [Marker.nil.toByte]
  | .bool truth => [(Marker.bool truth).toByte]
  | .smallUInt number => [(Marker.smallUInt number).toByte]
  | .smallInt index => [(Marker.smallInt index).toByte]
  | .uint width number => (Marker.uint width).toByte :: Bytes.ofNat width.bytes number
  | .int width number => (Marker.int width).toByte :: Bytes.ofInt width.bytes number
  | .float32 bits => Marker.float32.toByte :: Bytes.ofNat 4 bits.toNat
  | .float64 bits => Marker.float64.toByte :: Bytes.ofNat 8 bits.toNat
  | .smallStr content => (Marker.smallStr (Fin.ofNat 32 content.length)).toByte :: content
  | .str width content =>
    (Marker.str width).toByte :: (Bytes.ofNat width.bytes content.length ++ content)
  | .bin width content =>
    (Marker.bin width).toByte :: (Bytes.ofNat width.bytes content.length ++ content)
  | .fixedExt size type content => (Marker.fixedExt size).toByte :: type :: content
  | .ext width type content =>
    (Marker.ext width).toByte :: (Bytes.ofNat width.bytes content.length ++ type :: content)
  | .smallArray items =>
    (Marker.smallArray (Fin.ofNat 16 items.length)).toByte :: bytesOfItems items
  | .array width items =>
    (Marker.array width).toByte :: (Bytes.ofNat width.bytes items.length ++ bytesOfItems items)
  | .smallMap fields =>
    (Marker.smallMap (Fin.ofNat 16 fields.length)).toByte :: bytesOfFields fields
  | .map width fields =>
    (Marker.map width).toByte :: (Bytes.ofNat width.bytes fields.length ++ bytesOfFields fields)

def bytesOfItems : List Item → Bytes
  | [] => []
  | item :: rest => bytes item ++ bytesOfItems rest

def bytesOfFields : List (Item × Item) → Bytes
  | [] => []
  | (key, value) :: rest => bytes key ++ bytes value ++ bytesOfFields rest

end

def marker : Item → Marker
  | .nil => .nil
  | .bool truth => .bool truth
  | .smallUInt number => .smallUInt number
  | .smallInt index => .smallInt index
  | .uint width _ => .uint width
  | .int width _ => .int width
  | .float32 _ => .float32
  | .float64 _ => .float64
  | .smallStr content => .smallStr (Fin.ofNat 32 content.length)
  | .str width _ => .str width
  | .bin width _ => .bin width
  | .fixedExt size _ _ => .fixedExt size
  | .ext width _ _ => .ext width
  | .smallArray items => .smallArray (Fin.ofNat 16 items.length)
  | .array width _ => .array width
  | .smallMap fields => .smallMap (Fin.ofNat 16 fields.length)
  | .map width _ => .map width

mutual

/-- Whether every number and length in the item has room in the form that it is written in. -/
def Fits : Item → Prop
  | .uint width number => number < Bytes.room width.bytes
  | .int width number =>
    -(Bytes.room width.bytes : Int) ≤ 2 * number ∧ 2 * number < (Bytes.room width.bytes : Int)
  | .smallStr content => content.length < 32
  | .str width content | .bin width content | .ext width _ content =>
    content.length < Bytes.room width.bytes
  | .fixedExt size _ content => content.length = size.bytes
  | .smallArray items => items.length < 16 ∧ AllFit items
  | .array width items => items.length < Bytes.room width.bytes ∧ AllFit items
  | .smallMap fields => fields.length < 16 ∧ AllFieldsFit fields
  | .map width fields => fields.length < Bytes.room width.bytes ∧ AllFieldsFit fields
  | _ => True

def AllFit : List Item → Prop
  | [] => True
  | item :: rest => Fits item ∧ AllFit rest

def AllFieldsFit : List (Item × Item) → Prop
  | [] => True
  | (key, value) :: rest => Fits key ∧ Fits value ∧ AllFieldsFit rest

end

mutual

/-- The greatest number of arrays and maps, one inside the other, on a way into the item. -/
def depth : Item → Nat
  | .smallArray items | .array _ items => itemsDepth items + 1
  | .smallMap fields | .map _ fields => fieldsDepth fields + 1
  | _ => 0

def itemsDepth : List Item → Nat
  | [] => 0
  | item :: rest => max (depth item) (itemsDepth rest)

def fieldsDepth : List (Item × Item) → Nat
  | [] => 0
  | (key, value) :: rest => max (max (depth key) (depth value)) (fieldsDepth rest)

end

def string? : Item → Option Bytes
  | .smallStr content | .str _ content | .bin _ content => some content
  | _ => none

mutual

/-- The value that an item stands for, if it stands for one. Integers are told apart by their sign
alone, text that is not UTF-8 is a binary string, and of fields with one key the last counts. -/
def value? : Item → Option Value
  | .nil => some .nil
  | .bool truth => some (.bool truth)
  | .smallUInt number => some (.uint (UInt64.ofNat number.val))
  | .smallInt index => some (.int (Int64.ofInt ((index.val : Int) - 32)))
  | .uint _ number => some (.uint (UInt64.ofNat number))
  | .int _ number =>
    some (if 0 ≤ number then .uint (UInt64.ofNat number.toNat) else .int (Int64.ofInt number))
  | .float32 bits => some (.float (Binary64.ofBinary32Bits bits))
  | .float64 bits => some (.float ⟨bits⟩)
  | .smallStr content | .str _ content => some (.ofStringBytes content)
  | .bin _ content => some (.binary content)
  | .fixedExt .. | .ext .. => none
  | .smallArray items | .array _ items => (values? items).map .array
  | .smallMap fields | .map _ fields =>
    (fields? fields).map fun fields => .map (Record.ofFields fields)

def values? : List Item → Option (List Value)
  | [] => some []
  | item :: rest => do return (← value? item) :: (← values? rest)

def fields? : List (Item × Item) → Option (List (String × Value))
  | [] => some []
  | (key, item) :: rest => do
    return (Utf8.decodeLossy (← string? key), ← value? item) :: (← fields? rest)

end

end Item

end LogIntake.MessagePack
