import LogIntake.Bytes

/-!
# MessagePack markers

Every MessagePack item starts with one byte, its marker, which says what the item is and how the
bytes after it are to be read. Main statement: markers and bytes correspond one to one; 0xc1 is the
byte of the marker that marks nothing.
-/
set_option autoImplicit false

namespace LogIntake.MessagePack

/-- Width of the length field of a string or extension: 1, 2 or 4 bytes. -/
inductive LengthWidth where
  | one | two | four
  deriving DecidableEq, Repr

def LengthWidth.bytes : LengthWidth → Nat
  | one => 1
  | two => 2
  | four => 4

inductive CountWidth where
  | two | four
  deriving DecidableEq, Repr

def CountWidth.bytes : CountWidth → Nat
  | two => 2
  | four => 4

inductive IntegerWidth where
  | one | two | four | eight
  deriving DecidableEq, Repr

def IntegerWidth.bytes : IntegerWidth → Nat
  | one => 1
  | two => 2
  | four => 4
  | eight => 8

/-- Size of an extension without a length field: 1, 2, 4, 8 or 16 bytes of data. -/
inductive ExtSize where
  | one | two | four | eight | sixteen
  deriving DecidableEq, Repr

def ExtSize.bytes : ExtSize → Nat
  | one => 1
  | two => 2
  | four => 4
  | eight => 8
  | sixteen => 16

/-- What the first byte of an item announces. -/
inductive Marker where
  | smallUInt (number : Fin 128)
  | smallMap (fields : Fin 16)
  | smallArray (items : Fin 16)
  | smallStr (length : Fin 32)
  | nil
  | reserved
  | bool (truth : Bool)
  | bin (width : LengthWidth)
  | ext (width : LengthWidth)
  | float32
  | float64
  | uint (width : IntegerWidth)
  | int (width : IntegerWidth)
  | fixedExt (size : ExtSize)
  | str (width : LengthWidth)
  | array (width : CountWidth)
  | map (width : CountWidth)
  /-- The negative integer `index - 32`, held in the marker itself. -/
  | smallInt (index : Fin 32)
  deriving DecidableEq, Repr

namespace Marker

def toByte : Marker → UInt8
  | smallUInt number => UInt8.ofNat number.val
  | smallMap fields => UInt8.ofNat (0x80 + fields.val)
  | smallArray items => UInt8.ofNat (0x90 + items.val)
  | smallStr length => UInt8.ofNat (0xa0 + length.val)
  | nil => 0xc0
  | reserved => 0xc1
  | bool false => 0xc2
  | bool true => 0xc3
  | bin .one => 0xc4
  | bin .two => 0xc5
  | bin .four => 0xc6
  | ext .one => 0xc7
  | ext .two => 0xc8
  | ext .four => 0xc9
  | float32 => 0xca
  | float64 => 0xcb
  | uint .one => 0xcc
  | uint .two => 0xcd
  | uint .four => 0xce
  | uint .eight => 0xcf
  | int .one => 0xd0
  | int .two => 0xd1
  | int .four => 0xd2
  | int .eight => 0xd3
  | fixedExt .one => 0xd4
  | fixedExt .two => 0xd5
  | fixedExt .four => 0xd6
  | fixedExt .eight => 0xd7
  | fixedExt .sixteen => 0xd8
  | str .one => 0xd9
  | str .two => 0xda
  | str .four => 0xdb
  | array .two => 0xdc
  | array .four => 0xdd
  | map .two => 0xde
  | map .four => 0xdf
  | smallInt index => UInt8.ofNat (0xe0 + index.val)

/-- The markers from 0xc0 to 0xdf, which hold nothing of their item, by their place from 0xc0 on. -/
def ofPlace : Nat → Marker
  | 0x00 => nil
  | 0x02 => bool false
  | 0x03 => bool true
  | 0x04 => bin .one
  | 0x05 => bin .two
  | 0x06 => bin .four
  | 0x07 => ext .one
  | 0x08 => ext .two
  | 0x09 => ext .four
  | 0x0a => float32
  | 0x0b => float64
  | 0x0c => uint .one
  | 0x0d => uint .two
  | 0x0e => uint .four
  | 0x0f => uint .eight
  | 0x10 => int .one
  | 0x11 => int .two
  | 0x12 => int .four
  | 0x13 => int .eight
  | 0x14 => fixedExt .one
  | 0x15 => fixedExt .two
  | 0x16 => fixedExt .four
  | 0x17 => fixedExt .eight
  | 0x18 => fixedExt .sixteen
  | 0x19 => str .one
  | 0x1a => str .two
  | 0x1b => str .four
  | 0x1c => array .two
  | 0x1d => array .four
  | 0x1e => map .two
  | 0x1f => map .four
  | _ => reserved

def ofByte (byte : UInt8) : Marker :=
  let code := byte.toNat
  if h : code < 128 then smallUInt ⟨code, h⟩
  else if h : code - 0x80 < 16 then smallMap ⟨code - 0x80, h⟩
  else if h : code - 0x90 < 16 then smallArray ⟨code - 0x90, h⟩
  else if h : code - 0xa0 < 32 then smallStr ⟨code - 0xa0, h⟩
  else if code < 0xe0 then ofPlace (code - 0xc0)
  else smallInt ⟨code - 0xe0, by have : code < 256 := byte.toNat_lt; omega⟩

theorem ofByte_toByte (marker : Marker) : ofByte marker.toByte = marker := by
  cases marker with
  | smallUInt number => revert number; decide +kernel
  | smallMap fields => revert fields; decide +kernel
  | smallArray items => revert items; decide +kernel
  | smallStr length => revert length; decide +kernel
  | bool truth => cases truth <;> decide +kernel
  | bin width => cases width <;> decide +kernel
  | ext width => cases width <;> decide +kernel
  | uint width => cases width <;> decide +kernel
  | int width => cases width <;> decide +kernel
  | fixedExt size => cases size <;> decide +kernel
  | str width => cases width <;> decide +kernel
  | array width => cases width <;> decide +kernel
  | map width => cases width <;> decide +kernel
  | smallInt index => revert index; decide +kernel
  | nil | reserved | float32 | float64 => decide +kernel

theorem toByte_ofByte (byte : UInt8) : (ofByte byte).toByte = byte := by
  have all : ∀ code : Fin 256, (ofByte (UInt8.ofNat code.val)).toByte = UInt8.ofNat code.val := by
    decide +kernel
  simpa using all ⟨byte.toNat, byte.toNat_lt⟩

end Marker

end LogIntake.MessagePack
