import LogIntake.Proofs.Finality
import LogIntake.Proofs.Recognition

/-!
# Wire types and shapes

The marker of a frame's payload tells its shape, with one exception (`marker_picks_shape`): a number
makes a message, an array a forward frame and a bin a packed frame, but a str that is not UTF-8 is
read as a bin, and so makes a packed frame as well. A str that is UTF-8 makes no frame.
-/
set_option autoImplicit false

namespace LogIntake

namespace MessagePack

def Marker.kind? : Marker → Option Kind
  | smallUInt _ | smallInt _ | uint _ | int _ => some .integer
  | float32 | float64 => some .float
  | smallStr _ | str _ => some .string
  | bin _ => some .binary
  | smallArray _ | array _ => some .array
  | smallMap _ | map _ => some .map
  | nil => some .nil
  | bool _ => some .bool
  | reserved | ext _ | fixedExt _ => none

namespace Item

/-- Whether the item is announced as text but its bytes are not UTF-8. -/
def Garbled (item : Item) : Prop :=
  item.marker.kind? = some .string ∧
    ∃ content, item.string? = some content ∧ Utf8.decode? content = none

variable {item : Item} {value : Value}

theorem kind?_marker (stands : item.value? = some value) (whole : ¬ item.Garbled) :
    item.marker.kind? = some value.kind := by
  cases item with
  | smallStr content | str width content =>
      cases stands
      cases decoded : Utf8.decode? content with
      | none => exact absurd ⟨rfl, content, rfl, decoded⟩ whole
      | some text => rw [Value.ofStringBytes, decoded]; rfl
  | int width number =>
      cases stands
      split <;> rfl
  | smallArray items | array width items | smallMap fields | map width fields =>
      obtain ⟨inner, -, rfl⟩ := Option.map_eq_some_iff.mp stands
      rfl
  | fixedExt size type content | ext width type content => cases stands
  | _ =>
      cases stands
      rfl

theorem kind_of_garbled (stands : item.value? = some value) (garbled : item.Garbled) :
    value.kind = .binary := by
  obtain ⟨announced, content, string, broken⟩ := garbled
  cases item with
  | smallStr bytes | str width bytes =>
      cases string
      cases stands
      rw [Value.ofStringBytes, broken]
      rfl
  | bin width bytes => cases announced
  | _ => cases string

theorem kind_eq_binary_iff (stands : item.value? = some value) :
    value.kind = .binary ↔ item.marker.kind? = some .binary ∨ item.Garbled := by
  by_cases garbled : item.Garbled
  · simp only [kind_of_garbled stands garbled, garbled, or_true]
  · rw [kind?_marker stands garbled, Option.some.injEq, or_iff_left garbled]

theorem kind_eq_iff {kind : Kind} (stands : item.value? = some value) (string : kind ≠ .string)
    (binary : kind ≠ .binary) : value.kind = kind ↔ item.marker.kind? = some kind := by
  by_cases garbled : item.Garbled
  · rw [kind_of_garbled stands garbled, garbled.1, Option.some.injEq]
    exact ⟨fun same => absurd same.symm binary, fun same => absurd same.symm string⟩
  · rw [kind?_marker stands garbled, Option.some.injEq]

theorem form_of_array {values : List Value} (stands : item.value? = some (.array values)) :
    ∃ items, item.form = .array items ∧ values? items = some values := by
  have announced : item.marker.kind? = some .array :=
    (kind_eq_iff stands (by decide) (by decide)).mp rfl
  cases item with
  | smallArray items | array width items =>
      obtain ⟨inner, found, same⟩ := Option.map_eq_some_iff.mp stands
      cases same
      exact ⟨items, rfl, found⟩
  | _ => cases announced

theorem values?_eq_cons {items : List Item} {values : List Value} :
    values? items = some (value :: values) ↔
      ∃ first rest, items = first :: rest ∧ first.value? = some value ∧
        values? rest = some values := by
  cases items with
  | nil => simp [values?]
  | cons item rest => simp [values?, Option.bind_eq_some_iff]

end Item

end MessagePack

namespace Frame

open MessagePack (Item decode)

theorem Carries.shape_iff {payload : Value} {third : Option Value} {shape : Shape}
    {pairs : List Value} (carries : Carries payload third shape pairs) :
    (shape = .message ↔ payload.kind = .integer ∨ payload.kind = .float) ∧
    (shape = .forward ↔ payload.kind = .array) ∧
    (shape = .packed ↔ payload.kind = .binary) := by
  cases carries with
  | message times data => cases times <;> simp [Value.kind]
  | forward pairs third => simp [Value.kind]
  | packed fills unwraps third => simp [Value.kind]

theorem shape_of_item {item : Item} {value : Value} {frame : Frame}
    (stands : item.value? = some value) (found : ofValue value = .ok frame) :
    ∃ tag payload more, item.form = .array (tag :: payload :: more) ∧
      (frame.shape = .message ↔
        payload.marker.kind? = some .integer ∨ payload.marker.kind? = some .float) ∧
      (frame.shape = .forward ↔ payload.marker.kind? = some .array) ∧
      (frame.shape = .packed ↔ payload.marker.kind? = some .binary ∨ payload.Garbled) := by
  obtain ⟨first, second, third, pairs, rfl, -, carries, -⟩ := ofValue_eq_ok.mp found
  obtain ⟨items, form, all⟩ := Item.form_of_array stands
  obtain ⟨tag, items, rfl, -, all⟩ := Item.values?_eq_cons.mp all
  obtain ⟨payload, more, rfl, read, -⟩ := Item.values?_eq_cons.mp all
  obtain ⟨message, forward, packed⟩ := carries.shape_iff
  refine ⟨tag, payload, more, form, ?_, ?_, ?_⟩
  · rw [message, Item.kind_eq_iff read (by decide) (by decide),
      Item.kind_eq_iff read (by decide) (by decide)]
  · rw [forward, Item.kind_eq_iff read (by decide) (by decide)]
  · rw [packed, Item.kind_eq_binary_iff read]

theorem value?_of_parse {buffer : Bytes} {frame : Frame} {consumed : Nat} {item : Item}
    (found : parse buffer = .complete frame consumed) (fits : item.Fits)
    (written : buffer.take consumed = item.bytes) :
    ∃ value, item.value? = some value ∧ ofValue value = .ok frame := by
  obtain ⟨value, read, recognised⟩ := parse_eq_complete.mp found
  have alone := (scan_of_decode read).2
  rw [written, MessagePack.decode_bytes fits] at alone
  cases given : item.valueWithin 1023 with
  | error cause => rw [given] at alone; cases alone
  | ok present =>
      rw [given] at alone
      cases alone
      exact ⟨value, (Item.valueWithin_eq_ok.mp given).1, recognised⟩

/-- An array with a str in its second slot is refused, or the str is not UTF-8 and was taken for a
blob. -/
theorem refused_or_garbled {item tag payload : Item} {more : List Item} {value : Value}
    (stands : item.value? = some value) (form : item.form = .array (tag :: payload :: more))
    (announced : payload.marker.kind? = some .string) :
    (∃ cause, ofValue value = .error cause) ∨
      payload.Garbled ∧ ∃ frame, ofValue value = .ok frame ∧ frame.shape = .packed := by
  cases found : ofValue value with
  | error cause => exact .inl ⟨cause, rfl⟩
  | ok frame =>
      obtain ⟨first, second, later, alsoForm, message, forward, packed⟩ :=
        shape_of_item stands found
      rw [form] at alsoForm
      cases alsoForm
      rw [announced] at message forward packed
      cases shape : frame.shape with
      | message => rcases message.mp shape with other | other <;> cases other
      | forward => cases forward.mp shape
      | packed =>
          rcases packed.mp shape with other | garbled
          · cases other
          · exact .inr ⟨garbled, frame, rfl, shape⟩

/-- The payload of a frame is a number on the wire just when the frame is a message, and an array
just when it is a forward frame. It is a bin when the frame is packed, or else a str that is not
UTF-8. A frame with a str for its payload that is UTF-8 is refused. -/
theorem marker_picks_shape (buffer : Bytes) :
    (∀ frame consumed, parse buffer = .complete frame consumed →
      (∃ item : Item, item.Fits ∧ buffer.take consumed = item.bytes) ∧
      ∀ item : Item, item.Fits → buffer.take consumed = item.bytes →
        ∃ tag payload more, item.form = .array (tag :: payload :: more) ∧
          (frame.shape = .message ↔
            payload.marker.kind? = some .integer ∨ payload.marker.kind? = some .float) ∧
          (frame.shape = .forward ↔ payload.marker.kind? = some .array) ∧
          (frame.shape = .packed ↔ payload.marker.kind? = some .binary ∨ payload.Garbled)) ∧
    ∀ (item tag payload : Item) (more : List Item) (value : Value), item.Fits → item.depth ≤ 1023 →
      item.value? = some value → item.bytes <+: buffer →
      item.form = .array (tag :: payload :: more) → payload.marker.kind? = some .string →
      (∃ cause, parse buffer = .faulty (.malformed cause)) ∨
        payload.Garbled ∧
          ∃ frame, parse buffer = .complete frame item.bytes.length ∧ frame.shape = .packed := by
  constructor
  · intro frame consumed found
    constructor
    · obtain ⟨value, read, -⟩ := parse_eq_complete.mp found
      obtain ⟨item, fits, -, -, -, written⟩ := MessagePack.decode_eq_some_iff_item.mp read
      exact ⟨item, fits, written⟩
    · intro item fits written
      obtain ⟨value, stands, recognised⟩ := value?_of_parse found fits written
      exact shape_of_item stands recognised
  · rintro item tag payload more value fits shallow stands ⟨rest, rfl⟩ form announced
    have read : decode (item.bytes ++ rest) = .ok (some (value, item.bytes.length)) := by
      refine MessagePack.decode_eq_some_iff_item.mpr ⟨item, fits, shallow, stands, ?_, ?_⟩
      · rw [List.length_append]
        exact Nat.le_add_right _ _
      · exact List.take_left
    have parsed := parse_of_decode read
    rcases refused_or_garbled stands form announced with ⟨cause, refused⟩ | ⟨garbled, frame, whole⟩
    · rw [refused] at parsed
      exact .inl ⟨cause, parsed⟩
    · rw [whole.1] at parsed
      exact .inr ⟨garbled, frame, parsed, whole.2⟩

/-- A str with the bytes of a pair, which are not UTF-8. -/
def pairAsStr : Item := .smallStr [0x92, 0x01, 0x81, 0xa1, 0x6b, 0xc0]

theorem str_of_pair_makes_packed_frame :
    (Item.smallArray [.smallStr [0x74], pairAsStr]).Fits ∧
    pairAsStr.marker.kind? = some .string ∧
    parse (Item.smallArray [.smallStr [0x74], pairAsStr]).bytes =
      .complete (.packed "t" [⟨1, [("k", .nil)]⟩]) 10 := by
  refine ⟨?_, rfl, ?_⟩
  · simp [pairAsStr, Item.Fits, Item.AllFit]
  · have read : decode (Item.smallArray [.smallStr [0x74], pairAsStr]).bytes = .ok (some
        (.array [.text "t", .binary [0x92, 0x01, 0x81, 0xa1, 0x6b, 0xc0]], 10)) :=
      set_option maxRecDepth 1024 in rfl
    have held : MessagePack.read [0x92, 0x01, 0x81, 0xa1, 0x6b, 0xc0] =
        .ok (.array [.uint 1, .map [("k", .nil)]], []) := set_option maxRecDepth 1024 in rfl
    have taken : ofValue (.array [.text "t", .binary [0x92, 0x01, 0x81, 0xa1, 0x6b, 0xc0]]) =
        .ok (.packed "t" [⟨1, [("k", .nil)]⟩]) :=
      congrArg (packed "t" <$> ·) (unpack_of_read (by decide) held)
    exact parse_eq_complete.mpr ⟨_, read, taken⟩

end Frame

end LogIntake
