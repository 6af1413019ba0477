import LogIntake.MessagePack.Writer
import LogIntake.Proofs.Grammar
import LogIntake.Value.Nesting

/-!
# Written values

A value in which nothing is too long for its length field is written as a fitting item
(`fits_ofValue`), which stands for the value up to the sign of its integers (`value?_ofValue`) and
has its depth (`depth_ofValue`).
-/
set_option autoImplicit false

namespace LogIntake

/-! ## Values that can be written, and what they are read back as -/

namespace Value

/-- What has fewer bytes, or elements, than this can be written. -/
def lengthLimit : Nat := 0x100000000

mutual

/-- Whether every string and every container in the value is below the limit in length, and all
fields are in key order. -/
def Writable : Value → Prop
  | .text content => (Utf8.encode content).length < lengthLimit
  | .binary content => content.length < lengthLimit
  | .array items => items.length < lengthLimit ∧ AllWritable items
  | .map fields => fields.length < lengthLimit ∧ Record.Ordered fields ∧ FieldsWritable fields
  | _ => True

def AllWritable : List Value → Prop
  | [] => True
  | item :: rest => Writable item ∧ AllWritable rest

def FieldsWritable : List (String × Value) → Prop
  | [] => True
  | (key, value) :: rest =>
    (Utf8.encode key).length < lengthLimit ∧ Writable value ∧ FieldsWritable rest

end

mutual

/-- The value with every non-negative integer, at any depth, as a `uint`. -/
def canonical : Value → Value
  | .int number => .ofInt64 number
  | .array items => .array (canonicalItems items)
  | .map fields => .map (canonicalFields fields)
  | value => value

def canonicalItems : List Value → List Value
  | [] => []
  | item :: rest => canonical item :: canonicalItems rest

def canonicalFields : List (String × Value) → List (String × Value)
  | [] => []
  | (key, value) :: rest => (key, canonical value) :: canonicalFields rest

end

mutual

/-- Whether no non-negative integer in the value, at any depth, is an `int`. -/
def Canonical : Value → Prop
  | .int number => number < 0
  | .array items => AllCanonical items
  | .map fields => FieldsCanonical fields
  | _ => True

def AllCanonical : List Value → Prop
  | [] => True
  | item :: rest => Canonical item ∧ AllCanonical rest

def FieldsCanonical : List (String × Value) → Prop
  | [] => True
  | (_, value) :: rest => Canonical value ∧ FieldsCanonical rest

end

theorem allWritable_iff {items : List Value} :
    AllWritable items ↔ ∀ item ∈ items, item.Writable := by
  induction items with
  | nil => simp [AllWritable]
  | cons item rest ih => simp [AllWritable, ih]

theorem itemsDepth_le_iff {items : List Value} {limit : Nat} :
    itemsDepth items ≤ limit ↔ ∀ item ∈ items, item.depth ≤ limit := by
  induction items with
  | nil => simp [itemsDepth]
  | cons item rest ih => simp [itemsDepth, ih]

theorem fieldsDepth_le_iff {fields : List (String × Value)} {limit : Nat} :
    fieldsDepth fields ≤ limit ↔ ∀ field ∈ fields, field.2.depth ≤ limit := by
  induction fields with
  | nil => simp [fieldsDepth]
  | cons field rest ih => simp [fieldsDepth, ih]

theorem canonicalItems_eq_map (items : List Value) :
    canonicalItems items = items.map canonical := by
  induction items with
  | nil => rfl
  | cons item rest ih => rw [canonicalItems, ih, List.map_cons]

mutual

theorem canonical_eq_self : ∀ {value : Value}, value.Canonical → value.canonical = value
  | .nil, _ | .bool _, _ | .uint _, _ | .float _, _ | .text _, _ | .binary _, _ => rfl
  | .int _, negative => if_neg (Int64.not_le.mpr negative)
  | .array _, all => congrArg array (canonicalItems_eq_self all)
  | .map _, all => congrArg map (canonicalFields_eq_self all)

theorem canonicalItems_eq_self : ∀ {items : List Value}, AllCanonical items →
    canonicalItems items = items
  | [], _ => rfl
  | _ :: _, ⟨first, later⟩ =>
      congrArg₂ List.cons (canonical_eq_self first) (canonicalItems_eq_self later)

theorem canonicalFields_eq_self : ∀ {fields : List (String × Value)}, FieldsCanonical fields →
    canonicalFields fields = fields
  | [], _ => rfl
  | (key, _) :: _, ⟨first, later⟩ =>
      congrArg₂ List.cons (congrArg (key, ·) (canonical_eq_self first))
        (canonicalFields_eq_self later)

end

theorem keys_canonicalFields (fields : List (String × Value)) :
    (canonicalFields fields).map Prod.fst = fields.map Prod.fst := by
  induction fields with
  | nil => rfl
  | cons field rest ih => rw [canonicalFields, List.map_cons, List.map_cons, ih]

end Value

namespace MessagePack

open Value (lengthLimit)

/-! ## Least widths -/

theorem lt_room_least_length {length : Nat} (short : length < lengthLimit) :
    length < Bytes.room (LengthWidth.least length).bytes := by
  rw [LengthWidth.least]
  split
  · assumption
  · split
    · assumption
    · exact short

theorem lt_room_least_count {count : Nat} (short : count < lengthLimit) :
    count < Bytes.room (CountWidth.least count).bytes := by
  rw [CountWidth.least]
  split
  · assumption
  · exact short

namespace Item

/-! ## Single items -/

theorem ofNat_spec {number : Nat} (bound : number < 0x10000000000000000) :
    (ofNat number).Fits ∧ (ofNat number).value? = some (.uint (UInt64.ofNat number)) ∧
      (ofNat number).depth = 0 := by
  unfold ofNat
  split
  · exact ⟨trivial, rfl, rfl⟩
  · split
    · next small => exact ⟨small, rfl, rfl⟩
    · split
      · next small => exact ⟨small, rfl, rfl⟩
      · split
        · next small => exact ⟨small, rfl, rfl⟩
        · exact ⟨bound, rfl, rfl⟩

theorem int_spec {width : IntegerWidth} {number : Int} (negative : ¬ 0 ≤ number)
    (low : -(Bytes.room width.bytes : Int) ≤ 2 * number) :
    (Item.int width number).Fits ∧
      (Item.int width number).value? = some (.int (Int64.ofInt number)) ∧
      (Item.int width number).depth = 0 :=
  ⟨⟨low, by omega⟩, by rw [value?, if_neg negative], rfl⟩

theorem ofInt_spec {number : Int} (low : -0x8000000000000000 ≤ number)
    (high : number < 0x8000000000000000) :
    (ofInt number).Fits ∧ (ofInt number).value? = some (.ofInt64 (Int64.ofInt number)) ∧
      (ofInt number).depth = 0 := by
  rw [ofInt64_ofInt low high]
  unfold ofInt
  split
  · exact ofNat_spec (by omega)
  · next negative =>
    split
    · next small =>
      refine ⟨trivial, ?_, rfl⟩
      have index : (((number + 32).toNat : Nat) : Int) - 32 = number := by omega
      rw [value?, index]
    · split
      · exact int_spec negative (show -(0x100 : Int) ≤ 2 * number by omega)
      · split
        · exact int_spec negative (show -(0x10000 : Int) ≤ 2 * number by omega)
        · split
          · exact int_spec negative (show -(0x100000000 : Int) ≤ 2 * number by omega)
          · exact int_spec negative (show -(0x10000000000000000 : Int) ≤ 2 * number by omega)

theorem ofStr_spec {content : Bytes} (short : content.length < lengthLimit) :
    (ofStr content).Fits ∧ (ofStr content).value? = some (.ofStringBytes content) ∧
      (ofStr content).string? = some content ∧ (ofStr content).depth = 0 := by
  unfold ofStr
  split
  · next small => exact ⟨small, rfl, rfl, rfl⟩
  · exact ⟨lt_room_least_length short, rfl, rfl, rfl⟩

theorem ofStringBytes_encode (content : String) :
    Value.ofStringBytes (Utf8.encode content) = .text content := by
  rw [Value.ofStringBytes, Utf8.decode?_encode]

/-! ## Items of values -/

theorem length_ofValues (values : List Value) : (ofValues values).length = values.length := by
  induction values with
  | nil => rfl
  | cons value rest ih => rw [ofValues, List.length_cons, List.length_cons, ih]

theorem length_ofRecord (record : List (String × Value)) :
    (ofRecord record).length = record.length := by
  induction record with
  | nil => rfl
  | cons field rest ih => rw [ofRecord, List.length_cons, List.length_cons, ih]

theorem ofItems_fits {items : List Item} (short : items.length < lengthLimit) (fit : AllFit items) :
    (ofItems items).Fits := by
  unfold ofItems
  split
  · next small => exact ⟨small, fit⟩
  · exact ⟨lt_room_least_count short, fit⟩

theorem ofFields_fits {fields : List (Item × Item)} (short : fields.length < lengthLimit)
    (fit : AllFieldsFit fields) : (ofFields fields).Fits := by
  unfold ofFields
  split
  · next small => exact ⟨small, fit⟩
  · exact ⟨lt_room_least_count short, fit⟩

theorem value?_ofItems (items : List Item) :
    (ofItems items).value? = (values? items).map .array := by
  unfold ofItems
  split <;> rfl

theorem value?_ofFields (fields : List (Item × Item)) :
    (ofFields fields).value? =
      (fields? fields).map fun fields => .map (Record.ofFields fields) := by
  unfold ofFields
  split <;> rfl

theorem depth_ofItems (items : List Item) : (ofItems items).depth = itemsDepth items + 1 := by
  unfold ofItems
  split <;> rfl

theorem depth_ofFields (fields : List (Item × Item)) :
    (ofFields fields).depth = fieldsDepth fields + 1 := by
  unfold ofFields
  split <;> rfl

mutual

theorem fits_ofValue : ∀ {value : Value}, value.Writable → (ofValue value).Fits
  | .nil, _ | .bool _, _ | .float _, _ => trivial
  | .uint number, _ => (ofNat_spec number.toNat_lt).1
  | .int number, _ => (ofInt_spec (Int64.le_toInt number) (Int64.toInt_lt number)).1
  | .text _, short => (ofStr_spec short).1
  | .binary _, short => lt_room_least_length short
  | .array _, ⟨short, all⟩ => ofItems_fits (by rwa [length_ofValues]) (fits_ofValues all)
  | .map _, ⟨short, _, all⟩ => ofFields_fits (by rwa [length_ofRecord]) (fits_ofRecord all)

theorem fits_ofValues : ∀ {values : List Value}, Value.AllWritable values → AllFit (ofValues values)
  | [], _ => trivial
  | _ :: _, ⟨first, later⟩ => ⟨fits_ofValue first, fits_ofValues later⟩

theorem fits_ofRecord : ∀ {record : List (String × Value)}, Value.FieldsWritable record →
    AllFieldsFit (ofRecord record)
  | [], _ => trivial
  | _ :: _, ⟨key, first, later⟩ => ⟨(ofStr_spec key).1, fits_ofValue first, fits_ofRecord later⟩

end

mutual

/-- The item of a value stands for the value, its integers told apart by their sign. -/
theorem value?_ofValue : ∀ {value : Value}, value.Writable →
    (ofValue value).value? = some value.canonical
  | .nil, _ | .bool _, _ | .float _, _ | .binary _, _ => rfl
  | .uint number, _ => by
      rw [ofValue, (ofNat_spec number.toNat_lt).2.1, UInt64.ofNat_toNat]
      rfl
  | .int number, _ => by
      rw [ofValue, (ofInt_spec (Int64.le_toInt number) (Int64.toInt_lt number)).2.1,
        Int64.ofInt_toInt]
      rfl
  | .text content, short => by
      rw [ofValue, (ofStr_spec short).2.1, ofStringBytes_encode]
      rfl
  | .array items, ⟨_, all⟩ => by
      rw [ofValue, value?_ofItems, values?_ofValues all]
      rfl
  | .map fields, ⟨_, ordered, all⟩ => by
      have same : Record.Ordered (Value.canonicalFields fields) := by
        rw [Record.Ordered, Value.keys_canonicalFields]
        exact ordered
      rw [ofValue, value?_ofFields, fields?_ofRecord all, Option.map_some,
        Record.ofFields_of_ordered same]
      rfl

theorem values?_ofValues : ∀ {values : List Value}, Value.AllWritable values →
    values? (ofValues values) = some (Value.canonicalItems values)
  | [], _ => rfl
  | value :: rest, ⟨first, later⟩ => by
      rw [ofValues, values?, value?_ofValue first, values?_ofValues later]
      rfl

theorem fields?_ofRecord : ∀ {record : List (String × Value)}, Value.FieldsWritable record →
    fields? (ofRecord record) = some (Value.canonicalFields record)
  | [], _ => rfl
  | (key, value) :: rest, ⟨short, first, later⟩ => by
      rw [ofRecord, fields?, (ofStr_spec short).2.2.1, value?_ofValue first,
        fields?_ofRecord later]
      simp only [Option.bind_eq_bind, Option.bind_some, Utf8.decodeLossy_encode]
      rfl

end

mutual

theorem depth_ofValue : ∀ {value : Value}, value.Writable → (ofValue value).depth = value.depth
  | .nil, _ | .bool _, _ | .float _, _ | .binary _, _ => rfl
  | .uint number, _ => (ofNat_spec number.toNat_lt).2.2
  | .int number, _ => (ofInt_spec (Int64.le_toInt number) (Int64.toInt_lt number)).2.2
  | .text content, short => (ofStr_spec short).2.2.2
  | .array items, ⟨_, all⟩ => by
      rw [ofValue, depth_ofItems, depth_ofValues all, Value.depth]
  | .map fields, ⟨_, _, all⟩ => by
      rw [ofValue, depth_ofFields, depth_ofRecord all, Value.depth]

theorem depth_ofValues : ∀ {values : List Value}, Value.AllWritable values →
    itemsDepth (ofValues values) = Value.itemsDepth values
  | [], _ => rfl
  | value :: rest, ⟨first, later⟩ => by
      rw [ofValues, itemsDepth, depth_ofValue first, depth_ofValues later, Value.itemsDepth]

theorem depth_ofRecord : ∀ {record : List (String × Value)}, Value.FieldsWritable record →
    fieldsDepth (ofRecord record) = Value.fieldsDepth record
  | [], _ => rfl
  | (key, value) :: rest, ⟨short, first, later⟩ => by
      rw [ofRecord, fieldsDepth, (ofStr_spec short).2.2.2, depth_ofValue first,
        depth_ofRecord later, Value.fieldsDepth, Nat.zero_max]

end

end Item

theorem readWithin_write {limit : Nat} {value : Value} (writable : value.Writable) (rest : Bytes) :
    readWithin limit (write value ++ rest) =
      outcome (within limit value.depth value.canonical) rest := by
  rw [write, readWithin_bytes limit (Item.fits_ofValue writable),
    Item.valueWithin_of_value? (Item.value?_ofValue writable), Item.depth_ofValue writable]

theorem decode_write {value : Value} (writable : value.Writable) (rest : Bytes) :
    decode (write value ++ rest) =
      if value.depth ≤ 1023 then .ok (some (value.canonical, (write value).length))
      else .error .tooDeep := by
  have run := @readWithin_write 1023 value writable rest
  by_cases shallow : value.depth ≤ 1023
  · rw [within, if_pos shallow] at run
    rw [if_pos shallow]
    refine decode_eq_some.mpr ⟨?_, ?_⟩
    · rw [List.length_append]
      exact Nat.le_add_right _ _
    · rw [List.drop_left]
      exact run
  · rw [within, if_neg shallow] at run
    rw [if_neg shallow]
    exact decode_eq_error.mpr run

end MessagePack

end LogIntake
