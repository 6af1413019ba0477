import LogIntake.Connection

/-!
# Normal values and frames

Normalizing leaves no binary string anywhere (`textual_normalize`) and keeps all that the
recognition of frames looks at: it commutes with building records and with taking tags, times and
pairs from values. So the frame of a normalized value is the normalized frame
(`ofParts_normalize`), as long as the payload is no blob.
-/
set_option autoImplicit false

namespace LogIntake

/-! ## Values -/

theorem map_mapM {ε α β γ : Type} (f : α → Except ε β) (g : β → γ) (things : List α) :
    List.map g <$> things.mapM f = things.mapM fun thing => g <$> f thing := by
  induction things with
  | nil => rfl
  | cons thing rest ih =>
      rw [List.mapM_cons, List.mapM_cons, ← ih]
      cases f thing with
      | error cause => rfl
      | ok value =>
          cases rest.mapM f with
          | error cause => rfl
          | ok values => rfl

namespace Value

mutual

/-- Whether no binary string stands in the value, at any depth. -/
def Textual : Value → Prop
  | .binary _ => False
  | .array items => ItemsTextual items
  | .map fields => FieldsTextual fields
  | _ => True

def ItemsTextual : List Value → Prop
  | [] => True
  | item :: rest => Textual item ∧ ItemsTextual rest

def FieldsTextual : List (String × Value) → Prop
  | [] => True
  | (_, value) :: rest => Textual value ∧ FieldsTextual rest

end

mutual

theorem textual_normalize : ∀ value : Value, value.normalize.Textual
  | .nil | .bool _ | .uint _ | .int _ | .float _ | .text _ | .binary _ => trivial
  | .array items => itemsTextual_normalize items
  | .map fields => fieldsTextual_normalize fields

theorem itemsTextual_normalize : ∀ items : List Value, ItemsTextual (normalizeItems items)
  | [] => trivial
  | item :: rest => ⟨textual_normalize item, itemsTextual_normalize rest⟩

theorem fieldsTextual_normalize : ∀ fields : List (String × Value),
    FieldsTextual (normalizeFields fields)
  | [] => trivial
  | (_, value) :: rest => ⟨textual_normalize value, fieldsTextual_normalize rest⟩

end

theorem normalize_ofStringBytes (content : Bytes) :
    (ofStringBytes content).normalize = .text (Utf8.decodeLossy content) := by
  rw [ofStringBytes, Utf8.decodeLossy]
  cases decoded : Utf8.decode? content with
  | none =>
      dsimp only
      rw [normalize, Utf8.decodeLossy, decoded]
  | some content => rfl

theorem timestamp?_normalize (value : Value) : value.normalize.timestamp? = value.timestamp? := by
  cases value <;> rfl

end Value

namespace Record

theorem normalize_insert (key : String) (value : Value) (record : Record) :
    (record.insert key value).normalize = record.normalize.insert key value.normalize := by
  induction record with
  | nil => rfl
  | cons field rest ih =>
      obtain ⟨first, present⟩ := field
      simp only [normalize, Value.normalizeFields, insert] at ih ⊢
      split
      · rfl
      · split
        · rfl
        · rw [Value.normalizeFields, ih]

theorem normalize_ofFields (fields : List (String × Value)) :
    (ofFields fields).normalize = ofFields (Value.normalizeFields fields) := by
  suffices ∀ record : Record,
      (fields.foldl (fun record field => record.insert field.1 field.2) record).normalize =
        (Value.normalizeFields fields).foldl (fun record field => record.insert field.1 field.2)
          record.normalize from this []
  induction fields with
  | nil => exact fun record => rfl
  | cons field rest ih =>
      intro record
      rw [List.foldl_cons, ih, normalize_insert]
      rfl

end Record

/-! ## Frames -/

def Stamped.normalize (content : Stamped) : Stamped :=
  { content with record := content.record.normalize }

namespace Frame

def normalize : Frame → Frame
  | message tag content => message tag content.normalize
  | forward tag content => forward tag (content.map Stamped.normalize)
  | packed tag content => packed tag (content.map Stamped.normalize)

theorem size_normalize (frame : Frame) : frame.normalize.size = frame.size := by
  cases frame with
  | message tag content => rfl
  | forward tag content => exact List.length_map _
  | packed tag content => exact List.length_map _

theorem entries_normalize (frame : Frame) :
    frame.normalize.entries = frame.entries.map Entry.normalize := by
  cases frame with
  | message tag content => rfl
  | forward tag stamped | packed tag stamped =>
      simp only [entries, normalize, content, Frame.tag, List.map_map]
      rfl

theorem delivery_eq_of_normalize {frame other : Frame} (same : frame.normalize = other.normalize) :
    frame.delivery = other.delivery := by
  have sizes : frame.size = other.size := by
    rw [← size_normalize, same, size_normalize]
  have entries : frame.entries.map Entry.normalize = other.entries.map Entry.normalize := by
    rw [← entries_normalize, same, entries_normalize]
  rw [delivery, delivery, isEmpty, isEmpty, sizes, entries]

theorem textual_of_mem_delivery {frame : Frame} {batch : Batch} {entry : Entry}
    (delivered : batch ∈ frame.delivery) (inside : entry ∈ batch) :
    Value.FieldsTextual entry.data := by
  rw [delivery] at delivered
  split at delivered
  · cases delivered
  · rw [List.mem_singleton] at delivered
    subst delivered
    obtain ⟨source, -, rfl⟩ := List.mem_map.mp inside
    exact Value.fieldsTextual_normalize source.data

/-! ## Recognition -/

theorem recordOf_normalize (value : Value) :
    recordOf value.normalize = Record.normalize <$> recordOf value := by
  cases value <;> rfl

theorem stampedOf_normalize (value : Value) :
    stampedOf value.normalize = Stamped.normalize <$> stampedOf value := by
  cases value with
  | array items =>
      match items with
      | [] | [_] | _ :: _ :: _ :: _ => rfl
      | [time, data] =>
          have times := Value.timestamp?_normalize time
          have records := recordOf_normalize data
          simp only [Value.normalize, Value.normalizeItems, stampedOf, times, records]
          cases time.timestamp? with
          | none => rfl
          | some timestamp => cases recordOf data <;> rfl
  | _ => rfl

theorem mapM_stampedOf_normalize (values : List Value) :
    (values.map Value.normalize).mapM stampedOf =
      List.map Stamped.normalize <$> values.mapM stampedOf := by
  rw [List.mapM_map, map_mapM]
  exact congrArg (values.mapM ·) (funext stampedOf_normalize)

theorem tagOf_normalize (value : Value) : tagOf value.normalize = tagOf value := by
  cases value with
  | binary content => exact congrArg Except.ok (Utf8.decodeLossy_encode _)
  | _ => rfl

theorem blobPairs_normalize (values : List Value) :
    blobPairs (values.map Value.normalize) = (blobPairs values).map Value.normalize := by
  match values with
  | [] => rfl
  | _ :: _ :: _ => simp [blobPairs]
  | [value] =>
      cases value with
      | array items =>
          match items with
          | [] => rfl
          | first :: rest =>
              cases first with
              | array inner =>
                  have others := Value.normalizeItems_eq_map rest
                  simp only [List.map_cons, List.map_nil, Value.normalize, Value.normalizeItems,
                    blobPairs, others]
              | _ => rfl
      | _ => rfl

theorem unpack_normalize {blob other : Bytes}
    (same : List.map Value.normalize <$> blobValues blob =
      List.map Value.normalize <$> blobValues other) :
    List.map Stamped.normalize <$> unpack blob = List.map Stamped.normalize <$> unpack other := by
  have normal : ∀ blob, List.map Stamped.normalize <$> unpack blob =
      (List.map Value.normalize <$> blobValues blob) >>= fun values =>
        (blobPairs values).mapM stampedOf := by
    intro blob
    rw [unpack]
    cases blobValues blob with
    | error cause => rfl
    | ok values =>
        change List.map Stamped.normalize <$> (blobPairs values).mapM stampedOf =
          (blobPairs (values.map Value.normalize)).mapM stampedOf
        rw [blobPairs_normalize, mapM_stampedOf_normalize]
  rw [normal, normal, same]

/-- A payload that is no string gives a frame whether it was normalized before or not. -/
theorem ofParts_normalize (tag : String) {payload : Value} (plain : payload.bytes? = none)
    (third : Option Value) :
    ofParts tag payload.normalize (third.map Value.normalize) =
      normalize <$> ofParts tag payload third := by
  have times := Value.timestamp?_normalize payload
  cases payload with
  | text content => cases plain
  | binary blob => cases plain
  | array pairs =>
      have content := mapM_stampedOf_normalize pairs
      rw [← Value.normalizeItems_eq_map] at content
      change forward tag <$> (Value.normalizeItems pairs).mapM stampedOf =
        normalize <$> forward tag <$> pairs.mapM stampedOf
      rw [content]
      cases pairs.mapM stampedOf <;> rfl
  | uint number | float number =>
      cases third with
      | none => rfl
      | some data =>
          have records := recordOf_normalize data
          simp only [ofParts, Value.normalize, Value.timestamp?, Option.map_some, records]
          cases recordOf data <;> rfl
  | nil | bool truth | int number | map fields => rfl

end Frame

end LogIntake
