import LogIntake.Load.Options
import LogIntake.Proofs.Canonical
import LogIntake.Proofs.Normalizing
import LogIntake.Proofs.RoundTrip
import LogIntake.Proofs.Texts

/-!
# Payloads from JSON text

A JSON value stands for one without binary strings, its non-negative integers as such, its fields in
key order (`fromJson_ofJson`), and one that was read is no deeper than 127 containers
(`depth_le_of_read?`). These are the values that come back from the wire, and from normalizing, as
they were (`json_payload_arrives_unchanged`).
-/
set_option autoImplicit false

namespace LogIntake

/-! ## Numbers -/

namespace Json

def Numeral.magnitude (numeral : Numeral) : Nat := Digits.ofDigits 10 numeral.whole

/-- Whether the numeral writes an integer, by digits alone, for which there is a word. Minus zero is
none. -/
def Numeral.FitsWord (numeral : Numeral) : Prop :=
  numeral.fraction = none ∧ numeral.power = none ∧
    if numeral.negative then 0 < numeral.magnitude ∧ numeral.magnitude ≤ 0x8000000000000000
    else numeral.magnitude < 0x10000000000000000

def Numeral.word (numeral : Numeral) : Value :=
  if numeral.negative then .int (Int64.ofInt (-numeral.magnitude))
  else .uint (UInt64.ofNat numeral.magnitude)

variable {numeral : Numeral} {json : Json}

theorem exists_float_of_value? (read : numeral.value? = some json)
    (other : ¬ (numeral.fraction = none ∧ numeral.power = none ∧
      (gather 0 numeral.whole).2 = [])) : ∃ float, json = .float float := by
  rw [Numeral.value?] at read
  split at read
  · next significand dropped gathered =>
    split at read
    · next fraction power =>
      exact absurd ⟨fraction, power, congrArg Prod.snd gathered⟩ other
    · dsimp only at read
      split at read
      · split at read
        · cases read
          exact ⟨_, rfl⟩
        · cases read
      · obtain ⟨scaled, -, rfl⟩ := Option.map_eq_some_iff.mp read
        exact ⟨_, rfl⟩

theorem Numeral.FitsWord.magnitude_lt (fits : numeral.FitsWord) :
    numeral.magnitude < UInt64.size := by
  obtain ⟨-, -, bound⟩ := fits
  split at bound
  · exact Nat.lt_of_le_of_lt bound.2 (by decide)
  · exact bound

theorem ofJson_of_value? (read : numeral.value? = some json) :
    (numeral.FitsWord → Value.ofJson json = numeral.word) ∧
      (¬ numeral.FitsWord → ∃ float, Value.ofJson json = .float float) := by
  have gathered := gather_eq numeral.whole
  rw [← Numeral.magnitude] at gathered
  by_cases plain : numeral.fraction = none ∧ numeral.power = none ∧
      numeral.magnitude < UInt64.size
  · obtain ⟨fraction, power, small⟩ := plain
    rw [if_pos small] at gathered
    rw [Numeral.value?, gathered, fraction, power] at read
    obtain rfl : integer numeral.negative numeral.magnitude = json := Option.some.inj read
    rw [Numeral.FitsWord, Numeral.word]
    cases numeral.negative with
    | false => exact ⟨fun _ => rfl, fun other => absurd ⟨fraction, power, small⟩ other⟩
    | true =>
        refine ⟨fun fits => ofJson_negative fits.2.2.1 fits.2.2.2, fun other => ?_⟩
        obtain ⟨float, same⟩ :=
          exists_float_of_negative fun fits => other ⟨fraction, power, fits⟩
        exact ⟨float, by rw [same, Value.ofJson]⟩
  · have dropped : ¬ (numeral.fraction = none ∧ numeral.power = none ∧
        (gather 0 numeral.whole).2 = []) := by
      rintro ⟨fraction, power, all⟩
      rw [if_neg fun small => plain ⟨fraction, power, small⟩] at gathered
      exact gathered all
    obtain ⟨float, rfl⟩ := exists_float_of_value? read dropped
    exact ⟨fun fits => absurd ⟨fits.1, fits.2.1, fits.magnitude_lt⟩ plain, fun _ => ⟨float, rfl⟩⟩

theorem depth_of_value? (read : numeral.value? = some json) : (Value.ofJson json).depth = 0 := by
  obtain ⟨word, float⟩ := ofJson_of_value? read
  by_cases fits : numeral.FitsWord
  · rw [word fits, Numeral.word]
    split <;> rfl
  · obtain ⟨number, same⟩ := float fits
    rw [same]
    rfl

/-! ## Depth of what is read -/

section Lists

variable {α : Type} {item : List Char → Option (α × List Char)} {close : Char}
  {input rest : List Char} {things : List α}

theorem exists_of_mem_separated {bound : List Char}
    (read : separated item close bound input = some (things, rest)) :
    ∀ thing ∈ things, ∃ start after, item start = some (thing, after) := by
  induction bound generalizing input things rest with
  | nil => cases read
  | cons _ bound ih =>
      rw [separated] at read
      split at read
      · cases read
      · next first after here =>
        split at read
        · cases read
        · split at read
          · cases read
            rw [List.forall_mem_singleton]
            exact ⟨input, after, here⟩
          · split at read
            · obtain ⟨⟨others, left⟩, later, same⟩ := Option.map_eq_some_iff.mp read
              cases same
              rw [List.forall_mem_cons]
              exact ⟨⟨input, after, here⟩, ih later⟩
            · cases read

theorem exists_of_mem_enclosed (read : enclosed item close input = some (things, rest)) :
    ∀ thing ∈ things, ∃ start after, item start = some (thing, after) := by
  rw [enclosed] at read
  split at read
  · cases read
  · split at read
    · cases read
      exact fun thing member => absurd member List.not_mem_nil
    · exact exists_of_mem_separated read

theorem exists_of_readField {field : String × α}
    (read : readField item input = some (field, rest)) :
    ∃ start after, item start = some (field.2, after) := by
  rw [readField] at read
  split at read
  · obtain ⟨⟨key, after⟩, -, read⟩ := Option.bind_eq_some_iff.mp read
    dsimp only at read
    split at read
    · next start _ =>
      obtain ⟨⟨found, left⟩, here, same⟩ := Option.map_eq_some_iff.mp read
      cases same
      exact ⟨start, left, here⟩
    · cases read
  · cases read

end Lists

theorem mem_itemsOfJson {items : List Json} {value : Value}
    (member : value ∈ Value.itemsOfJson items) : ∃ item ∈ items, Value.ofJson item = value := by
  induction items with
  | nil => cases member
  | cons item rest ih =>
      rw [Value.itemsOfJson, List.mem_cons] at member
      rcases member with rfl | later
      · exact ⟨item, List.mem_cons_self, rfl⟩
      · obtain ⟨other, inside, same⟩ := ih later
        exact ⟨other, List.mem_cons_of_mem _ inside, same⟩

theorem mem_fieldsOfJson {fields : List (String × Json)} {pair : String × Value}
    (member : pair ∈ Value.fieldsOfJson fields) :
    ∃ field ∈ fields, pair = (field.1, Value.ofJson field.2) := by
  induction fields with
  | nil => cases member
  | cons field rest ih =>
      rw [Value.fieldsOfJson, List.mem_cons] at member
      rcases member with rfl | later
      · exact ⟨field, List.mem_cons_self, rfl⟩
      · obtain ⟨other, inside, same⟩ := ih later
        exact ⟨other, List.mem_cons_of_mem _ inside, same⟩

/-- What is read is no container, or its parts were read one level further down. -/
theorem readWithin_cases {depth : Nat} {input rest : List Char}
    (read : readWithin depth input = some (json, rest)) :
    (Value.ofJson json).depth = 0 ∨
    (∃ below items, depth = below + 1 ∧ json = .array items ∧
      ∀ item ∈ items, ∃ start after, readWithin below start = some (item, after)) ∨
    ∃ below fields, depth = below + 1 ∧ json = .object fields ∧
      ∀ field ∈ fields, ∃ start after, readWithin below start = some (field.2, after) := by
  rw [readWithin] at read
  split at read
  · obtain ⟨_, -, same⟩ := Option.map_eq_some_iff.mp read
    cases same
    exact .inl rfl
  · obtain ⟨_, -, same⟩ := Option.map_eq_some_iff.mp read
    cases same
    exact .inl rfl
  · obtain ⟨_, -, same⟩ := Option.map_eq_some_iff.mp read
    cases same
    exact .inl rfl
  · obtain ⟨_, -, same⟩ := Option.map_eq_some_iff.mp read
    cases same
    exact .inl rfl
  · split at read
    · cases read
    · next below =>
      obtain ⟨⟨items, after⟩, inside, same⟩ := Option.map_eq_some_iff.mp read
      cases same
      exact .inr (.inl ⟨below, items, rfl, rfl, exists_of_mem_enclosed inside⟩)
  · split at read
    · cases read
    · next below =>
      obtain ⟨⟨fields, after⟩, inside, same⟩ := Option.map_eq_some_iff.mp read
      cases same
      refine .inr (.inr ⟨below, fields, rfl, rfl, fun field member => ?_⟩)
      obtain ⟨start, after, found⟩ := exists_of_mem_enclosed inside field member
      exact exists_of_readField found
  · obtain ⟨⟨numeral, after⟩, -, read⟩ := Option.bind_eq_some_iff.mp read
    obtain ⟨number, value, same⟩ := Option.bind_eq_some_iff.mp read
    cases same
    exact .inl (depth_of_value? value)

theorem depth_le_of_readWithin {depth : Nat} {input rest : List Char}
    (read : readWithin depth input = some (json, rest)) : (Value.ofJson json).depth ≤ depth := by
  induction depth generalizing json input rest with
  | zero =>
      obtain leaf | ⟨_, _, level, -⟩ | ⟨_, _, level, -⟩ := readWithin_cases read
      · exact Nat.le_of_eq leaf
      · cases level
      · cases level
  | succ depth ih =>
      obtain leaf | ⟨below, items, level, rfl, inside⟩ | ⟨below, fields, level, rfl, inside⟩ :=
        readWithin_cases read
      · exact leaf ▸ Nat.zero_le _
      · obtain rfl := Nat.succ.inj level
        rw [Value.ofJson, Value.depth, Nat.add_le_add_iff_right, Value.itemsDepth_le_iff]
        intro value member
        obtain ⟨item, here, rfl⟩ := mem_itemsOfJson member
        obtain ⟨start, after, found⟩ := inside item here
        exact ih found
      · obtain rfl := Nat.succ.inj level
        rw [Value.ofJson, Value.depth, Nat.add_le_add_iff_right, Value.fieldsDepth_le_iff]
        intro pair member
        obtain ⟨field, here, rfl⟩ := mem_fieldsOfJson (Record.mem_of_mem_ofFields member)
        obtain ⟨start, after, found⟩ := inside field here
        exact ih found

theorem depth_le_of_read? {text : String} (read : read? text = some json) :
    (Value.ofJson json).depth ≤ 127 := by
  rw [read?] at read
  split at read
  · next found =>
    split at read
    · cases read
      exact depth_le_of_readWithin found
    · cases read
  · cases read

end Json

/-! ## Values that JSON values stand for -/

namespace Value

theorem itemsTextual_iff {items : List Value} :
    ItemsTextual items ↔ ∀ item ∈ items, item.Textual := by
  induction items with
  | nil => simp [ItemsTextual]
  | cons item rest ih => simp [ItemsTextual, ih]

theorem fieldsTextual_iff {fields : List (String × Value)} :
    FieldsTextual fields ↔ ∀ field ∈ fields, field.2.Textual := by
  induction fields with
  | nil => simp [FieldsTextual]
  | cons field rest ih => simp [FieldsTextual, ih]

mutual

theorem normalize_of_textual : ∀ {value : Value}, value.Textual → value.normalize = value
  | .nil, _ | .bool _, _ | .uint _, _ | .int _, _ | .float _, _ | .text _, _ => rfl
  | .array _, all => congrArg array (normalizeItems_of_textual all)
  | .map _, all => congrArg map (normalizeFields_of_textual all)

theorem normalizeItems_of_textual : ∀ {items : List Value}, ItemsTextual items →
    normalizeItems items = items
  | [], _ => rfl
  | _ :: _, ⟨first, later⟩ =>
      congrArg₂ List.cons (normalize_of_textual first) (normalizeItems_of_textual later)

theorem normalizeFields_of_textual : ∀ {fields : List (String × Value)}, FieldsTextual fields →
    normalizeFields fields = fields
  | [], _ => rfl
  | (key, _) :: _, ⟨first, later⟩ =>
      congrArg₂ List.cons (congrArg (key, ·) (normalize_of_textual first))
        (normalizeFields_of_textual later)

end

/-- What holds of every value that a JSON value stands for. -/
structure FromJson (value : Value) : Prop where
  textual : value.Textual
  canonical : value.Canonical
  sorted : value.Sorted

namespace FromJson

theorem array {items : List Value} (each : ∀ item ∈ items, FromJson item) :
    FromJson (.array items) where
  textual := itemsTextual_iff.mpr fun item member => (each item member).textual
  canonical := allCanonical_iff.mpr fun item member => (each item member).canonical
  sorted := allSorted_iff.mpr fun item member => (each item member).sorted

theorem map {fields : List (String × Value)} (each : ∀ field ∈ fields, FromJson field.2) :
    FromJson (.map (Record.ofFields fields)) := by
  have all : ∀ field ∈ Record.ofFields fields, FromJson field.2 :=
    fun field member => each field (Record.mem_of_mem_ofFields member)
  exact {
    textual := fieldsTextual_iff.mpr fun field member => (all field member).textual
    canonical := fieldsCanonical_iff.mpr fun field member => (all field member).canonical
    sorted := ⟨Record.ordered_ofFields fields,
      fieldsSorted_iff.mpr fun field member => (all field member).sorted⟩ }

end FromJson

mutual

theorem fromJson_ofJson : ∀ json : Json, FromJson (ofJson json)
  | .null | .bool _ | .natural _ | .float _ | .string _ => ⟨trivial, trivial, trivial⟩
  | .negative number =>
      have legible : MessagePack.Legible 0 (ofJson (.negative number)) :=
        .of_negative (by omega) (by omega)
      ⟨trivial, legible.canonical, trivial⟩
  | .array items => by
      rw [ofJson]
      exact .array (fromJson_itemsOfJson items)
  | .object fields => by
      rw [ofJson]
      exact .map (fromJson_fieldsOfJson fields)

theorem fromJson_itemsOfJson : ∀ items : List Json, ∀ value ∈ itemsOfJson items, FromJson value
  | [] => by simp [itemsOfJson]
  | item :: rest => by
      rw [itemsOfJson, List.forall_mem_cons]
      exact ⟨fromJson_ofJson item, fromJson_itemsOfJson rest⟩

theorem fromJson_fieldsOfJson : ∀ fields : List (String × Json),
    ∀ field ∈ fieldsOfJson fields, FromJson field.2
  | [] => by simp [fieldsOfJson]
  | (_, field) :: rest => by
      rw [fieldsOfJson, List.forall_mem_cons]
      exact ⟨fromJson_ofJson field, fromJson_fieldsOfJson rest⟩

end

end Value

/-! ## Frames -/

namespace Frame

theorem canonical_eq_self {frame : Frame}
    (canonical : ∀ pair ∈ frame.content, Value.FieldsCanonical pair.record) :
    frame.canonical = frame := by
  have same : ∀ pair ∈ frame.content, pair.canonical = pair := fun pair member =>
    congrArg (Stamped.mk pair.timestamp) (Value.canonicalFields_eq_self (canonical pair member))
  have all : frame.content.map Stamped.canonical = frame.content :=
    (List.map_congr_left same).trans (List.map_id _)
  cases frame with
  | message tag content => exact congrArg (message tag) (same content List.mem_cons_self)
  | forward tag content => exact congrArg (forward tag) all
  | packed tag content => exact congrArg (packed tag) all

theorem delivery_of_textual {frame : Frame}
    (textual : ∀ pair ∈ frame.content, Value.FieldsTextual pair.record) :
    frame.delivery = if frame.isEmpty then [] else [frame.entries] := by
  have same : frame.entries.map Entry.normalize = frame.entries := by
    rw [entries, List.map_map]
    refine List.map_congr_left fun pair member => ?_
    exact congrArg (Entry.mk frame.tag pair.timestamp)
      (Value.normalizeFields_of_textual (textual pair member))
  rw [delivery, same]

end Frame

namespace Load

theorem exists_json_of_payloadOf {text : String} {record : Record}
    (accepted : Options.payloadOf text = .ok record) :
    ∃ json, Json.read? text = some json ∧ Value.ofJson json = .map record := by
  rw [Options.payloadOf] at accepted
  cases read : Json.read? text with
  | none =>
      rw [read] at accepted
      cases accepted
  | some json =>
      rw [read, Option.map_some] at accepted
      cases value : Value.ofJson json with
      | map fields =>
          rw [value] at accepted
          cases accepted
          exact ⟨json, rfl, value⟩
      | _ =>
          rw [value] at accepted
          cases accepted

theorem payloadOf_write {record : Record} (lossless : (Value.map record).Lossless)
    (shallow : (Value.map record).depth ≤ 127) :
    Options.payloadOf (String.ofList (Json.write (.map record))) = .ok record := by
  rw [Options.payloadOf, Json.read?_write lossless shallow, Option.map_some,
    Json.ofJson_ofValue lossless]

theorem payloadOf_of_plan {options : Options} {plan : Plan} (made : options.plan = .ok plan) :
    Options.payloadOf options.payload = .ok plan.payload := by
  rw [Options.plan] at made
  cases accepted : Options.payloadOf options.payload with
  | error misfit =>
      rw [accepted] at made
      cases made
  | ok record =>
      rw [accepted] at made
      simp only [bind, Except.bind] at made
      split at made
      · cases made
      · cases made
        rfl

/-- A payload given as JSON text arrives as it was read. No JSON value stands for one with a binary
string or a non-negative `int` in it: a number that is an integer of 64 bits becomes that integer,
negative or not, and any other a float. So what an option that makes a plan gives for its payload is
parsed and handed on without change, from frames of every shape, as long as they fit the wire. -/
theorem json_payload_arrives_unchanged :
    (∀ json : Json, (Value.ofJson json).Textual ∧ (Value.ofJson json).Canonical) ∧
    (∀ (numeral : Json.Numeral) (json : Json), numeral.value? = some json →
      (numeral.FitsWord → Value.ofJson json = numeral.word) ∧
      (¬ numeral.FitsWord → ∃ float, Value.ofJson json = .float float)) ∧
    (∀ (options : Options) (plan : Plan), options.plan = .ok plan →
      Options.payloadOf options.payload = .ok plan.payload) ∧
    ∀ frame : Frame, frame.Writable →
      (∀ pair ∈ frame.content, ∃ text, Options.payloadOf text = .ok pair.record) →
      ∀ rest, Frame.parse (frame.write ++ rest) = .complete frame frame.write.length ∧
        frame.delivery = if frame.isEmpty then [] else [frame.entries] := by
  refine ⟨fun json => ?_, fun numeral json => Json.ofJson_of_value?,
    fun options plan => payloadOf_of_plan, fun frame writable payloads rest => ?_⟩
  · have value := Value.fromJson_ofJson json
    exact ⟨value.textual, value.canonical⟩
  · have values : ∀ pair ∈ frame.content,
        (Value.map pair.record).FromJson ∧ pair.record.depth ≤ 127 := by
      intro pair member
      obtain ⟨text, accepted⟩ := payloads pair member
      obtain ⟨json, read, same⟩ := exists_json_of_payloadOf accepted
      have value := Value.fromJson_ofJson json
      have depth := Json.depth_le_of_read? read
      rw [same] at value depth
      exact ⟨value, depth⟩
    have shallow : frame.Shallow := by
      intro pair member
      calc
        _ ≤ 127 := (values pair member).2
        _ ≤ 1020 := by decide
        _ ≤ _ := frame.shape.le_recordLimit
    have parsed := Frame.parse_write writable rest (.inl shallow)
    rw [if_pos shallow,
      Frame.canonical_eq_self fun pair member => (values pair member).1.canonical] at parsed
    exact ⟨parsed, Frame.delivery_of_textual fun pair member => (values pair member).1.textual⟩

theorem nested_payload_arrives_packed :
    Options.payloadOf "\x7b\"a\":[-1,\x7b\"b\":null\x7d]\x7d" =
      .ok [("a", .array [.int (-1), .map [("b", .nil)]])] ∧
    let frame : Frame := .packed "t" [⟨7, [("a", .array [.int (-1), .map [("b", .nil)]])]⟩]
    frame.Writable ∧ Frame.parse (frame.write ++ [0x93]) = .complete frame frame.write.length ∧
      frame.delivery = [frame.entries] := by
  have lossless : (Value.map [("a", .array [.int (-1), .map [("b", .nil)]])]).Lossless := by
    refine ⟨by decide, ⟨?_, ⟨by decide, trivial, trivial⟩, trivial⟩, trivial⟩
    exact show (-1 : Int64) < 0 by decide
  have accepted := payloadOf_write lossless (by decide)
  refine ⟨accepted, ?_⟩
  intro frame
  have record : (Value.map [("a", .array [.int (-1), .map [("b", .nil)]])]).Writable := by
    refine ⟨by decide, by decide, by decide, ⟨by decide, trivial, ?_, trivial⟩, trivial⟩
    exact ⟨by decide, by decide, by decide, trivial, trivial⟩
  have writable : frame.Writable := by
    refine ⟨by decide, fun pair member => ?_, by decide⟩
    obtain rfl := List.mem_singleton.mp member
    exact record
  obtain ⟨parsed, delivered⟩ := json_payload_arrives_unchanged.2.2.2 frame writable
    (fun pair member => by
      obtain rfl := List.mem_singleton.mp member
      exact ⟨_, accepted⟩) [0x93]
  exact ⟨writable, parsed, delivered⟩

end Load

end LogIntake
