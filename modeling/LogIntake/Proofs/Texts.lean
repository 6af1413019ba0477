import LogIntake.Output.Lines
import LogIntake.Proofs.Literals
import LogIntake.Proofs.Records
import LogIntake.Value.Nesting

/-!
# JSON texts there and back

The JSON text of a value without floats and binary strings, its non-negative integers as such, is
read back as the value (`json_text_reads_back`), up to the depth that the reader follows. So no two
of these values have one text, however deep they are, and no two entries whose data hold only such
values have one line.
-/
set_option autoImplicit false

namespace LogIntake

namespace Value

mutual

/-- Whether the JSON text of the value tells it from every other: no float and no binary string
stands in it, no non-negative integer as an `int`, at any depth, and all fields are in key order. -/
def Lossless : Value → Prop
  | .int number => number < 0
  | .float _ | .binary _ => False
  | .array items => AllLossless items
  | .map fields => Record.Ordered fields ∧ FieldsLossless fields
  | _ => True

def AllLossless : List Value → Prop
  | [] => True
  | item :: rest => Lossless item ∧ AllLossless rest

def FieldsLossless : List (String × Value) → Prop
  | [] => True
  | (_, value) :: rest => Lossless value ∧ FieldsLossless rest

end

end Value

namespace Json

mutual

def ofValue : Value → Json
  | .nil => .null
  | .bool truth => .bool truth
  | .uint number => .natural number
  | .int number => integer (number < 0) number.toInt.natAbs
  | .float number => .float number
  | .text content => .string content
  | .binary content => .array (content.map fun byte => .natural byte.toUInt64)
  | .array items => .array (ofItems items)
  | .map fields => .object (ofFields fields)

def ofItems : List Value → List Json
  | [] => []
  | item :: rest => ofValue item :: ofItems rest

def ofFields : List (String × Value) → List (String × Json)
  | [] => []
  | (key, value) :: rest => (key, ofValue value) :: ofFields rest

end

/-! ## Back from JSON -/

theorem ofJson_integer {number : Int64} (negative : number < 0) :
    Value.ofJson (integer true number.toInt.natAbs) = .int number := by
  have below : number.toInt < 0 := Int64.lt_iff_toInt_lt.mp negative
  have least := Int64.le_toInt number
  have same : -(number.toInt.natAbs : Int) = number.toInt := by omega
  rw [ofJson_negative (by omega) (by omega), same, Int64.ofInt_toInt]

mutual

theorem ofJson_ofValue : ∀ {value : Value}, value.Lossless → Value.ofJson (ofValue value) = value
  | .nil, _ | .bool _, _ | .uint _, _ | .text _, _ => rfl
  | .int number, below => by
      have negative : number < 0 := below
      rw [ofValue, decide_eq_true negative, ofJson_integer negative]
  | .array items, all => by
      rw [ofValue, Value.ofJson, itemsOfJson_ofItems all]
  | .map fields, ⟨ordered, all⟩ => by
      rw [ofValue, Value.ofJson, fieldsOfJson_ofFields all, Record.ofFields_of_ordered ordered]

theorem itemsOfJson_ofItems : ∀ {items : List Value}, Value.AllLossless items →
    Value.itemsOfJson (ofItems items) = items
  | [], _ => rfl
  | _ :: _, ⟨first, later⟩ => by
      rw [ofItems, Value.itemsOfJson, ofJson_ofValue first, itemsOfJson_ofItems later]

theorem fieldsOfJson_ofFields : ∀ {fields : List (String × Value)}, Value.FieldsLossless fields →
    Value.fieldsOfJson (ofFields fields) = fields
  | [], _ => rfl
  | (_, _) :: _, ⟨first, later⟩ => by
      rw [ofFields, Value.fieldsOfJson, ofJson_ofValue first, fieldsOfJson_ofFields later]

end

/-! ## From text -/

variable {depth : Nat}

theorem readWithin_of_quote (input : List Char) :
    readWithin depth ('"' :: input) =
      (readString input).map fun (content, rest) => (.string (String.ofList content), rest) := by
  rw [readWithin, dropBlanks_cons (by decide)]
  rfl

theorem readWithin_of_bracket (input : List Char) :
    readWithin (depth + 1) ('[' :: input) =
      (enclosed (readWithin depth) ']' input).map fun (items, rest) => (.array items, rest) := by
  rw [readWithin, dropBlanks_cons (by decide)]
  rfl

theorem readWithin_of_brace (input : List Char) :
    readWithin (depth + 1) ('{' :: input) =
      (enclosed (readField (readWithin depth)) '}' input).map fun (fields, rest) =>
        (.object fields, rest) := by
  rw [readWithin, dropBlanks_cons (by decide)]
  rfl

section Start

variable {first : Char} (start : first = '-' ∨ Digits.isDecimal first = true)
include start

theorem ne_of_start (letter : Char) (noSign : letter ≠ '-')
    (noDigit : Digits.isDecimal letter = false) : first ≠ letter := by
  rintro rfl
  rcases start with sign | digit
  · exact noSign sign
  · rw [noDigit] at digit
    cases digit

theorem isBlank_of_start : isBlank first = false := by
  have space := ne_of_start start ' ' (by decide) (by decide)
  have tab := ne_of_start start '\t' (by decide) (by decide)
  have newline := ne_of_start start '\n' (by decide) (by decide)
  have turn := ne_of_start start '\r' (by decide) (by decide)
  simp [isBlank, space, tab, newline, turn]

theorem readWithin_of_numeral {more rest : List Char} {numeral : Numeral} {json : Json}
    (read : readNumeral (first :: more) = some (numeral, rest))
    (value : numeral.value? = some json) :
    readWithin depth (first :: more) = some (json, rest) := by
  have other {letter : Char} {later : List Char} (noSign : letter ≠ '-')
      (noDigit : Digits.isDecimal letter = false) : first :: more ≠ letter :: later :=
    fun same => ne_of_start start letter noSign noDigit (List.cons.inj same).1
  rw [readWithin, dropBlanks_cons (isBlank_of_start start)]
  split
  · next same => exact absurd same (other (by decide) (by decide))
  · next same => exact absurd same (other (by decide) (by decide))
  · next same => exact absurd same (other (by decide) (by decide))
  · next same => exact absurd same (other (by decide) (by decide))
  · next same => exact absurd same (other (by decide) (by decide))
  · next same => exact absurd same (other (by decide) (by decide))
  · simp [read, value]

theorem solid_of_start (more : List Char) : Solid (first :: more) := by
  have bracket := ne_of_start start ']' (by decide) (by decide)
  have brace := ne_of_start start '}' (by decide) (by decide)
  exact ⟨first, rfl, isBlank_of_start start, by simp [bracket, brace]⟩

end Start

theorem reads_writeNat (depth : Nat) {number : Nat} (fits : number < UInt64.size) :
    Reads (readWithin depth) (writeNat number) (integer false number) := by
  intro rest ends
  obtain ⟨first, more, same, digit⟩ := exists_digit number
  have read := (readNumeral_writeNat number ends).1
  rw [same, List.cons_append] at read ⊢
  exact readWithin_of_numeral (.inr digit) read (value?_numeralOf fits false)

theorem integer_toNat (number : UInt64) : integer false number.toNat = .natural number :=
  congrArg natural UInt64.ofNat_toNat

theorem reads_writeInt {number : Int64} :
    Reads (readWithin depth) (writeInt number.toInt)
      (integer (number < 0) number.toInt.natAbs) := by
  intro rest ends
  have least := Int64.le_toInt number
  have most := Int64.toInt_lt number
  have fits : number.toInt.natAbs < UInt64.size := by
    change number.toInt.natAbs < 0x10000000000000000
    omega
  rw [writeInt]
  by_cases below : number.toInt < 0
  · have negative : number < 0 := Int64.lt_iff_toInt_lt.mpr below
    have read := (readNumeral_writeNat number.toInt.natAbs ends).2
    rw [if_pos below, decide_eq_true negative, List.cons_append]
    exact readWithin_of_numeral (.inl rfl) read (value?_numeralOf fits true)
  · have positive : ¬ number < 0 := mt Int64.lt_iff_toInt_lt.mp below
    rw [if_neg below, decide_eq_false positive]
    exact reads_writeNat depth fits rest ends

theorem reads_writeString (content : String) :
    Reads (readWithin depth) (writeString content) (.string content) := by
  intro rest _
  obtain ⟨input, written, read⟩ := readString_writeString content rest
  rw [written, readWithin_of_quote, read]
  exact congrArg (fun text => some (string text, rest)) String.ofList_toList

theorem reads_array {texts : List (List Char)} {items : List Json}
    (reads : List.Forall₂ (Reads (readWithin depth)) texts items)
    (solid : ∀ text ∈ texts, Solid text) :
    Reads (readWithin (depth + 1)) ('[' :: (commas texts ++ [']'])) (.array items) := by
  intro rest _
  have read := enclosed_commas (show ']' ∈ [']', '}'] by decide) reads solid rest
  rw [List.cons_append, List.append_assoc, List.singleton_append, readWithin_of_bracket, read,
    Option.map_some]

theorem reads_object {texts : List (List Char)} {fields : List (String × Json)}
    (reads : List.Forall₂ (Reads (readField (readWithin depth))) texts fields)
    (solid : ∀ text ∈ texts, Solid text) :
    Reads (readWithin (depth + 1)) ('{' :: (commas texts ++ ['}'])) (.object fields) := by
  intro rest _
  have read := enclosed_commas (show '}' ∈ [']', '}'] by decide) reads solid rest
  rw [List.cons_append, List.append_assoc, List.singleton_append, readWithin_of_brace, read,
    Option.map_some]

theorem solid_writeNat (number : Nat) : Solid (writeNat number) := by
  obtain ⟨first, more, same, digit⟩ := exists_digit number
  rw [same]
  exact solid_of_start (.inr digit) more

theorem solid_writeInt (number : Int) : Solid (writeInt number) := by
  rw [writeInt]
  split
  · exact solid_of_start (.inl rfl) _
  · exact solid_writeNat number.natAbs

theorem solid_write {value : Value} (lossless : value.Lossless) : Solid (write value) := by
  cases value with
  | nil => exact ⟨'n', rfl, rfl, by decide⟩
  | bool truth =>
      cases truth with
      | true => exact ⟨'t', rfl, rfl, by decide⟩
      | false => exact ⟨'f', rfl, rfl, by decide⟩
  | uint number => exact solid_writeNat number.toNat
  | int number => exact solid_writeInt number.toInt
  | float number => cases lossless
  | text content => exact ⟨'"', rfl, rfl, by decide⟩
  | binary content => cases lossless
  | array items => exact ⟨'[', rfl, rfl, by decide⟩
  | map fields => exact ⟨'{', rfl, rfl, by decide⟩

theorem solid_writeItems {items : List Value} (lossless : Value.AllLossless items) :
    ∀ text ∈ writeItems items, Solid text := by
  induction items with
  | nil => simp [writeItems]
  | cons item rest ih =>
      rw [writeItems, List.forall_mem_cons]
      exact ⟨solid_write lossless.1, ih lossless.2⟩

theorem solid_writeFields (fields : List (String × Value)) :
    ∀ text ∈ writeFields fields, Solid text := by
  induction fields with
  | nil => simp [writeFields]
  | cons field rest ih =>
      rw [writeFields, List.forall_mem_cons]
      exact ⟨⟨'"', rfl, rfl, by decide⟩, ih⟩

mutual

theorem reads_write : ∀ {value : Value} {depth : Nat}, value.Lossless → value.depth ≤ depth →
    Reads (readWithin depth) (write value) (ofValue value)
  | .nil, _, _, _ => fun rest _ => by
      rw [write, readWithin]
      rfl
  | .bool true, _, _, _ => fun rest _ => by
      rw [write, readWithin]
      rfl
  | .bool false, _, _, _ => fun rest _ => by
      rw [write, readWithin]
      rfl
  | .uint number, depth, _, _ => by
      have reads := reads_writeNat depth number.toNat_lt
      rw [integer_toNat] at reads
      exact reads
  | .int number, _, _, _ => by
      rw [write, ofValue]
      exact reads_writeInt
  | .text content, _, _, _ => by
      rw [write, ofValue]
      exact reads_writeString content
  | .array items, 0, _, shallow => by
      rw [Value.depth] at shallow
      omega
  | .array items, depth + 1, all, shallow => by
      rw [write, ofValue]
      have within := Nat.le_of_succ_le_succ shallow
      exact reads_array (reads_writeItems all within) (solid_writeItems all)
  | .map fields, 0, _, shallow => by
      rw [Value.depth] at shallow
      omega
  | .map fields, depth + 1, ⟨_, all⟩, shallow => by
      rw [write, ofValue]
      exact reads_object (reads_writeFields all (Nat.le_of_succ_le_succ shallow))
        (solid_writeFields fields)

theorem reads_writeItems : ∀ {items : List Value} {depth : Nat}, Value.AllLossless items →
    Value.itemsDepth items ≤ depth →
    List.Forall₂ (Reads (readWithin depth)) (writeItems items) (ofItems items)
  | [], _, _, _ => .nil
  | _ :: _, _, ⟨first, later⟩, shallow => by
      rw [Value.itemsDepth, Nat.max_le] at shallow
      rw [writeItems, ofItems]
      exact .cons (reads_write first shallow.1) (reads_writeItems later shallow.2)

theorem reads_writeFields : ∀ {fields : List (String × Value)} {depth : Nat},
    Value.FieldsLossless fields → Value.fieldsDepth fields ≤ depth →
    List.Forall₂ (Reads (readField (readWithin depth))) (writeFields fields) (ofFields fields)
  | [], _, _, _ => .nil
  | (key, _) :: _, _, ⟨first, later⟩, shallow => by
      rw [Value.fieldsDepth, Nat.max_le] at shallow
      rw [writeFields, ofFields]
      exact .cons (reads_field (reads_write first shallow.1) key)
        (reads_writeFields later shallow.2)

end

/-! ## Whole texts -/

theorem read?_write {value : Value} (lossless : value.Lossless) (shallow : value.depth ≤ 127) :
    read? (String.ofList (write value)) = some (ofValue value) := by
  have read := reads_write lossless shallow [] Ends.nil
  rw [List.append_nil] at read
  rw [read?, String.toList_ofList, depthLimit, read]
  rfl

theorem Reads.unique {α : Type} {item : List Char → Option (α × List Char)} {text : List Char}
    {thing other : α} (reads : Reads item text thing) (also : Reads item text other) :
    thing = other := by
  have same := (reads [] Ends.nil).symm.trans (also [] Ends.nil)
  exact congrArg Prod.fst (Option.some.inj same)

theorem eq_of_write_eq {value other : Value} (lossless : value.Lossless)
    (otherLossless : other.Lossless) (same : write value = write other) : value = other := by
  have first := reads_write lossless (Nat.le_max_left value.depth other.depth)
  have second := reads_write otherLossless (Nat.le_max_right value.depth other.depth)
  rw [same] at first
  rw [← ofJson_ofValue lossless, first.unique second, ofJson_ofValue otherLossless]

def ofEntry (entry : Entry) : Json :=
  .object
    [ ("tag", .string entry.tag)
    , ("timestamp", .natural entry.timestamp)
    , ("data", ofValue (.map entry.data)) ]

theorem reads_writeEntry {entry : Entry} (lossless : (Value.map entry.data).Lossless)
    (shallow : entry.data.depth ≤ depth) :
    Reads (readWithin (depth + 1)) (writeEntry entry) (ofEntry entry) := by
  have time := reads_writeNat depth entry.timestamp.toNat_lt
  rw [integer_toNat] at time
  refine reads_object (.cons ?_ (.cons ?_ (.cons ?_ .nil))) ?_
  · exact reads_field (reads_writeString entry.tag) "tag"
  · exact reads_field time "timestamp"
  · exact reads_field (reads_write lossless shallow) "data"
  · simp only [List.forall_mem_cons, List.not_mem_nil, false_implies, implies_true, and_true]
    exact ⟨⟨'"', rfl, rfl, by decide⟩, ⟨'"', rfl, rfl, by decide⟩, ⟨'"', rfl, rfl, by decide⟩⟩

theorem eq_of_writeEntry_eq {entry other : Entry} (lossless : (Value.map entry.data).Lossless)
    (otherLossless : (Value.map other.data).Lossless) (same : writeEntry entry = writeEntry other) :
    entry = other := by
  have first := reads_writeEntry lossless (Nat.le_max_left entry.data.depth other.data.depth)
  have second := reads_writeEntry otherLossless
    (Nat.le_max_right entry.data.depth other.data.depth)
  rw [same] at first
  have fields := first.unique second
  simp only [ofEntry, object.injEq, List.cons.injEq, Prod.mk.injEq, string.injEq, natural.injEq,
    true_and, and_true] at fields
  obtain ⟨tag, timestamp, data⟩ := fields
  have record := congrArg Value.ofJson data
  rw [ofJson_ofValue lossless, ofJson_ofValue otherLossless] at record
  cases entry
  cases other
  cases tag
  cases timestamp
  cases record
  rfl

/-- The text of a value without floats, binary strings and non-negative `int`s is read back as the
value, if no more than 127 containers stand in it one inside the other. At any depth two such values
that are written alike are the same, and so are two entries with one line whose data hold only such
values. -/
theorem json_text_reads_back :
    (∀ value : Value, value.Lossless → value.depth ≤ 127 →
      (read? (String.ofList (write value))).map Value.ofJson = some value) ∧
    (∀ value other : Value, value.Lossless → other.Lossless → write value = write other →
      value = other) ∧
    ∀ entry other : Entry, (Value.map entry.data).Lossless → (Value.map other.data).Lossless →
      Output.entryText entry = Output.entryText other → entry = other := by
  refine ⟨?_, fun value other => eq_of_write_eq, ?_⟩
  · intro value lossless shallow
    rw [read?_write lossless shallow, Option.map_some, ofJson_ofValue lossless]
  · intro entry other lossless otherLossless same
    have texts := congrArg Utf8.decode? same
    rw [Output.entryText, Output.entryText, Utf8.decode?_encode, Utf8.decode?_encode] at texts
    have letters := String.ofList_injective (Option.some.inj texts)
    exact eq_of_writeEntry_eq lossless otherLossless letters

theorem nested_escapes_read_back :
    let value : Value :=
      .map [("\n\"", .array [.int (-9), .uint 18446744073709551615, .text "\x1f"])]
    value.Lossless ∧ value.depth ≤ 127 ∧
      (read? (String.ofList (write value))).map Value.ofJson = some value := by
  intro value
  have lossless : value.Lossless :=
    ⟨by decide, ⟨show (-9 : Int64) < 0 by decide, trivial, trivial, trivial⟩, trivial⟩
  exact ⟨lossless, by decide, json_text_reads_back.1 value lossless (by decide)⟩

end Json

end LogIntake
