import LogIntake.Proofs.Reading
import LogIntake.Proofs.Records
import LogIntake.Proofs.Widening

/-!
# What is read

An item gives a value exactly when it stands for one and is not nested too deeply
(`valueWithin_eq_ok`), and bytes from which a value was read start with the bytes of a fitting item
(`exists_item_of_readWithin`). Together with the reading of written items this says which bytes are
read, and as what (`decode_eq_some_iff_item`).
-/
set_option autoImplicit false

namespace LogIntake.MessagePack

/-! ## Values and depths by form -/

namespace Item

def Form.value? : Form → Option Value
  | .leaf value => some value
  | .array items => (values? items).map .array
  | .map fields => (fields? fields).map fun fields => .map (Record.ofFields fields)
  | .extension _ => none

def Form.depth : Form → Nat
  | .leaf _ | .extension _ => 0
  | .array items => itemsDepth items + 1
  | .map fields => fieldsDepth fields + 1

theorem value?_form (item : Item) : item.form.value? = item.value? := by
  cases item <;> rfl

theorem depth_form (item : Item) : item.form.depth = item.depth := by
  cases item <;> rfl

end Item

theorem key_ofStringBytes (content : Bytes) (deeper : Bool) :
    (Head.leaf (.ofStringBytes content)).key deeper = .ok (Utf8.decodeLossy content) := by
  cases decoded : Utf8.decode? content with
  | none => rw [Value.ofStringBytes, decoded, Head.key]
  | some text => rw [Value.ofStringBytes, decoded, Utf8.decodeLossy, decoded]; rfl

theorem key_eq_ok {item : Item} {deeper : Bool} {key : String} :
    item.form.head.key deeper = .ok key ↔
      ∃ content, item.string? = some content ∧ Utf8.decodeLossy content = key := by
  cases item with
  | smallStr content | str width content =>
      change (Head.leaf (.ofStringBytes content)).key deeper = .ok key ↔ _
      rw [key_ofStringBytes]
      simp [Item.string?]
  | bin width content =>
      change Except.ok (Utf8.decodeLossy content) = _ ↔ _
      simp [Item.string?]
  | int width number =>
      change (Head.leaf (if 0 ≤ number then _ else _)).key deeper = .ok key ↔ _
      split <;> simp [Head.key, Item.string?]
  | smallArray items | array width items | smallMap fields | map width fields
  | fixedExt size type content | ext width type content =>
      cases deeper <;> simp [Item.form, Item.Form.head, Head.key, Item.string?]
  | _ => simp [Item.form, Item.value?, Item.Form.head, Head.key, Item.string?]

theorem depth_of_string? {item : Item} {content : Bytes} (string : item.string? = some content) :
    item.depth = 0 := by
  cases item with
  | smallStr | str | bin => rfl
  | _ => cases string

/-! ## Items that stand for a value -/

/-- A value of this depth where containers may stand at most `limit` deep. -/
def within {α : Type} (limit depth : Nat) (value : α) : Except Refusal α :=
  if depth ≤ limit then .ok value else .error .tooDeep

theorem within_bind {α β : Type} {limit depth more : Nat} {value : α} {result : β}
    {next : α → Except Refusal β} (tail : next value = within limit more result) :
    (within limit depth value >>= next) = within limit (max depth more) result := by
  by_cases shallow : depth ≤ limit
  · rw [within, if_pos shallow]
    change next value = _
    rw [tail, within, within]
    exact ite_congr (propext (by omega)) (fun _ => rfl) fun _ => rfl
  · rw [within, if_neg shallow, within, if_neg (by omega)]
    rfl

theorem within_map {α β : Type} (limit depth : Nat) (value : α) (f : α → β) :
    (do return f (← within limit depth value)) = within limit depth (f value) := by
  rw [within, within]
  split <;> rfl

theorem within_zero {α : Type} (limit : Nat) (value : α) : within limit 0 value = .ok value :=
  if_pos (Nat.zero_le limit)

theorem within_succ {α : Type} (limit depth : Nat) (value : α) :
    within (limit + 1) (depth + 1) value = within limit depth value :=
  ite_congr (propext Nat.succ_le_succ_iff) (fun _ => rfl) fun _ => rfl

theorem ok_of_bind {ε α β : Type} {lead : Except ε α} {next : α → Except ε β} {result : β}
    (run : (lead >>= next) = .ok result) : ∃ value, lead = .ok value ∧ next value = .ok result := by
  cases lead with
  | error stop => cases run
  | ok value => exact ⟨value, rfl, run⟩

theorem ok_of_map {ε α β : Type} {lead : Except ε α} {f : α → β} {result : β}
    (run : (f <$> lead) = .ok result) : ∃ value, lead = .ok value ∧ f value = result := by
  cases lead with
  | error stop => cases run
  | ok value => exact ⟨value, rfl, Except.ok.inj run⟩

theorem mapM_cons_within {α β : Type} {limit depth more : Nat} {f : α → Except Refusal β}
    {first : α} {rest : List α} {value : β} {values : List β}
    (head : f first = within limit depth value)
    (tail : rest.mapM f = within limit more values) :
    (first :: rest).mapM f = within limit (max depth more) (value :: values) := by
  rw [List.mapM_cons, head]
  refine within_bind ?_
  rw [tail]
  exact within_map limit more values (value :: ·)

namespace Item

variable {limit : Nat}

theorem mapM_of_values? {items : List Item} {values : List Value}
    (each : ∀ item ∈ items, ∀ value, item.value? = some value →
      item.valueWithin limit = within limit item.depth value)
    (found : values? items = some values) :
    items.mapM (valueWithin limit) = within limit (itemsDepth items) values := by
  induction items generalizing values with
  | nil =>
      cases found
      exact (within_zero limit _).symm
  | cons item rest ih =>
      rw [values?] at found
      obtain ⟨value, first, found⟩ := Option.bind_eq_some_iff.mp found
      obtain ⟨others, later, found⟩ := Option.bind_eq_some_iff.mp found
      cases found
      have tail := ih (fun other member => each other (List.mem_cons_of_mem _ member)) later
      exact mapM_cons_within (each item List.mem_cons_self value first) tail

theorem mapM_of_fields? {fields : List (Item × Item)} {record : List (String × Value)}
    (deeper : Bool)
    (each : ∀ field ∈ fields, ∀ value, field.2.value? = some value →
      field.2.valueWithin limit = within limit field.2.depth value)
    (found : fields? fields = some record) :
    (fields.mapM fun field => do
        return (← field.1.form.head.key deeper, ← valueWithin limit field.2)) =
      within limit (fieldsDepth fields) record := by
  induction fields generalizing record with
  | nil =>
      cases found
      exact (within_zero limit _).symm
  | cons field rest ih =>
      rw [fields?] at found
      obtain ⟨content, string, found⟩ := Option.bind_eq_some_iff.mp found
      obtain ⟨value, first, found⟩ := Option.bind_eq_some_iff.mp found
      obtain ⟨others, later, found⟩ := Option.bind_eq_some_iff.mp found
      cases found
      have key : field.1.form.head.key deeper = .ok (Utf8.decodeLossy content) :=
        key_eq_ok.mpr ⟨content, string, rfl⟩
      have tail := ih (fun other member => each other (List.mem_cons_of_mem _ member)) later
      rw [fieldsDepth, depth_of_string? string, Nat.zero_max]
      refine mapM_cons_within ?_ tail
      rw [key, each field List.mem_cons_self value first]
      exact within_map limit field.2.depth value (Utf8.decodeLossy content, ·)

/-- What an item that stands for a value gives. -/
theorem valueWithin_of_value? {item : Item} {value : Value} (found : item.value? = some value) :
    item.valueWithin limit = within limit item.depth value := by
  induction limit generalizing item value with
  | zero =>
      rw [← value?_form] at found
      rw [valueWithin, ← depth_form]
      generalize item.form = form at found ⊢
      cases form with
      | leaf content => exact congrArg Except.ok (Option.some.inj found)
      | array items => rfl
      | map fields => rfl
      | extension content => cases found
  | succ limit ih =>
      rw [← value?_form] at found
      rw [valueWithin, ← depth_form]
      generalize item.form = form at found ⊢
      cases form with
      | leaf content =>
          cases found
          exact (within_zero _ _).symm
      | array items =>
          obtain ⟨values, all, rfl⟩ := Option.map_eq_some_iff.mp found
          have read := mapM_of_values? (fun item _ value found => ih found) all
          dsimp only
          rw [read, Form.depth, within_succ]
          exact within_map limit (itemsDepth items) values Value.array
      | map fields =>
          obtain ⟨record, all, rfl⟩ := Option.map_eq_some_iff.mp found
          have read := mapM_of_fields? (limit ≠ 0) (fun field _ value found => ih found) all
          dsimp only
          rw [read, Form.depth, within_succ]
          exact within_map limit (fieldsDepth fields) record fun fields =>
            Value.map (Record.ofFields fields)
      | extension content => cases found

theorem values?_of_mapM {items : List Item} {values : List Value}
    (each : ∀ item ∈ items, ∀ value, item.valueWithin limit = .ok value →
      item.value? = some value)
    (all : items.mapM (valueWithin limit) = .ok values) : values? items = some values := by
  induction items generalizing values with
  | nil =>
      cases all
      rfl
  | cons item rest ih =>
      rw [List.mapM_cons] at all
      obtain ⟨value, first, all⟩ := ok_of_bind all
      obtain ⟨others, later, all⟩ := ok_of_bind all
      cases all
      rw [values?, each item List.mem_cons_self value first,
        ih (fun other member => each other (List.mem_cons_of_mem _ member)) later]
      rfl

theorem fields?_of_mapM {fields : List (Item × Item)} {record : List (String × Value)}
    {deeper : Bool}
    (each : ∀ field ∈ fields, ∀ value, field.2.valueWithin limit = .ok value →
      field.2.value? = some value)
    (all : (fields.mapM fun field => do
        return (← field.1.form.head.key deeper, ← valueWithin limit field.2)) = .ok record) :
    fields? fields = some record := by
  induction fields generalizing record with
  | nil =>
      cases all
      rfl
  | cons field rest ih =>
      rw [List.mapM_cons] at all
      obtain ⟨pair, first, all⟩ := ok_of_bind all
      obtain ⟨others, later, all⟩ := ok_of_bind all
      obtain ⟨key, named, first⟩ := ok_of_bind first
      obtain ⟨value, read, first⟩ := ok_of_bind first
      cases all
      cases first
      obtain ⟨content, string, rfl⟩ := key_eq_ok.mp named
      rw [fields?, string, each field List.mem_cons_self value read,
        ih (fun other member => each other (List.mem_cons_of_mem _ member)) later]
      rfl

theorem value?_of_valueWithin {item : Item} {value : Value}
    (found : item.valueWithin limit = .ok value) : item.value? = some value := by
  induction limit generalizing item value with
  | zero =>
      rw [valueWithin] at found
      rw [← value?_form]
      generalize item.form = form at found ⊢
      cases form with
      | leaf content => exact congrArg some (Except.ok.inj found)
      | _ => cases found
  | succ limit ih =>
      rw [valueWithin] at found
      rw [← value?_form]
      generalize item.form = form at found ⊢
      cases form with
      | leaf content => exact congrArg some (Except.ok.inj found)
      | array items =>
          obtain ⟨values, all, rfl⟩ := ok_of_map found
          have stand := values?_of_mapM (fun item _ value found => ih found) all
          rw [Form.value?, stand, Option.map_some]
      | map fields =>
          obtain ⟨record, all, rfl⟩ := ok_of_map found
          have stand := fields?_of_mapM (fun field _ value found => ih found) all
          rw [Form.value?, stand, Option.map_some]
      | extension content => cases found

theorem valueWithin_eq_ok {item : Item} {value : Value} :
    item.valueWithin limit = .ok value ↔ item.value? = some value ∧ item.depth ≤ limit := by
  constructor
  · intro found
    have stands := value?_of_valueWithin found
    rw [valueWithin_of_value? stands, within] at found
    split at found
    · next shallow => exact ⟨stands, shallow⟩
    · cases found
  · rintro ⟨stands, shallow⟩
    rw [valueWithin_of_value? stands, within, if_pos shallow]

end Item

/-! ## Items that were read -/

def Head.nested : Head → Nat
  | .leaf _ | .extension => 0
  | .array items => items
  | .map fields => 2 * fields

open Reader in
theorem extent?_of_readFields {marker : Marker} {input rest : Bytes} {head : Head}
    (run : readFields marker input = .ok (head, rest)) (value : head ≠ .extension) :
    ∃ layout size, marker.layout? = some layout ∧
      layout.extent? input = some ⟨size, head.nested⟩ ∧ rest = input.drop size := by
  cases marker with
  | smallUInt | smallInt | nil | bool =>
      cases run
      exact ⟨.inline 0, 0, rfl, Layout.extent?_inline.mpr ⟨Nat.zero_le _, rfl⟩, rfl⟩
  | smallMap fields =>
      cases run
      exact ⟨.fixed (2 * fields.val), 0, rfl, rfl, rfl⟩
  | smallArray items =>
      cases run
      exact ⟨.fixed items.val, 0, rfl, rfl, rfl⟩
  | smallStr length =>
      obtain ⟨content, middle, taken, run⟩ := bind_eq_ok run
      obtain ⟨enough, rfl, rfl⟩ := bytes_eq_ok taken
      cases run
      exact ⟨.inline length.val, length.val, rfl, Layout.extent?_inline.mpr ⟨enough, rfl⟩, rfl⟩
  | reserved | fixedExt => cases run <;> exact absurd rfl value
  | bin width | str width =>
      obtain ⟨length, middle, field, run⟩ := bind_eq_ok run
      obtain ⟨content, last, taken, run⟩ := bind_eq_ok run
      obtain ⟨found, rfl⟩ := nat_eq_ok field
      obtain ⟨enough, rfl, rfl⟩ := bytes_eq_ok taken
      have present := (field?_eq_some found).1
      cases run
      rw [List.length_drop] at enough
      exact ⟨.blob width 0, width.bytes + 0 + length, rfl,
        Layout.extent?_blob.mpr ⟨length, found, by omega, rfl⟩, List.drop_drop⟩
  | ext width =>
      obtain ⟨length, middle, field, run⟩ := bind_eq_ok run
      cases run
      exact absurd rfl value
  | float32 =>
      obtain ⟨bits, middle, field, run⟩ := bind_eq_ok run
      obtain ⟨found, rfl⟩ := nat_eq_ok field
      cases run
      exact ⟨.inline 4, 4, rfl, Layout.extent?_inline.mpr ⟨(field?_eq_some found).1, rfl⟩, rfl⟩
  | float64 =>
      obtain ⟨bits, middle, field, run⟩ := bind_eq_ok run
      obtain ⟨found, rfl⟩ := nat_eq_ok field
      cases run
      exact ⟨.inline 8, 8, rfl, Layout.extent?_inline.mpr ⟨(field?_eq_some found).1, rfl⟩, rfl⟩
  | uint width =>
      obtain ⟨number, middle, field, run⟩ := bind_eq_ok run
      obtain ⟨found, rfl⟩ := nat_eq_ok field
      cases run
      exact ⟨.inline width.bytes, width.bytes, rfl,
        Layout.extent?_inline.mpr ⟨(field?_eq_some found).1, rfl⟩, rfl⟩
  | int width =>
      obtain ⟨number, middle, field, run⟩ := bind_eq_ok run
      obtain ⟨enough, rfl⟩ := int_eq_ok field
      cases run
      exact ⟨.inline width.bytes, width.bytes, rfl,
        Layout.extent?_inline.mpr ⟨enough, rfl⟩, rfl⟩
  | array width =>
      obtain ⟨count, middle, field, run⟩ := bind_eq_ok run
      obtain ⟨found, rfl⟩ := nat_eq_ok field
      cases run
      exact ⟨.counted width 1, width.bytes, rfl,
        Layout.extent?_counted.mpr ⟨count, found, by rw [Nat.one_mul]; rfl⟩, rfl⟩
  | map width =>
      obtain ⟨count, middle, field, run⟩ := bind_eq_ok run
      obtain ⟨found, rfl⟩ := nat_eq_ok field
      cases run
      exact ⟨.counted width 2, width.bytes, rfl,
        Layout.extent?_counted.mpr ⟨count, found, rfl⟩, rfl⟩

/-- A head that was read and the items that it announces make up a fitting item. -/
theorem exists_item_of_readHead {input rest tail : Bytes} {head : Head} {children : List Item}
    (run : readHead input = .ok (head, rest)) (value : head ≠ .extension)
    (fit : Item.AllFit children) (count : children.length = head.nested)
    (split : rest = Item.bytesOfItems children ++ tail) :
    ∃ item : Item, item.Fits ∧ input = item.bytes ++ tail := by
  obtain ⟨first, middle, read, run⟩ := Reader.bind_eq_ok run
  cases input with
  | nil => cases read
  | cons byte later =>
      cases read
      obtain ⟨layout, size, shape, found, left⟩ := extent?_of_readFields run value
      obtain ⟨item, fits, written⟩ := Item.exists_item_of_extent shape found count fit
      refine ⟨item, fits, ?_⟩
      rw [written, Marker.toByte_ofByte, List.cons_append, List.append_assoc, ← split, left,
        List.take_append_drop]

/-- Whatever the reader gives, it took `count` fitting items for it off the front of its input. -/
def Reader.Consumes {α : Type} (reader : Reader α) (count : Nat) : Prop :=
  ∀ input result rest, reader input = .ok (result, rest) →
    ∃ items, Item.AllFit items ∧ items.length = count ∧ input = Item.bytesOfItems items ++ rest

namespace Reader.Consumes

theorem pure {α : Type} (value : α) : Consumes (Pure.pure value) 0 := by
  intro input result rest run
  cases run
  exact ⟨[], trivial, rfl, rfl⟩

theorem bind {α β : Type} {lead : Reader α} {next : α → Reader β} {count more : Nat}
    (first : Consumes lead count) (second : ∀ value, Consumes (next value) more) :
    Consumes (lead >>= next) (count + more) := by
  intro input result rest run
  obtain ⟨value, middle, head, tail⟩ := bind_eq_ok run
  obtain ⟨items, fit, length, rfl⟩ := first _ _ _ head
  obtain ⟨others, otherFit, otherLength, rfl⟩ := second value _ _ _ tail
  refine ⟨items ++ others, ?_, ?_, ?_⟩
  · rw [Item.allFit_iff]
    intro item member
    rcases List.mem_append.mp member with member | member
    · exact Item.allFit_iff.mp fit item member
    · exact Item.allFit_iff.mp otherFit item member
  · rw [List.length_append, length, otherLength]
  · rw [Item.bytesOfItems_append, List.append_assoc]

theorem refuse {α : Type} (cause : Refusal) (count : Nat) :
    Consumes (Reader.refuse cause : Reader α) count := by
  intro input result rest run
  cases run

theorem many {α : Type} {reader : Reader α} {each : Nat} (consumes : Consumes reader each)
    (count : Nat) : Consumes (many reader count) (each * count) := by
  induction count with
  | zero =>
      rw [many_zero]
      exact pure []
  | succ count ih =>
      rw [many_succ, Nat.mul_succ, Nat.add_comm]
      exact bind consumes fun value => bind ih fun values => pure (value :: values)

theorem head {α : Type} {next : Head → Reader α}
    (follow : ∀ head, Consumes (next head) head.nested)
    (refused : ∃ cause, next .extension = Reader.refuse cause) :
    Consumes (readHead >>= next) 1 := by
  intro input result rest run
  obtain ⟨head, middle, first, last⟩ := bind_eq_ok run
  have value : head ≠ .extension := by
    rintro rfl
    obtain ⟨cause, refused⟩ := refused
    rw [refused] at last
    cases last
  obtain ⟨children, fit, count, split⟩ := follow head _ _ _ last
  obtain ⟨item, fits, rfl⟩ := exists_item_of_readHead first value fit count split
  refine ⟨[item], ⟨fits, trivial⟩, rfl, ?_⟩
  rw [Item.bytesOfItems, Item.bytesOfItems, List.append_nil]

end Reader.Consumes

open Reader

theorem consumes_readKey (deeper : Bool) : Consumes (readKey deeper) 1 := by
  refine Consumes.head (fun head => ?_) ?_
  · cases head with
    | leaf value =>
        split
        · exact Consumes.pure _
        · exact Consumes.refuse _ _
    | _ => exact Consumes.refuse _ _
  · exact ⟨_, rfl⟩

theorem consumes_readWithin (depth : Nat) : Consumes (readWithin depth) 1 := by
  induction depth with
  | zero =>
      refine Consumes.head (fun head => ?_) ⟨.tooDeep, rfl⟩
      cases head with
      | leaf value => exact Consumes.pure value
      | _ => exact Consumes.refuse _ _
  | succ depth ih =>
      refine Consumes.head (fun head => ?_) ⟨.extension, rfl⟩
      cases head with
      | leaf value => exact Consumes.pure value
      | array items =>
          have all := Consumes.bind (Consumes.many ih items) fun values =>
            Consumes.pure (Value.array values)
          rwa [Nat.one_mul] at all
      | map fields =>
          have field := Consumes.bind (consumes_readKey (depth ≠ 0)) fun key =>
            Consumes.bind ih fun value => Consumes.pure (key, value)
          exact Consumes.bind (Consumes.many field fields) fun fields =>
            Consumes.pure (Value.map (Record.ofFields fields))
      | extension => exact Consumes.refuse _ _

theorem exists_item_of_readWithin {depth : Nat} {input rest : Bytes} {value : Value}
    (run : readWithin depth input = .ok (value, rest)) :
    ∃ item : Item, item.Fits ∧ input = item.bytes ++ rest ∧ item.value? = some value ∧
      item.depth ≤ depth := by
  obtain ⟨items, fit, count, rfl⟩ := consumes_readWithin depth _ _ _ run
  -- what the item means follows from reading it once more, now as a written item
  obtain ⟨item, rfl⟩ := List.length_eq_one_iff.mp count
  have fits : item.Fits := fit.1
  rw [Item.bytesOfItems, Item.bytesOfItems, List.append_nil] at run ⊢
  rw [readWithin_bytes depth fits] at run
  cases given : item.valueWithin depth with
  | error cause =>
      rw [given] at run
      cases run
  | ok other =>
      rw [given] at run
      cases run
      exact ⟨item, fits, rfl, Item.valueWithin_eq_ok.mp given⟩

theorem readWithin_of_value? {depth : Nat} {item : Item} {value : Value} (fits : item.Fits)
    (stands : item.value? = some value) (shallow : item.depth ≤ depth) (rest : Bytes) :
    readWithin depth (item.bytes ++ rest) = .ok (value, rest) := by
  rw [readWithin_bytes depth fits, Item.valueWithin_eq_ok.mpr ⟨stands, shallow⟩]
  rfl

/-! ## The accepted bytes -/

theorem decode_eq_some_iff_item {buffer : Bytes} {value : Value} {consumed : Nat} :
    decode buffer = .ok (some (value, consumed)) ↔
      ∃ item : Item, item.Fits ∧ item.depth ≤ 1023 ∧ item.value? = some value ∧
        consumed ≤ buffer.length ∧ buffer.take consumed = item.bytes := by
  rw [decode_eq_some]
  constructor
  · rintro ⟨enough, run⟩
    obtain ⟨item, fits, split, stands, shallow⟩ := exists_item_of_readWithin run
    have parts := List.take_append_drop consumed buffer
    exact ⟨item, fits, shallow, stands, enough, List.append_cancel_right (parts.trans split)⟩
  · rintro ⟨item, fits, shallow, stands, enough, written⟩
    have run := readWithin_of_value? fits stands shallow (buffer.drop consumed)
    rw [← written, List.take_append_drop] at run
    exact ⟨enough, run⟩

theorem decode_eq_some_iff_tail {buffer : Bytes} {value : Value} {consumed : Nat} :
    decode buffer = .ok (some (value, consumed)) ↔ consumed ≤ buffer.length ∧
      ∀ tail, decode (buffer.take consumed ++ tail) = .ok (some (value, consumed)) := by
  constructor
  · intro run
    obtain ⟨item, fits, shallow, stands, enough, written⟩ := decode_eq_some_iff_item.mp run
    have length : (buffer.take consumed).length = consumed := List.length_take_of_le enough
    refine ⟨enough, fun tail => decode_eq_some_iff_item.mpr ⟨item, fits, shallow, stands, ?_, ?_⟩⟩
    · rw [List.length_append, length]
      exact Nat.le_add_right _ _
    · rw [List.take_left' length, written]
  · rintro ⟨-, run⟩
    have here := run (buffer.drop consumed)
    rwa [List.take_append_drop] at here

/-- The decoder accepts the written forms of the items that stand for a value and are not too deep,
and nothing else; what follows the value does not matter. Of what items mean, two parts are not
plain from `Item.value?`: a binary32 number is widened exactly, and of several fields with one key
the last counts. -/
theorem decode_accepts_exactly_items (buffer : Bytes) (value : Value) (consumed : Nat) :
    (decode buffer = .ok (some (value, consumed)) ↔
      ∃ item : Item, item.Fits ∧ item.depth ≤ 1023 ∧ item.value? = some value ∧
        consumed ≤ buffer.length ∧ buffer.take consumed = item.bytes) ∧
    (decode buffer = .ok (some (value, consumed)) ↔ consumed ≤ buffer.length ∧
      ∀ tail, decode (buffer.take consumed ++ tail) = .ok (some (value, consumed))) ∧
    (∀ bits, (Binary64.ofBinary32Bits bits).quantity = Binary64.quantityOfBinary32 bits) ∧
    ∀ fields key, (Record.ofFields fields).get? key = Record.get? fields.reverse key :=
  ⟨decode_eq_some_iff_item, decode_eq_some_iff_tail, Binary64.quantity_ofBinary32Bits,
    Record.get?_ofFields⟩

end LogIntake.MessagePack
