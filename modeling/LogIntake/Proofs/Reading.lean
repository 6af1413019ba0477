import LogIntake.MessagePack.Reader
import LogIntake.Proofs.Parts

/-!
# Reading written items

What the reader makes of a written item, computed from the item alone: `Item.valueWithin` is the
value, or the reason for which the item is refused, and reading the bytes of a fitting item gives
just that and leaves what follows them (`readWithin_bytes`).
-/
set_option autoImplicit false

namespace LogIntake.MessagePack

/-! ## Fields -/

namespace Reader

theorem bytes_append (content rest : Bytes) :
    bytes content.length (content ++ rest) = .ok (content, rest) := by
  simp [bytes, Bytes.drop?_eq]

theorem bytes_eq_ok {count : Nat} {input taken rest : Bytes}
    (run : bytes count input = .ok (taken, rest)) :
    count ≤ input.length ∧ taken = input.take count ∧ rest = input.drop count := by
  simp only [bytes, Bytes.drop?_eq] at run
  split at run
  · cases run
  · next left found =>
    split at found
    · next enough =>
      cases found
      cases run
      exact ⟨enough, rfl, rfl⟩
    · cases found

theorem nat_ofNat {width number : Nat} (fits : number < Bytes.room width) (rest : Bytes) :
    nat width (Bytes.ofNat width number ++ rest) = .ok (number, rest) := by
  have taken := bytes_append (Bytes.ofNat width number) rest
  rw [Bytes.length_ofNat] at taken
  rw [nat, map_of_ok Bytes.toNat taken, Bytes.toNat_ofNat_of_lt fits]

theorem int_ofInt {width : Nat} {number : Int} (low : -(Bytes.room width : Int) ≤ 2 * number)
    (high : 2 * number < (Bytes.room width : Int)) (rest : Bytes) :
    int width (Bytes.ofInt width number ++ rest) = .ok (number, rest) := by
  have taken := bytes_append (Bytes.ofInt width number) rest
  rw [Bytes.ofInt, Bytes.length_ofNat, ← Bytes.ofInt] at taken
  rw [int, map_of_ok Bytes.toInt taken, Bytes.toInt_ofInt low high]

theorem nat_eq_ok {width number : Nat} {input rest : Bytes}
    (run : nat width input = .ok (number, rest)) :
    field? width input = some number ∧ rest = input.drop width := by
  obtain ⟨taken, took, rfl⟩ := map_eq_ok run
  obtain ⟨enough, rfl, rfl⟩ := bytes_eq_ok took
  exact ⟨field?_of_le enough, rfl⟩

theorem int_eq_ok {width : Nat} {number : Int} {input rest : Bytes}
    (run : int width input = .ok (number, rest)) :
    width ≤ input.length ∧ rest = input.drop width := by
  obtain ⟨taken, took, -⟩ := map_eq_ok run
  obtain ⟨enough, -, rfl⟩ := bytes_eq_ok took
  exact ⟨enough, rfl⟩

end Reader

/-! ## Items by what a reader sees of them -/

/-- An item up to the way in which it and its nested items are written. -/
inductive Item.Form where
  | leaf (value : Value)
  | array (items : List Item)
  | map (fields : List (Item × Item))
  | extension (content : Bytes)

namespace Item

def form : Item → Form
  | .smallArray items | .array _ items => .array items
  | .smallMap fields | .map _ fields => .map fields
  | .fixedExt _ type content | .ext _ type content => .extension (type :: content)
  | item =>
    match item.value? with
    | some value => .leaf value
    | none => .extension []

def Form.head : Form → Head
  | .leaf value => .leaf value
  | .array items => .array items.length
  | .map fields => .map fields.length
  | .extension _ => .extension

def Form.bytes : Form → Bytes
  | .leaf _ => []
  | .array items => bytesOfItems items
  | .map fields => bytesOfFields fields
  | .extension content => content

end Item

theorem ofInt64_ofInt {number : Int} (low : -9223372036854775808 ≤ number)
    (high : number < 9223372036854775808) :
    Value.ofInt64 (Int64.ofInt number) =
      if 0 ≤ number then .uint (UInt64.ofNat number.toNat) else .int (Int64.ofInt number) := by
  have exact : (Int64.ofInt number).toInt = number :=
    Int64.toInt_ofInt_of_le (by omega) (by omega)
  have sign : 0 ≤ Int64.ofInt number ↔ 0 ≤ number := by
    rw [Int64.le_iff_toInt_le, exact]
    rfl
  by_cases positive : 0 ≤ number
  · rw [Value.ofInt64, if_pos (sign.mpr positive), if_pos positive]
    obtain ⟨magnitude, rfl⟩ := Int.eq_ofNat_of_zero_le positive
    rw [Int64.ofInt_eq_ofNat, Int64.toUInt64_ofNat', Int.toNat_natCast]
  · rw [Value.ofInt64, if_neg (mt sign.mp positive), if_neg positive]

theorem room_integerWidth_le (width : IntegerWidth) :
    Bytes.room width.bytes ≤ 18446744073709551616 := by
  cases width <;> decide

theorem readHead_toByte (marker : Marker) (rest : Bytes) :
    readHead (marker.toByte :: rest) = readFields marker rest := by
  rw [readHead, Reader.bind_of_ok _ (show Reader.byte (marker.toByte :: rest) = _ from rfl),
    Marker.ofByte_toByte]

open Reader in
theorem readHead_bytes {item : Item} (fits : item.Fits) (rest : Bytes) :
    readHead (item.bytes ++ rest) = .ok (item.form.head, item.form.bytes ++ rest) := by
  cases item with
  | nil => exact readHead_toByte _ _
  | bool truth => exact readHead_toByte _ _
  | smallUInt number => exact readHead_toByte _ _
  | smallInt index =>
      refine (readHead_toByte _ _).trans ?_
      have negative : ¬ (0 : Int) ≤ (index.val : Int) - 32 := by omega
      rw [readFields, ofInt64_ofInt (by omega) (by omega), if_neg negative]
      rfl
  | uint width number =>
      exact (readHead_toByte _ _).trans (bind_of_ok _ (nat_ofNat fits rest))
  | int width number =>
      refine (readHead_toByte _ _).trans ((bind_of_ok _ (int_ofInt fits.1 fits.2 rest)).trans ?_)
      have room := room_integerWidth_le width
      have low := fits.1
      have high := fits.2
      rw [ofInt64_ofInt (by omega) (by omega)]
      rfl
  | float32 bits =>
      refine (readHead_toByte _ _).trans ((bind_of_ok _ (nat_ofNat bits.toNat_lt rest)).trans ?_)
      rw [UInt32.ofNat_toNat]
      rfl
  | float64 bits =>
      refine (readHead_toByte _ _).trans ((bind_of_ok _ (nat_ofNat bits.toNat_lt rest)).trans ?_)
      rw [UInt64.ofNat_toNat]
      rfl
  | smallStr content =>
      have length : (Fin.ofNat 32 content.length).val = content.length := Nat.mod_eq_of_lt fits
      have taken := bytes_append content rest
      rw [← length] at taken
      exact (readHead_toByte _ _).trans (bind_of_ok _ taken)
  | str width content | bin width content =>
      have field := nat_ofNat fits (content ++ rest)
      rw [← List.append_assoc] at field
      exact (readHead_toByte _ _).trans
        ((bind_of_ok _ field).trans (bind_of_ok _ (bytes_append content rest)))
  | fixedExt size type content => exact readHead_toByte _ _
  | ext width type content =>
      have field := nat_ofNat fits (type :: content ++ rest)
      rw [← List.append_assoc] at field
      exact (readHead_toByte _ _).trans (bind_of_ok _ field)
  | smallArray items =>
      have length : (Fin.ofNat 16 items.length).val = items.length := Nat.mod_eq_of_lt fits.1
      refine (readHead_toByte _ _).trans ?_
      rw [readFields, length]
      rfl
  | array width items =>
      have field := nat_ofNat fits.1 (Item.bytesOfItems items ++ rest)
      rw [← List.append_assoc] at field
      exact (readHead_toByte _ _).trans (bind_of_ok _ field)
  | smallMap fields =>
      have length : (Fin.ofNat 16 fields.length).val = fields.length := Nat.mod_eq_of_lt fits.1
      refine (readHead_toByte _ _).trans ?_
      rw [readFields, length]
      rfl
  | map width fields =>
      have field := nat_ofNat fits.1 (Item.bytesOfFields fields ++ rest)
      rw [← List.append_assoc] at field
      exact (readHead_toByte _ _).trans (bind_of_ok _ field)

/-! ## Values of items -/

namespace Item

/-- What a reader that follows `depth` containers makes of an item. -/
def valueWithin : (depth : Nat) → Item → Except Refusal Value
  | 0, item =>
    match item.form with
    | .leaf value => .ok value
    | _ => .error .tooDeep
  | depth + 1, item =>
    match item.form with
    | .leaf value => .ok value
    | .array items => .array <$> items.mapM (valueWithin depth)
    | .map fields => (fun fields => .map (Record.ofFields fields)) <$> fields.mapM fun field => do
        return (← field.1.form.head.key (depth ≠ 0), ← valueWithin depth field.2)
    | .extension _ => .error .extension

end Item

def outcome {α : Type} (result : Except Refusal α) (rest : Bytes) : Except Stop (α × Bytes) :=
  match result with
  | .ok value => .ok (value, rest)
  | .error cause => .error (.refused cause)

namespace Reader

theorem bind_outcome {α β : Type} {lead : Reader α} {next : α → Reader β} {first : Except Refusal α}
    {second : α → Except Refusal β} {input middle rest : Bytes}
    (head : lead input = outcome first middle)
    (tail : ∀ value, next value middle = outcome (second value) rest) :
    (lead >>= next) input = outcome (first >>= second) rest := by
  cases first with
  | error cause => exact bind_of_error next head
  | ok value => exact (bind_of_ok next head).trans (tail value)

theorem many_outcome {α ι : Type} {reader : Reader α} {written : ι → Bytes}
    {meaning : ι → Except Refusal α} {things : List ι}
    (each : ∀ thing ∈ things, ∀ rest, reader (written thing ++ rest) =
      outcome (meaning thing) rest) (rest : Bytes) :
    many reader things.length (things.flatMap written ++ rest) =
      outcome (things.mapM meaning) rest := by
  induction things with
  | nil => rfl
  | cons thing later ih =>
      have first := each thing List.mem_cons_self
        (later.flatMap written ++ rest)
      have others := ih fun other member => each other (List.mem_cons_of_mem _ member)
      rw [List.flatMap_cons, List.append_assoc, List.length_cons, many_succ, List.mapM_cons]
      refine bind_outcome first fun value => ?_
      exact bind_outcome others fun values => rfl

end Reader

namespace Item

theorem bytesOfItems_eq_flatMap (items : List Item) : bytesOfItems items = items.flatMap bytes := by
  induction items with
  | nil => rfl
  | cons item rest ih => rw [bytesOfItems, ih, List.flatMap_cons]

theorem bytesOfFields_eq_flatMap (fields : List (Item × Item)) :
    bytesOfFields fields = fields.flatMap fun field => field.1.bytes ++ field.2.bytes := by
  induction fields with
  | nil => rfl
  | cons field rest ih => rw [bytesOfFields, ih, List.flatMap_cons]

theorem fits_of_mem_keysAndValues {fields : List (Item × Item)}
    (fit : AllFit (keysAndValues fields)) :
    ∀ field ∈ fields, field.1.Fits ∧ field.2.Fits := by
  induction fields with
  | nil => exact fun field member => absurd member List.not_mem_nil
  | cons first rest ih =>
      intro field member
      rcases List.mem_cons.mp member with rfl | member
      · exact ⟨fit.1, fit.2.1⟩
      · exact ih fit.2.2 field member

theorem fits_of_form_array {item : Item} {items : List Item} (form : item.form = .array items)
    (fits : item.Fits) : ∀ next ∈ items, next.Fits := by
  cases item with
  | smallArray | array =>
      cases form
      exact allFit_iff.mp fits.2
  | _ => cases form

theorem fits_of_form_map {item : Item} {fields : List (Item × Item)}
    (form : item.form = .map fields) (fits : item.Fits) :
    ∀ field ∈ fields, field.1.Fits ∧ field.2.Fits := by
  cases item with
  | smallMap | map =>
      cases form
      exact fits_of_mem_keysAndValues (allFieldsFit_iff.mp fits.2)
  | _ => cases form

end Item

theorem readKey_bytes {item : Item} (fits : item.Fits) (deeper : Bool) (rest : Bytes) :
    readKey deeper (item.bytes ++ rest) = outcome (item.form.head.key deeper) rest := by
  rw [readKey, Reader.bind_of_ok _ (readHead_bytes fits rest)]
  cases item.form with
  | leaf value =>
      dsimp only [Item.Form.head]
      cases (Head.leaf value).key deeper with
      | ok key => rfl
      | error cause => rfl
  | array items => rfl
  | map fields => rfl
  | extension content => rfl

/-- Reading a written item gives what the item gives, and leaves what follows it. -/
theorem readWithin_bytes (depth : Nat) {item : Item} (fits : item.Fits) (rest : Bytes) :
    readWithin depth (item.bytes ++ rest) = outcome (item.valueWithin depth) rest := by
  induction depth generalizing item rest with
  | zero =>
      rw [readWithin, Reader.bind_of_ok _ (readHead_bytes fits rest), Item.valueWithin]
      cases item.form with
      | _ => rfl
  | succ depth ih =>
      rw [readWithin, Reader.bind_of_ok _ (readHead_bytes fits rest), Item.valueWithin]
      cases form : item.form with
      | leaf value => rfl
      | array items =>
          have fit := Item.fits_of_form_array form fits
          have all := Reader.many_outcome (fun next member => ih (fit next member)) rest
          rw [Item.Form.bytes, Item.bytesOfItems_eq_flatMap]
          exact Reader.bind_outcome all fun values => rfl
      | map fields =>
          have fit := Item.fits_of_form_map form fits
          have each : ∀ field ∈ fields, ∀ rest,
              (do return (← readKey (depth ≠ 0), ← readWithin depth) : Reader (String × Value))
                (field.1.bytes ++ field.2.bytes ++ rest) =
              outcome (do return (← field.1.form.head.key (depth ≠ 0),
                ← field.2.valueWithin depth)) rest := by
            intro field member rest
            have key := readKey_bytes (fit field member).1 (depth ≠ 0) (field.2.bytes ++ rest)
            have value := ih (fit field member).2 rest
            rw [List.append_assoc]
            exact Reader.bind_outcome key fun _ => Reader.bind_outcome value fun _ => rfl
          have all := Reader.many_outcome each rest
          rw [Item.Form.bytes, Item.bytesOfFields_eq_flatMap]
          exact Reader.bind_outcome all fun values => rfl
      | extension content => rfl

end LogIntake.MessagePack
