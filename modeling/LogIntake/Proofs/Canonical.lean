import LogIntake.Proofs.Agreement
import LogIntake.Proofs.Writing

/-!
# Values there and back

A value that was written is read back up to the form of its integers, and a value that was read,
from whatever bytes, has them in that form already, its fields in key order, and no container too
deep (`Legible.of_decode`). So writing it and reading it again changes nothing.
-/
set_option autoImplicit false

namespace LogIntake

namespace Value

mutual

/-- Whether all fields in the value, at any depth, are in key order. -/
def Sorted : Value → Prop
  | .array items => AllSorted items
  | .map fields => Record.Ordered fields ∧ FieldsSorted fields
  | _ => True

def AllSorted : List Value → Prop
  | [] => True
  | item :: rest => Sorted item ∧ AllSorted rest

def FieldsSorted : List (String × Value) → Prop
  | [] => True
  | (_, value) :: rest => Sorted value ∧ FieldsSorted rest

end

mutual

/-- Whether every string and every container in the value is below the limit in length. -/
def Short : Value → Prop
  | .text content => (Utf8.encode content).length < lengthLimit
  | .binary content => content.length < lengthLimit
  | .array items => items.length < lengthLimit ∧ AllShort items
  | .map fields => fields.length < lengthLimit ∧ FieldsShort fields
  | _ => True

def AllShort : List Value → Prop
  | [] => True
  | item :: rest => Short item ∧ AllShort rest

def FieldsShort : List (String × Value) → Prop
  | [] => True
  | (key, value) :: rest =>
    (Utf8.encode key).length < lengthLimit ∧ Short value ∧ FieldsShort rest

end

mutual

theorem writable_of_short : ∀ {value : Value}, value.Short → value.Sorted → value.Writable
  | .nil, _, _ | .bool _, _, _ | .uint _, _, _ | .int _, _, _ | .float _, _, _ => trivial
  | .text _, short, _ | .binary _, short, _ => short
  | .array _, ⟨count, short⟩, sorted => ⟨count, allWritable_of_short short sorted⟩
  | .map _, ⟨count, short⟩, ⟨ordered, sorted⟩ =>
      ⟨count, ordered, fieldsWritable_of_short short sorted⟩

theorem allWritable_of_short : ∀ {items : List Value}, AllShort items → AllSorted items →
    AllWritable items
  | [], _, _ => trivial
  | _ :: _, ⟨short, later⟩, ⟨sorted, others⟩ =>
      ⟨writable_of_short short sorted, allWritable_of_short later others⟩

theorem fieldsWritable_of_short : ∀ {fields : List (String × Value)}, FieldsShort fields →
    FieldsSorted fields → FieldsWritable fields
  | [], _, _ => trivial
  | _ :: _, ⟨key, short, later⟩, ⟨sorted, others⟩ =>
      ⟨key, writable_of_short short sorted, fieldsWritable_of_short later others⟩

end

/-! ## Lists of values -/

theorem allSorted_iff {items : List Value} :
    AllSorted items ↔ ∀ item ∈ items, item.Sorted := by
  induction items with
  | nil => simp [AllSorted]
  | cons item rest ih => simp [AllSorted, ih]

theorem fieldsSorted_iff {fields : List (String × Value)} :
    FieldsSorted fields ↔ ∀ field ∈ fields, field.2.Sorted := by
  induction fields with
  | nil => simp [FieldsSorted]
  | cons field rest ih => simp [FieldsSorted, ih]

theorem allCanonical_iff {items : List Value} :
    AllCanonical items ↔ ∀ item ∈ items, item.Canonical := by
  induction items with
  | nil => simp [AllCanonical]
  | cons item rest ih => simp [AllCanonical, ih]

theorem fieldsCanonical_iff {fields : List (String × Value)} :
    FieldsCanonical fields ↔ ∀ field ∈ fields, field.2.Canonical := by
  induction fields with
  | nil => simp [FieldsCanonical]
  | cons field rest ih => simp [FieldsCanonical, ih]

end Value

namespace MessagePack

theorem exists_of_mem_mapM {ε α β : Type} {f : α → Except ε β} {things : List α}
    {results : List β} (run : things.mapM f = .ok results) {result : β}
    (member : result ∈ results) : ∃ thing ∈ things, f thing = .ok result := by
  induction things generalizing results with
  | nil =>
      cases run
      cases member
  | cons thing rest ih =>
      rw [List.mapM_cons] at run
      obtain ⟨first, here, run⟩ := ok_of_bind run
      obtain ⟨others, later, run⟩ := ok_of_bind run
      cases run
      rcases List.mem_cons.mp member with rfl | member
      · exact ⟨thing, List.mem_cons_self, here⟩
      · obtain ⟨other, inside, found⟩ := ih later member
        exact ⟨other, List.mem_cons_of_mem _ inside, found⟩

/-! ## Values that were read -/

/-- What holds of every value that is read where containers may stand `limit` deep. -/
structure Legible (limit : Nat) (value : Value) : Prop where
  canonical : value.Canonical
  sorted : value.Sorted
  shallow : value.depth ≤ limit

namespace Legible

variable {limit : Nat}

theorem of_ofStringBytes (content : Bytes) : Legible limit (.ofStringBytes content) := by
  rw [Value.ofStringBytes]
  split
  · exact ⟨trivial, trivial, Nat.zero_le _⟩
  · exact ⟨trivial, trivial, Nat.zero_le _⟩

theorem of_negative {number : Int} (low : -0x8000000000000000 ≤ number) (negative : number < 0) :
    Legible limit (.int (Int64.ofInt number)) := by
  refine ⟨?_, trivial, Nat.zero_le _⟩
  change Int64.ofInt number < 0
  rw [Int64.lt_iff_toInt_lt, Int64.toInt_ofInt_of_le (by omega) (by omega)]
  exact negative

theorem of_leaf {item : Item} {value : Value} (fits : item.Fits)
    (form : item.form = .leaf value) : Legible limit value := by
  cases item with
  | smallStr content | str width content =>
      cases form
      exact of_ofStringBytes content
  | smallInt index =>
      cases form
      exact of_negative (by omega) (by omega)
  | int width number =>
      have room := room_integerWidth_le width
      have low := fits.1
      cases form
      by_cases positive : 0 ≤ number
      · rw [if_pos positive]
        exact ⟨trivial, trivial, Nat.zero_le _⟩
      · rw [if_neg positive]
        exact of_negative (by omega) (by omega)
  | fixedExt | ext | smallArray | array | smallMap | map => cases form
  | _ =>
      cases form
      exact ⟨trivial, trivial, Nat.zero_le _⟩

theorem array {items : List Value} (each : ∀ item ∈ items, Legible limit item) :
    Legible (limit + 1) (.array items) where
  canonical := Value.allCanonical_iff.mpr fun item member => (each item member).canonical
  sorted := Value.allSorted_iff.mpr fun item member => (each item member).sorted
  shallow := by
    have depths := Value.itemsDepth_le_iff.mpr fun item member => (each item member).shallow
    exact Nat.succ_le_succ depths

theorem map {fields : List (String × Value)} (ordered : Record.Ordered fields)
    (each : ∀ field ∈ fields, Legible limit field.2) : Legible (limit + 1) (.map fields) where
  canonical := Value.fieldsCanonical_iff.mpr fun field member => (each field member).canonical
  sorted := ⟨ordered, Value.fieldsSorted_iff.mpr fun field member => (each field member).sorted⟩
  shallow := by
    have depths := Value.fieldsDepth_le_iff.mpr fun field member => (each field member).shallow
    exact Nat.succ_le_succ depths

theorem of_valueWithin {item : Item} {value : Value} (fits : item.Fits)
    (found : item.valueWithin limit = .ok value) : Legible limit value := by
  induction limit generalizing item value with
  | zero =>
      rw [Item.valueWithin] at found
      cases form : item.form with
      | leaf content =>
          rw [form] at found
          cases found
          exact of_leaf fits form
      | _ =>
          rw [form] at found
          cases found
  | succ limit ih =>
      rw [Item.valueWithin] at found
      cases form : item.form with
      | leaf content =>
          rw [form] at found
          cases found
          exact of_leaf fits form
      | array items =>
          rw [form] at found
          obtain ⟨values, all, rfl⟩ := ok_of_map found
          refine array fun value member => ?_
          obtain ⟨item, inside, given⟩ := exists_of_mem_mapM all member
          exact ih (Item.fits_of_form_array form fits item inside) given
      | map fields =>
          rw [form] at found
          obtain ⟨pairs, all, rfl⟩ := ok_of_map found
          refine map (Record.ordered_ofFields pairs) fun pair member => ?_
          obtain ⟨field, inside, given⟩ :=
            exists_of_mem_mapM all (Record.mem_of_mem_ofFields member)
          obtain ⟨key, -, given⟩ := ok_of_bind given
          obtain ⟨value, read, given⟩ := ok_of_bind given
          cases given
          exact ih (Item.fits_of_form_map form fits field inside).2 read
      | extension content =>
          rw [form] at found
          cases found

theorem of_decode {buffer : Bytes} {value : Value} {consumed : Nat}
    (found : decode buffer = .ok (some (value, consumed))) : Legible 1023 value := by
  obtain ⟨item, fits, shallow, stands, -, -⟩ := decode_eq_some_iff_item.mp found
  exact of_valueWithin fits (Item.valueWithin_eq_ok.mpr ⟨stands, shallow⟩)

end Legible

/-! ## Writing and reading -/

/-- A written value is read back whatever follows it, its non-negative integers as such, if it is no
deeper than 1023 containers, and refused for its depth if it is deeper. A value that was read, from
whatever bytes, has all its non-negative integers as such and is no deeper than that. So if it can
be written, reading it back gives the same value. -/
theorem reading_inverts_writing :
    (∀ value : Value, value.Writable → ∀ rest,
      decode (write value ++ rest) =
        if value.depth ≤ 1023 then .ok (some (value.canonical, (write value).length))
        else .error .tooDeep) ∧
    ∀ buffer value consumed, decode buffer = .ok (some (value, consumed)) →
      value.Canonical ∧ value.depth ≤ 1023 ∧ (value.Short → value.Writable ∧ ∀ rest,
        decode (write value ++ rest) = .ok (some (value, (write value).length))) := by
  constructor
  · intro value writable rest
    exact decode_write writable rest
  · intro buffer value consumed found
    have legible := Legible.of_decode found
    refine ⟨legible.canonical, legible.shallow, fun short => ?_⟩
    have writable := Value.writable_of_short short legible.sorted
    refine ⟨writable, fun rest => ?_⟩
    rw [decode_write writable, if_pos legible.shallow, Value.canonical_eq_self legible.canonical]

theorem array_of_integer_reads_back :
    (Value.array [.int 5]).Writable ∧
    decode (write (.array [.int 5]) ++ [0xc1]) = .ok (some (.array [.uint 5], 2)) := by
  have writable : (Value.array [.int 5]).Writable := ⟨by decide, trivial, trivial⟩
  have read := reading_inverts_writing.1 (.array [.int 5]) writable [0xc1]
  rw [if_pos (by decide)] at read
  exact ⟨writable, read⟩

end MessagePack

end LogIntake
