import LogIntake.Binary64
import LogIntake.Text.Utf8

/-!
# Values and records

The dynamic values that log entries carry. A `Record` maps text keys to values and keeps its fields
in strictly increasing key order, which is the order of the keys' UTF-8 bytes; a field put under a
key that is there already replaces it. Main statement: every way of building a record here keeps
that order.
-/
set_option autoImplicit false

namespace LogIntake

/-- One value of an entry. Text and binary strings are told apart. -/
inductive Value where
  | nil
  | bool (truth : Bool)
  | uint (number : UInt64)
  /-- A signed integer; what senders write is `uint` unless it is negative. -/
  | int (number : Int64)
  | float (number : Binary64)
  | text (content : String)
  | binary (content : Bytes)
  | array (items : List Value)
  /-- A map from text to values; see `Record`. -/
  | map (fields : List (String × Value))
  deriving Repr, Inhabited

/-- Text keys with their values, in increasing key order. -/
abbrev Record := List (String × Value)

inductive Kind where
  | nil | bool | integer | float | string | binary | array | map
  deriving DecidableEq, Repr

def Kind.name : Kind → String
  | nil => "nil"
  | bool => "bool"
  | integer => "integer"
  | float => "float"
  | string => "string"
  | binary => "binary"
  | array => "array"
  | map => "map"

namespace Value

def kind : Value → Kind
  | nil => .nil
  | bool _ => .bool
  | uint _ | int _ => .integer
  | float _ => .float
  | text _ => .string
  | binary _ => .binary
  | array _ => .array
  | map _ => .map

def bytes? : Value → Option Bytes
  | text content => some (Utf8.encode content)
  | binary content => some content
  | _ => none

def ofInt64 (number : Int64) : Value :=
  if 0 ≤ number then uint number.toUInt64 else int number

/-- The value of a string whose sort does not matter: text where the bytes are UTF-8. -/
def ofStringBytes (content : Bytes) : Value :=
  match Utf8.decode? content with
  | some content => text content
  | none => binary content

end Value

namespace Record

/-- Each key comes before every later one, so no key stands twice. -/
def Ordered (record : Record) : Prop := (record.map Prod.fst).Pairwise (· < ·)

instance (record : Record) : Decidable (Ordered record) :=
  inferInstanceAs (Decidable (List.Pairwise _ _))

def insert (key : String) (value : Value) : Record → Record
  | [] => [(key, value)]
  | (first, present) :: rest =>
    if key < first then (key, value) :: (first, present) :: rest
    else if key = first then (key, value) :: rest
    else (first, present) :: insert key value rest

/-- The record of some fields given in any order; of fields with one key the last counts. -/
def ofFields (fields : List (String × Value)) : Record :=
  fields.foldl (fun record field => insert field.1 field.2 record) []

def get? (record : Record) (key : String) : Option Value := record.lookup key

private theorem mem_keys_insert {key other : String} {value : Value} {record : Record}
    (h : other ∈ (insert key value record).map Prod.fst) :
    other = key ∨ other ∈ record.map Prod.fst := by
  induction record with
  | nil => simpa [insert] using h
  | cons field rest ih =>
    obtain ⟨first, present⟩ := field
    simp only [insert] at h
    split at h
    · simpa [or_assoc] using h
    · split at h
      · next same =>
        subst same
        simp only [List.map_cons, List.mem_cons] at h ⊢
        exact h.imp_right Or.inr
      · simp only [List.map_cons, List.mem_cons] at h ⊢
        rcases h with rfl | h
        · exact .inr (.inl rfl)
        · exact (ih h).imp_right Or.inr

theorem Ordered.insert {record : Record} (ordered : Ordered record) (key : String) (value : Value) :
    Ordered (record.insert key value) := by
  induction record with
  | nil => simp [Record.insert, Ordered]
  | cons field rest ih =>
    obtain ⟨first, present⟩ := field
    simp only [Ordered, List.map_cons, List.pairwise_cons] at ordered
    obtain ⟨least, ordered⟩ := ordered
    simp only [Record.insert]
    split
    · next before =>
      simp only [Ordered, List.map_cons, List.pairwise_cons, List.mem_cons]
      refine ⟨?_, least, ordered⟩
      rintro later (rfl | member)
      · exact before
      · exact String.lt_trans before (least later member)
    · next notBefore =>
      split
      · next same =>
        subst same
        simp only [Ordered, List.map_cons, List.pairwise_cons]
        exact ⟨least, ordered⟩
      · next different =>
        have after : first < key := by
          rcases String.le_total first key with h | h
          · exact String.not_le.mp fun h' => different (String.le_antisymm h' h)
          · exact absurd (String.not_le.mp fun h' => different (String.le_antisymm h h')) notBefore
        simp only [Ordered, List.map_cons, List.pairwise_cons]
        refine ⟨?_, ih ordered⟩
        intro later member
        rcases mem_keys_insert member with rfl | member
        · exact after
        · exact least later member

theorem ordered_ofFields (fields : List (String × Value)) : Ordered (ofFields fields) := by
  suffices ∀ record : Record, Ordered record →
      Ordered (fields.foldl (fun record field => Record.insert field.1 field.2 record) record) from
    this [] List.Pairwise.nil
  induction fields with
  | nil => exact fun _ ordered => ordered
  | cons field rest ih => exact fun record ordered => ih _ (ordered.insert field.1 field.2)

end Record

end LogIntake
