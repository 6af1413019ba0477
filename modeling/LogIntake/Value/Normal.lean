import LogIntake.Value.Basic

/-!
# Normal values

What reaches the output holds no binary strings: wherever one stands it becomes text, exactly where
its bytes are UTF-8 and with U+FFFD in place of what is not. Everything else, and the shape of
arrays and maps, stays.
-/
set_option autoImplicit false

namespace LogIntake

mutual

/-- The value with every binary string, at any depth, read as text. -/
def Value.normalize : Value → Value
  | .binary content => .text (Utf8.decodeLossy content)
  | .array items => .array (Value.normalizeItems items)
  | .map fields => .map (Value.normalizeFields fields)
  | value => value

def Value.normalizeItems : List Value → List Value
  | [] => []
  | item :: rest => Value.normalize item :: Value.normalizeItems rest

def Value.normalizeFields : List (String × Value) → List (String × Value)
  | [] => []
  | (key, value) :: rest => (key, Value.normalize value) :: Value.normalizeFields rest

end

def Record.normalize (record : Record) : Record := Value.normalizeFields record

theorem Value.normalizeItems_eq_map (items : List Value) :
    Value.normalizeItems items = items.map Value.normalize := by
  induction items with
  | nil => rfl
  | cons item rest ih => simp [Value.normalizeItems, ih]

theorem Value.normalizeFields_eq_map (fields : List (String × Value)) :
    Value.normalizeFields fields = fields.map fun field => (field.1, Value.normalize field.2) := by
  induction fields with
  | nil => rfl
  | cons field rest ih => obtain ⟨key, value⟩ := field; simp [Value.normalizeFields, ih]

theorem Record.keys_normalize (record : Record) :
    record.normalize.map Prod.fst = record.map Prod.fst := by
  simp [Record.normalize, Value.normalizeFields_eq_map]

end LogIntake
