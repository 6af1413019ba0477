import LogIntake.Proofs.Substituting
import LogIntake.Value.Normal

/-!
# Normal values, place by place

A place in a value is a list of positions, one for each array or map on the way in. Normalizing
keeps what is at every place, but for its strings (`Becomes`), and it is the only value that does so
(`normalizing_rewrites_strings`).
-/
set_option autoImplicit false

namespace LogIntake

namespace Value

/-- What stands directly in an array or a map, a map's values in the order of its keys. -/
def parts : Value → List Value
  | .array items => items
  | .map fields => fields.map Prod.snd
  | _ => []

def at? (value : Value) : List Nat → Option Value
  | [] => some value
  | index :: place => value.parts[index]?.bind fun part => at? part place

/-- Whether the value is neither a binary string nor made of parts. -/
def Plain : Value → Prop
  | .binary _ | .array _ | .map _ => False
  | _ => True

/-- What a value becomes, its parts left out. Text is exact if the bytes are UTF-8. -/
inductive Becomes : Value → Value → Prop
  | exact {content : Bytes} {text : String} (valid : Utf8.decode? content = some text) :
    Becomes (.binary content) (.text text)
  | substituted {content : Bytes} {text : List Char} (invalid : Utf8.decode? content = none)
    (read : Utf8.Substituted content text) : Becomes (.binary content) (.text (String.ofList text))
  | array {items others : List Value} (same : others.length = items.length) :
    Becomes (.array items) (.array others)
  | map {fields others : List (String × Value)}
    (same : others.map Prod.fst = fields.map Prod.fst) : Becomes (.map fields) (.map others)
  | plain {value : Value} (plain : value.Plain) : Becomes value value

/-- Whether each place of one is a place of the other, and holds there what the other's becomes. -/
def Rewrites (value other : Value) : Prop :=
  ∀ place, Option.Rel Becomes (value.at? place) (other.at? place)

theorem parts_normalize (value : Value) : value.normalize.parts = value.parts.map normalize := by
  cases value with
  | array items => exact normalizeItems_eq_map items
  | map fields =>
      simp only [normalize, parts, normalizeFields_eq_map, List.map_map]
      rfl
  | _ => rfl

theorem at?_normalize (value : Value) (place : List Nat) :
    value.normalize.at? place = (value.at? place).map normalize := by
  induction place generalizing value with
  | nil => rfl
  | cons index place ih =>
      rw [at?, at?, parts_normalize, List.getElem?_map]
      cases value.parts[index]? with
      | none => rfl
      | some part => exact ih part

theorem becomes_text (content : Bytes) :
    Becomes (.binary content) (.text (Utf8.decodeLossy content)) := by
  cases decoded : Utf8.decode? content with
  | none =>
      rw [Utf8.decodeLossy_eq]
      exact .substituted decoded (Utf8.substituted_substitute content)
  | some text =>
      rw [Utf8.decodeLossy, decoded, Option.getD_some]
      exact .exact decoded

theorem text_of_becomes {content : Bytes} {other : Value}
    (becomes : Becomes (.binary content) other) : other = .text (Utf8.decodeLossy content) := by
  cases becomes with
  | exact valid => rw [Utf8.decodeLossy, valid, Option.getD_some]
  | substituted invalid read => rw [Utf8.decodeLossy_eq, Utf8.substitute_eq_iff.mpr read]
  | plain plain => cases plain

theorem becomes_normalize (value : Value) : Becomes value value.normalize := by
  cases value with
  | binary content => exact becomes_text content
  | array items =>
      refine .array ?_
      rw [normalizeItems_eq_map, List.length_map]
  | map fields => exact .map (Record.keys_normalize fields)
  | _ => exact .plain trivial

theorem rewrites_normalize (value : Value) : Rewrites value value.normalize := by
  intro place
  rw [at?_normalize]
  cases value.at? place with
  | none => exact .none
  | some part => exact .some (becomes_normalize part)

theorem Becomes.length_parts {value other : Value} (becomes : Becomes value other) :
    value.parts.length = other.parts.length := by
  cases becomes with
  | exact valid => rfl
  | substituted invalid read => rfl
  | array same => exact same.symm
  | map same => simpa [parts] using (congrArg List.length same).symm
  | plain plain => rfl

theorem Rewrites.becomes {value other : Value} (rewrites : Rewrites value other) :
    Becomes value other := by
  cases rewrites [] with
  | some becomes => exact becomes

theorem Rewrites.forall₂_parts {value other : Value} (rewrites : Rewrites value other) :
    List.Forall₂ Rewrites value.parts other.parts := by
  refine List.forall₂_iff_get.mpr ⟨rewrites.becomes.length_parts, ?_⟩
  intro index before also place
  have below := rewrites (index :: place)
  rw [at?, at?, List.getElem?_eq_getElem before, List.getElem?_eq_getElem also] at below
  exact below

mutual

theorem Rewrites.eq_normalize : ∀ {value other : Value}, Rewrites value other →
    other = value.normalize
  | .binary content, other, rewrites => text_of_becomes rewrites.becomes
  | .array items, other, rewrites => by
      cases rewrites.becomes with
      | @array items others same =>
          have each : List.Forall₂ Rewrites items others := rewrites.forall₂_parts
          rw [normalize, items_eq_normalize each]
      | plain plain => cases plain
  | .map fields, other, rewrites => by
      cases rewrites.becomes with
      | map same => rw [normalize, fields_eq_normalize same rewrites.forall₂_parts]
      | plain plain => cases plain
  | .nil, other, rewrites | .bool _, other, rewrites | .uint _, other, rewrites
  | .int _, other, rewrites | .float _, other, rewrites | .text _, other, rewrites => by
      cases rewrites.becomes with
      | plain plain => rfl

theorem items_eq_normalize : ∀ {items others : List Value}, List.Forall₂ Rewrites items others →
    others = normalizeItems items
  | [], others, each => by
      cases each
      rfl
  | item :: rest, others, each => by
      obtain _ | ⟨first, later⟩ := each
      rw [normalizeItems, first.eq_normalize, items_eq_normalize later]

theorem fields_eq_normalize : ∀ {fields others : List (String × Value)},
    others.map Prod.fst = fields.map Prod.fst →
    List.Forall₂ Rewrites (fields.map Prod.snd) (others.map Prod.snd) →
    others = normalizeFields fields
  | [], others, same, each => List.map_eq_nil_iff.mp same
  | (key, value) :: rest, [], same, each => by cases same
  | (key, value) :: rest, (other, part) :: others, same, each => by
      have keys : other = key := (List.cons.inj same).1
      obtain ⟨first, later⟩ := List.forall₂_cons.mp each
      have parts : part = value.normalize := first.eq_normalize
      rw [normalizeFields, ← fields_eq_normalize (List.cons.inj same).2 later, ← parts, keys]

end

theorem at?_normalize_ne_binary (value : Value) (place : List Nat) (content : Bytes) :
    value.normalize.at? place ≠ some (.binary content) := by
  rw [at?_normalize]
  intro found
  obtain ⟨part, -, same⟩ := Option.map_eq_some_iff.mp found
  cases part <;> cases same

theorem rewrites_self {value : Value}
    (textual : ∀ place content, value.at? place ≠ some (.binary content)) :
    Rewrites value value := by
  intro place
  have here := textual place
  cases found : value.at? place with
  | none => exact .none
  | some part =>
      rw [found] at here
      refine .some ?_
      cases part with
      | binary content => exact absurd rfl (here content)
      | array items => exact .array rfl
      | map fields => exact .map rfl
      | _ => exact .plain trivial

end Value

namespace Record

theorem normalize_eq_self {record : Record}
    (textual : ∀ place content, (Value.map record).at? place ≠ some (.binary content)) :
    record.normalize = record :=
  (Value.map.inj (Value.rewrites_self textual).eq_normalize).symm

/-- Normalizing keeps the keys of a record. The record that it gives is the only one that has the
same places and holds at each what the value there becomes: text for a binary string, an array of
the same length, a map of the same keys, or else the value itself. The two ways of reading bytes as
text agree on UTF-8. So no binary string is left at any place, a record that has none is given back
as it is, and normalizing again changes nothing. -/
theorem normalizing_rewrites_strings (record : Record) :
    record.normalize.map Prod.fst = record.map Prod.fst ∧
    (∀ other : Record, Value.Rewrites (.map record) (.map other) ↔ other = record.normalize) ∧
    (∀ content text letters, Utf8.decode? content = some text → Utf8.Substituted content letters →
      String.ofList letters = text) ∧
    (∀ place content, (Value.map record.normalize).at? place ≠ some (.binary content)) ∧
    ((∀ place content, (Value.map record).at? place ≠ some (.binary content)) →
      record.normalize = record) ∧
    record.normalize.normalize = record.normalize := by
  have textual := Value.at?_normalize_ne_binary (.map record)
  refine ⟨keys_normalize record, ?_, ?_, textual, normalize_eq_self, normalize_eq_self textual⟩
  · intro other
    constructor
    · intro rewrites
      exact Value.map.inj rewrites.eq_normalize
    · rintro rfl
      exact Value.rewrites_normalize (.map record)
  · intro content text letters valid read
    rw [← Utf8.encode_of_decode? valid] at read
    rw [← Utf8.substitute_eq_iff.mpr read, Utf8.substitute_encode]

end Record

end LogIntake
