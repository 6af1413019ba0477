import LogIntake.Proofs.RoundTrip

/-!
# Packed and forward frames

A packed frame is the forward frame of the values in its blob (`entries_ofValue_blob`), whether it
is recognised or not. The one exception is a blob of one array that reads as the pairs themselves.
-/
set_option autoImplicit false

namespace LogIntake.Frame

/-- Whether the list is one array that, alone in a blob, holds the pairs and is not one itself: it
is empty or starts with an array. -/
def HoldsPairs (items : List Value) : Prop :=
  ∃ pairs, items = [.array pairs] ∧ (pairs = [] ∨ ∃ first rest, pairs = .array first :: rest)

theorem blobPairs_of_holdsPairs {pairs : List Value} (holds : HoldsPairs [.array pairs]) :
    blobPairs [.array pairs] = pairs := by
  obtain ⟨_, same, inside⟩ := holds
  cases same
  rcases inside with rfl | ⟨first, rest, rfl⟩
  · rfl
  · rfl

theorem blobPairs_of_not_holdsPairs {items : List Value} (plain : ¬ HoldsPairs items) :
    blobPairs items = items := by
  unfold blobPairs
  split
  · exact absurd ⟨[], rfl, .inl rfl⟩ plain
  · next first rest => exact absurd ⟨_, rfl, .inr ⟨first, rest, rfl⟩⟩ plain
  · rfl

theorem entries_ofValue_blob (tag : Value) {blob : Bytes} {values : List Value}
    (found : blobValues blob = .ok values) :
    (ofValue (.array [tag, .binary blob])).map entries =
      (ofValue (.array [tag, .array (blobPairs values)])).map entries := by
  have unpacked : unpack blob = (blobPairs values).mapM stampedOf := by
    rw [unpack, found]
    rfl
  rw [ofValue, ofValue]
  cases tagOf tag with
  | error cause => rfl
  | ok name =>
      change (packed name <$> unpack blob).map entries =
        (forward name <$> (blobPairs values).mapM stampedOf).map entries
      rw [unpacked]
      cases (blobPairs values).mapM stampedOf with
      | error cause => rfl
      | ok content => rfl

/-- A list of values gives the same entries, or the same fault, inline as in a blob, unless it is
one array that is empty or starts with an array. Such a blob is taken like the list of what is in
that array. -/
theorem packed_interchangeable_with_forward (tag : Value) (items : List Value)
    (writable : ∀ item ∈ items, item.Writable) (canonical : ∀ item ∈ items, item.Canonical)
    (shallow : ∀ item ∈ items, item.depth ≤ 1023) :
    let inline (items : List Value) := (ofValue (.array [tag, .array items])).map entries
    let inBlob := (ofValue (.array [tag, .binary (items.flatMap MessagePack.write)])).map entries
    (¬ HoldsPairs items → inBlob = inline items) ∧
    ∀ pairs, items = [.array pairs] → HoldsPairs items → inBlob = inline pairs := by
  intro inline inBlob
  have same : items.map Value.canonical = items := by
    rw [List.map_congr_left fun item member => Value.canonical_eq_self (canonical item member),
      List.map_id']
  have found := blobValues_flatMap_write writable
  rw [if_pos shallow, same] at found
  have taken : inBlob = inline (blobPairs items) := entries_ofValue_blob tag found
  constructor
  · intro plain
    rw [taken, blobPairs_of_not_holdsPairs plain]
  · intro pairs alone holds
    subst alone
    rw [taken, blobPairs_of_holdsPairs holds]

/-- Two pairs in a blob give their entries, and a pair with a text behind it is refused. -/
theorem pair_and_scrap_interchangeable :
    let pair : Value := .array [.uint 7, .map [("k", .int (-5))]]
    let inBlob (blob : Bytes) := (ofValue (.array [.text "t", .binary blob])).map entries
    let allowed (items : List Value) := (∀ item ∈ items, item.Writable) ∧
      (∀ item ∈ items, item.Canonical) ∧ (∀ item ∈ items, item.depth ≤ 1023) ∧ ¬ HoldsPairs items
    allowed [pair, .array [.uint 8, .map []]] ∧ allowed [pair, .text "x"] ∧
    inBlob [0x92, 0x07, 0x81, 0xa1, 0x6b, 0xfb, 0x92, 0x08, 0x80] =
      .ok [⟨"t", 7, [("k", .int (-5))]⟩, ⟨"t", 8, []⟩] ∧
    inBlob [0x92, 0x07, 0x81, 0xa1, 0x6b, 0xfb, 0xa1, 0x78] = .error .pair := by
  intro pair inBlob allowed
  have record : (Value.map [("k", .int (-5))]).Writable :=
    ⟨by decide, by decide, by decide, trivial, trivial⟩
  have writable : pair.Writable := ⟨by decide, trivial, record, trivial⟩
  have canonical : pair.Canonical := by
    simp [pair, Value.Canonical, Value.AllCanonical, Value.FieldsCanonical]
  have shallow : pair.depth ≤ 1023 := by decide
  have two {P : Value → Prop} {other : Value} (first : P pair) (second : P other) :
      ∀ item ∈ [pair, other], P item := by
    intro item member
    rcases List.mem_cons.mp member with rfl | member
    · exact first
    · exact List.mem_singleton.mp member ▸ second
  have plain (other : Value) : ¬ HoldsPairs [pair, other] := by
    rintro ⟨pairs, alone, -⟩
    have length : 2 = 1 := congrArg List.length alone
    cases length
  have bare : (Value.array [.uint 8, .map []]).Writable :=
    ⟨by decide, trivial, ⟨by decide, by decide, trivial⟩, trivial⟩
  have text : (Value.text "x").Writable := show _ < _ by decide
  have pairs : allowed [pair, .array [.uint 8, .map []]] :=
    ⟨two writable bare, two canonical ⟨trivial, trivial, trivial⟩, two shallow (by decide), plain _⟩
  have scrap : allowed [pair, .text "x"] :=
    ⟨two writable text, two canonical trivial, two shallow (by decide), plain _⟩
  have same (items : List Value) (fine : allowed items) :=
    (packed_interchangeable_with_forward (.text "t") items fine.1 fine.2.1 fine.2.2.1).1 fine.2.2.2
  exact ⟨pairs, scrap, same _ pairs, same _ scrap⟩

end LogIntake.Frame
