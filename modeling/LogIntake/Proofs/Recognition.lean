import LogIntake.Proofs.Agreement
import LogIntake.Proofs.Packing
import LogIntake.Proofs.Substituting

/-!
# What is recognised as a frame

The payload of an array picks a shape, and the shape says which values are to be pairs
(`Carries`). The array is a frame if its tag is a string and each of those values is a pair
`[time, record]`; one that is not spoils the whole frame (`recognition_is_exact`). What a frame is,
is said here without the order in which its parts are looked at.
-/
set_option autoImplicit false

namespace LogIntake.Frame

open MessagePack (decode ok_of_bind ok_of_map)

/-! ## Times, tags and pairs -/

/-- Whether a value is a time, and which. A float gives its whole seconds. -/
inductive IsTime : Value → UInt64 → Prop
  | uint (number : UInt64) : IsTime (.uint number) number
  | float (number : Binary64) : IsTime (.float number) number.toUInt64

inductive IsTag : Value → String → Prop
  | text (content : String) : IsTag (.text content) content
  | binary (content : Bytes) : IsTag (.binary content) (Utf8.decodeLossy content)

inductive IsPair : Value → Stamped → Prop
  | pair {time : Value} {timestamp : UInt64} (times : IsTime time timestamp) (record : Record) :
    IsPair (.array [time, .map record]) ⟨timestamp, record⟩

theorem timestamp?_eq_some {value : Value} {timestamp : UInt64} :
    value.timestamp? = some timestamp ↔ IsTime value timestamp := by
  constructor
  · intro found
    cases value with
    | uint number => cases found; exact .uint _
    | float number => cases found; exact .float _
    | _ => cases found
  · intro times
    cases times with
    | uint number => rfl
    | float number => rfl

theorem tagOf_eq_ok {value : Value} {name : String} :
    tagOf value = .ok name ↔ IsTag value name := by
  constructor
  · intro found
    cases value with
    | text content =>
        change Except.ok (Utf8.decodeLossy (Utf8.encode content)) = .ok name at found
        rw [Utf8.decodeLossy_encode] at found
        cases found
        exact .text _
    | binary content => cases found; exact .binary _
    | _ => cases found
  · intro names
    cases names with
    | text name => exact congrArg Except.ok (Utf8.decodeLossy_encode name)
    | binary content => rfl

theorem recordOf_eq_ok {value : Value} {record : Record} :
    recordOf value = .ok record ↔ value = .map record := by
  constructor
  · intro found
    cases value with
    | map fields => cases found; rfl
    | _ => cases found
  · rintro rfl
    rfl

theorem stampedOf_pair {time data : Value} {stamped : Stamped} :
    stampedOf (.array [time, data]) = .ok stamped ↔ IsPair (.array [time, data]) stamped := by
  rw [stampedOf]
  constructor
  · intro found
    cases given : time.timestamp? with
    | none => rw [given] at found; cases found
    | some timestamp =>
        rw [given] at found
        obtain ⟨record, whole, rfl⟩ := ok_of_map found
        cases recordOf_eq_ok.mp whole
        exact .pair (timestamp?_eq_some.mp given) record
  · rintro ⟨times, record⟩
    rw [timestamp?_eq_some.mpr times]
    rfl

theorem stampedOf_eq_ok {value : Value} {stamped : Stamped} :
    stampedOf value = .ok stamped ↔ IsPair value stamped := by
  constructor
  · intro found
    unfold stampedOf at found
    split at found
    · exact stampedOf_pair.mp found
    · cases found
  · intro pairs
    obtain ⟨times, record⟩ := pairs
    exact stampedOf_pair.mpr (.pair times record)

theorem mapM_eq_ok {ε α β : Type} {f : α → Except ε β} {things : List α} {results : List β} :
    things.mapM f = .ok results ↔
      List.Forall₂ (fun thing result => f thing = .ok result) things results := by
  induction things generalizing results with
  | nil =>
      rw [List.forall₂_nil_left_iff]
      exact ⟨fun run => (Except.ok.inj run).symm, fun empty => congrArg Except.ok empty.symm⟩
  | cons thing rest ih =>
      rw [List.mapM_cons]
      constructor
      · intro run
        obtain ⟨first, here, run⟩ := ok_of_bind run
        obtain ⟨others, later, run⟩ := ok_of_bind run
        cases run
        exact .cons here (ih.mp later)
      · rintro (_ | ⟨here, later⟩)
        rw [here, ih.mpr later]
        rfl

theorem mapM_stampedOf_eq_ok {pairs : List Value} {content : List Stamped} :
    pairs.mapM stampedOf = .ok content ↔ List.Forall₂ IsPair pairs content := by
  rw [mapM_eq_ok]
  simp only [stampedOf_eq_ok]

/-! ## Blobs -/

/-- Whether the values stand in the blob one after the other, with nothing between or after them. -/
inductive Fills : List Value → Bytes → Prop
  | nil : Fills [] []
  | cons {value : Value} {values : List Value} {piece rest : Bytes}
    (first : decode (piece ++ rest) = .ok (some (value, piece.length)))
    (later : Fills values rest) : Fills (value :: values) (piece ++ rest)

/-- Which of the values in a blob are to be pairs: all of them, but for one array alone that is
empty or starts with an array. That array is no pair itself, and its items are to be pairs. -/
def Unwraps (values pairs : List Value) : Prop :=
  values = pairs ∧ ¬ HoldsPairs values ∨ values = [.array pairs] ∧ HoldsPairs values

theorem blobValues_eq_ok {blob : Bytes} {values : List Value} :
    blobValues blob = .ok values ↔ Fills values blob := by
  constructor
  · intro found
    fun_induction blobValues blob generalizing values with
    | case1 =>
        cases found
        exact .nil
    | case2 => cases found
    | case3 => cases found
    | case4 blob present value rest run ih =>
        obtain ⟨others, later, rfl⟩ := ok_of_map found
        obtain ⟨piece, -, rfl⟩ := MessagePack.takes_read _ _ _ run
        refine .cons (MessagePack.decode_eq_some.mpr ⟨?_, ?_⟩) (ih later)
        · rw [List.length_append]
          exact Nat.le_add_right _ _
        · rw [List.drop_left]
          exact run
  · intro fills
    induction fills with
    | nil => exact blobValues_nil
    | @cons value values piece rest first later ih =>
        have positive := (MessagePack.consumed_of_decode first).1
        have run := (MessagePack.decode_eq_some.mp first).2
        rw [List.drop_left] at run
        have present : piece ++ rest ≠ [] :=
          List.append_ne_nil_of_left_ne_nil (List.ne_nil_of_length_pos positive) rest
        rw [blobValues_of_read present run, ih]
        rfl

theorem blobPairs_eq {values pairs : List Value} :
    blobPairs values = pairs ↔ Unwraps values pairs := by
  by_cases holds : HoldsPairs values
  · obtain ⟨inside, rfl, start⟩ := id holds
    rw [blobPairs_of_holdsPairs holds]
    constructor
    · rintro rfl
      exact .inr ⟨rfl, holds⟩
    · rintro (⟨-, plain⟩ | ⟨same, -⟩)
      · exact absurd holds plain
      · cases same
        rfl
  · rw [blobPairs_of_not_holdsPairs holds]
    constructor
    · rintro rfl
      exact .inl ⟨rfl, holds⟩
    · rintro (⟨same, -⟩ | ⟨-, other⟩)
      · exact same
      · exact absurd other holds

theorem unpack_eq_ok {blob : Bytes} {content : List Stamped} :
    unpack blob = .ok content ↔ ∃ values pairs, Fills values blob ∧ Unwraps values pairs ∧
      List.Forall₂ IsPair pairs content := by
  constructor
  · intro found
    obtain ⟨values, inside, run⟩ := ok_of_bind found
    exact ⟨values, blobPairs values, blobValues_eq_ok.mp inside, blobPairs_eq.mp rfl,
      mapM_stampedOf_eq_ok.mp run⟩
  · rintro ⟨values, pairs, fills, unwraps, each⟩
    rw [unpack, blobValues_eq_ok.mpr fills]
    change (blobPairs values).mapM stampedOf = .ok content
    rw [blobPairs_eq.mpr unwraps]
    exact mapM_stampedOf_eq_ok.mpr each

/-! ## Frames -/

/-- The shape that a payload picks, with the values that it takes as pairs, which may be anything. A
message is the pair of its time and of the third element; the other shapes take no account of a
third element. -/
inductive Carries : Value → Option Value → Shape → List Value → Prop
  | message {time : Value} {timestamp : UInt64} (times : IsTime time timestamp) (data : Value) :
    Carries time (some data) .message [.array [time, data]]
  | forward (pairs : List Value) (third : Option Value) :
    Carries (.array pairs) third .forward pairs
  | packed {blob : Bytes} {values pairs : List Value} (fills : Fills values blob)
    (unwraps : Unwraps values pairs) (third : Option Value) :
    Carries (.binary blob) third .packed pairs

variable {name : String} {frame : Frame}

theorem ofParts_eq_ok {payload : Value} {third : Option Value} :
    ofParts name payload third = .ok frame ↔ frame.tag = name ∧
      ∃ pairs, Carries payload third frame.shape pairs ∧
        List.Forall₂ IsPair pairs frame.content := by
  constructor
  · intro found
    unfold ofParts at found
    split at found
    · next pairs =>
        obtain ⟨content, run, rfl⟩ := ok_of_map found
        exact ⟨rfl, pairs, .forward pairs third, mapM_stampedOf_eq_ok.mp run⟩
    · next blob =>
        obtain ⟨content, run, rfl⟩ := ok_of_map found
        obtain ⟨values, pairs, fills, unwraps, each⟩ := unpack_eq_ok.mp run
        exact ⟨rfl, pairs, .packed fills unwraps third, each⟩
    · split at found
      · next timestamp given =>
          split at found
          · next data =>
              obtain ⟨record, whole, rfl⟩ := ok_of_map found
              cases recordOf_eq_ok.mp whole
              have times := timestamp?_eq_some.mp given
              exact ⟨rfl, _, .message times _, .cons (.pair times record) .nil⟩
          · cases found
      · cases found
  · rintro ⟨rfl, pairs, carries, each⟩
    cases frame with
    | message name content =>
        cases carries with
        | message times data =>
            obtain ⟨pair, -⟩ := List.forall₂_cons.mp each
            obtain ⟨alsoTimes, record⟩ := pair
            cases times <;> cases alsoTimes <;> rfl
    | forward name content =>
        cases carries with
        | forward pairs third =>
            have run : pairs.mapM stampedOf = .ok content := mapM_stampedOf_eq_ok.mpr each
            rw [ofParts, run]
            rfl
    | packed name content =>
        cases carries with
        | packed fills unwraps third =>
            have run : unpack _ = .ok content := unpack_eq_ok.mpr ⟨_, pairs, fills, unwraps, each⟩
            rw [ofParts, run]
            rfl

theorem ofValue_eq_ok {value : Value} :
    ofValue value = .ok frame ↔ ∃ tag payload third pairs,
      value = .array (tag :: payload :: Option.toList third) ∧ IsTag tag frame.tag ∧
        Carries payload third frame.shape pairs ∧ List.Forall₂ IsPair pairs frame.content := by
  constructor
  · intro found
    unfold ofValue at found
    split at found
    · next tag payload =>
        obtain ⟨name, named, found⟩ := ok_of_bind found
        obtain ⟨rfl, pairs, carries, each⟩ := ofParts_eq_ok.mp found
        exact ⟨tag, payload, none, pairs, rfl, tagOf_eq_ok.mp named, carries, each⟩
    · next tag payload third =>
        obtain ⟨name, named, found⟩ := ok_of_bind found
        obtain ⟨rfl, pairs, carries, each⟩ := ofParts_eq_ok.mp found
        exact ⟨tag, payload, some third, pairs, rfl, tagOf_eq_ok.mp named, carries, each⟩
    · cases found
    · cases found
  · rintro ⟨tag, payload, third, pairs, rfl, names, carries, each⟩
    have parts := ofParts_eq_ok.mpr ⟨rfl, pairs, carries, each⟩
    cases third with
    | none =>
        rw [Option.toList_none, ofValue, tagOf_eq_ok.mpr names]
        exact parts
    | some third =>
        rw [Option.toList_some, ofValue, tagOf_eq_ok.mpr names]
        exact parts

/-- Whether the value is a frame: an array of two or three elements, the first of them a string, in
which the payload, with the third element, holds nothing but pairs. -/
def Recognisable (value : Value) : Prop :=
  ∃ tag payload third shape pairs, value = .array (tag :: payload :: Option.toList third) ∧
    (∃ name, IsTag tag name) ∧ Carries payload third shape pairs ∧
      ∀ pair ∈ pairs, ∃ stamped, IsPair pair stamped

theorem exists_frame {payload : Value} {third : Option Value} {shape : Shape} {pairs : List Value}
    {content : List Stamped} (carries : Carries payload third shape pairs)
    (each : List.Forall₂ IsPair pairs content) (name : String) :
    ∃ frame : Frame, frame.shape = shape ∧ frame.tag = name ∧ frame.content = content := by
  cases carries with
  | message times data =>
      obtain ⟨stamped, rest, -, none, rfl⟩ := List.forall₂_cons_left_iff.mp each
      cases none
      exact ⟨message name stamped, rfl, rfl, rfl⟩
  | forward pairs third => exact ⟨forward name content, rfl, rfl, rfl⟩
  | packed fills unwraps third => exact ⟨packed name content, rfl, rfl, rfl⟩

theorem Carries.unique {payload : Value} {third : Option Value} {shape other : Shape}
    {pairs others : List Value} (carries : Carries payload third shape pairs)
    (also : Carries payload third other others) : shape = other ∧ pairs = others := by
  cases carries with
  | message times data =>
      cases also with
      | message alsoTimes data => exact ⟨rfl, rfl⟩
      | forward pairs third => cases times
      | packed fills unwraps third => cases times
  | forward pairs third =>
      cases also with
      | message times data => cases times
      | forward pairs third => exact ⟨rfl, rfl⟩
  | packed fills unwraps third =>
      cases also with
      | message times data => cases times
      | packed alsoFills alsoUnwraps third =>
          have same := (blobValues_eq_ok.mpr fills).symm.trans (blobValues_eq_ok.mpr alsoFills)
          cases same
          exact ⟨rfl, (blobPairs_eq.mpr unwraps).symm.trans (blobPairs_eq.mpr alsoUnwraps)⟩

theorem ofValue_of_carries {tag payload : Value} {third : Option Value} {shape : Shape}
    {pairs : List Value} (carries : Carries payload third shape pairs) :
    ofValue (.array (tag :: payload :: third.toList)) = .ok frame ↔
      frame.shape = shape ∧ IsTag tag frame.tag ∧ List.Forall₂ IsPair pairs frame.content := by
  rw [ofValue_eq_ok]
  constructor
  · rintro ⟨_, _, other, others, same, names, alsoCarries, each⟩
    obtain ⟨rfl, rest⟩ := List.cons.inj (Value.array.inj same)
    obtain ⟨rfl, thirds⟩ := List.cons.inj rest
    have thirds := congrArg List.head? thirds
    rw [Option.head?_toList, Option.head?_toList] at thirds
    subst thirds
    obtain ⟨rfl, rfl⟩ := alsoCarries.unique carries
    exact ⟨rfl, names, each⟩
  · rintro ⟨rfl, names, each⟩
    exact ⟨tag, payload, third, pairs, rfl, names, carries, each⟩

theorem exists_ofValue {value : Value} :
    (∃ frame, ofValue value = .ok frame) ↔ Recognisable value := by
  constructor
  · rintro ⟨frame, found⟩
    obtain ⟨tag, payload, third, pairs, made, names, carries, each⟩ := ofValue_eq_ok.mp found
    exact ⟨tag, payload, third, _, pairs, made, ⟨_, names⟩, carries, exists_forall₂.mp ⟨_, each⟩⟩
  · rintro ⟨tag, payload, third, shape, pairs, rfl, ⟨name, names⟩, carries, each⟩
    obtain ⟨content, each⟩ := exists_forall₂.mpr each
    obtain ⟨frame, rfl, rfl, rfl⟩ := exists_frame carries each name
    exact ⟨frame, (ofValue_of_carries carries).mpr ⟨rfl, names, each⟩⟩

theorem forall₂_entries {pairs : List Value} (each : List.Forall₂ IsPair pairs frame.content) :
    List.Forall₂ (fun pair entry => entry.tag = frame.tag ∧
      IsPair pair ⟨entry.timestamp, entry.data⟩) pairs frame.entries := by
  rw [entries, List.forall₂_map_right_iff]
  exact each.imp fun pair stamped found => ⟨rfl, found⟩

/-- A value gives a frame just when it is recognisable, and any other is malformed, for a reason
that lies in the value. The frame has the shape that the payload picks and the tag of the value, and
its entries are the pairs one by one. One thing among them that is no pair spoils the whole
frame. -/
theorem recognition_is_exact (value : Value) :
    ((∃ frame, ofValue value = .ok frame) ↔ Recognisable value) ∧
    (¬ Recognisable value → ∃ cause, ofValue value = .error cause ∧ ¬ cause.Outside) ∧
    ∀ tag payload third shape pairs, value = .array (tag :: payload :: Option.toList third) →
      Carries payload third shape pairs →
      (∀ frame, ofValue value = .ok frame → frame.shape = shape ∧ IsTag tag frame.tag ∧
        frame.entries.length = frame.size ∧
        List.Forall₂ (fun pair entry => entry.tag = frame.tag ∧
          IsPair pair ⟨entry.timestamp, entry.data⟩) pairs frame.entries) ∧
      ((∃ pair ∈ pairs, ∀ stamped, ¬ IsPair pair stamped) →
        ∃ cause, ofValue value = .error cause) := by
  refine ⟨exists_ofValue, ?_, ?_⟩
  · intro other
    cases found : ofValue value with
    | error cause => exact ⟨cause, rfl, fun outside => ofValue_ne_error outside value found⟩
    | ok frame => exact absurd (exists_ofValue.mp ⟨frame, found⟩) other
  · rintro tag payload third shape pairs rfl carries
    constructor
    · intro frame found
      obtain ⟨shaped, names, each⟩ := (ofValue_of_carries carries).mp found
      exact ⟨shaped, names, length_entries frame, forall₂_entries each⟩
    · rintro ⟨pair, member, spoilt⟩
      cases found : ofValue (.array (tag :: payload :: third.toList)) with
      | error cause => exact ⟨cause, rfl⟩
      | ok frame =>
          obtain ⟨-, -, each⟩ := (ofValue_of_carries carries).mp found
          obtain ⟨stamped, paired⟩ := exists_forall₂.mp ⟨_, each⟩ pair member
          exact absurd paired (spoilt stamped)

end LogIntake.Frame
