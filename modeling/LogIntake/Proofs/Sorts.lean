import LogIntake.Proofs.Blobs
import LogIntake.Proofs.Finality
import LogIntake.Proofs.Normalizing

/-!
# The sorts of strings

Senders may write a string as text or as binary. Two frames that differ in that alone, in the tag,
in keys or in values, are accepted alike and give the sink the same
(`delivery_ignores_sorts_of_strings`). What is read from an item is, once it is normalized, also
what is read from the item with every string as a binary one (`normalize_valueWithin`); the rest of
the way compares two runs outcome by outcome (`Agree`).
-/
set_option autoImplicit false

namespace LogIntake

/-! ## Outcomes that agree -/

/-- Whether two outcomes are the same failure, or results that are related. -/
def Agree {ε α β : Type} (related : α → β → Prop) : Except ε α → Except ε β → Prop
  | .ok value, .ok other => related value other
  | .error cause, .error other => cause = other
  | _, _ => False

namespace Agree

variable {ε α β : Type}

theorem of_map_eq {f : α → β} {outcome other : Except ε α} (same : f <$> outcome = f <$> other) :
    Agree (fun value other => f value = f other) outcome other := by
  cases outcome with
  | error cause =>
      cases other with
      | error _ => exact Except.error.inj same
      | ok _ => cases same
  | ok value =>
      cases other with
      | error _ => cases same
      | ok _ => exact Except.ok.inj same

theorem cases {related : α → β → Prop} {outcome : Except ε α} {other : Except ε β}
    (agree : Agree related outcome other) :
    (∃ cause, outcome = .error cause ∧ other = .error cause) ∨
      ∃ value result, outcome = .ok value ∧ other = .ok result ∧ related value result := by
  cases outcome with
  | error cause =>
      cases other with
      | error _ => exact .inl ⟨cause, rfl, congrArg Except.error agree.symm⟩
      | ok _ => exact agree.elim
  | ok value =>
      cases other with
      | error _ => exact agree.elim
      | ok result => exact .inr ⟨value, result, rfl, rfl, agree⟩

theorem bind {α' β' : Type} {related : α → α' → Prop} {further : β → β' → Prop}
    {outcome : Except ε α} {other : Except ε α'} {next : α → Except ε β} {then' : α' → Except ε β'}
    (first : Agree related outcome other)
    (second : ∀ value other, related value other → Agree further (next value) (then' other)) :
    Agree further (outcome >>= next) (other >>= then') := by
  rcases first.cases with ⟨cause, rfl, rfl⟩ | ⟨value, result, rfl, rfl, same⟩
  · rfl
  · exact second value result same

end Agree

namespace MessagePack.Item

/-! ## Items up to the sorts of their strings -/

mutual

def asBinary : Item → Item
  | .smallStr content | .str _ content | .bin _ content => .bin .four content
  | .smallArray items => .smallArray (asBinaryItems items)
  | .array width items => .array width (asBinaryItems items)
  | .smallMap fields => .smallMap (asBinaryFields fields)
  | .map width fields => .map width (asBinaryFields fields)
  | item => item

def asBinaryItems : List Item → List Item
  | [] => []
  | item :: rest => asBinary item :: asBinaryItems rest

def asBinaryFields : List (Item × Item) → List (Item × Item)
  | [] => []
  | (key, value) :: rest => (asBinary key, asBinary value) :: asBinaryFields rest

end

theorem asBinaryItems_eq_map (items : List Item) : asBinaryItems items = items.map asBinary := by
  induction items with
  | nil => rfl
  | cons item rest ih => rw [asBinaryItems, ih, List.map_cons]

theorem asBinaryFields_eq_map (fields : List (Item × Item)) :
    asBinaryFields fields = fields.map fun field => (field.1.asBinary, field.2.asBinary) := by
  induction fields with
  | nil => rfl
  | cons field rest ih => rw [asBinaryFields, ih, List.map_cons]

theorem string?_asBinary (item : Item) : item.asBinary.string? = item.string? := by
  cases item <;> rfl

theorem key_asBinary (item : Item) (deeper : Bool) :
    item.asBinary.form.head.key deeper = item.form.head.key deeper := by
  cases item with
  | smallStr content | str width content => exact (key_ofStringBytes content deeper).symm
  | _ => rfl

variable {limit : Nat}

theorem mapM_asBinaryItems
    (each : ∀ item : Item,
      Value.normalize <$> item.asBinary.valueWithin limit =
        Value.normalize <$> item.valueWithin limit)
    (items : List Item) :
    List.map Value.normalize <$> (asBinaryItems items).mapM (valueWithin limit) =
      List.map Value.normalize <$> items.mapM (valueWithin limit) := by
  rw [asBinaryItems_eq_map, map_mapM, map_mapM, List.mapM_map]
  exact congrArg (items.mapM ·) (funext each)

theorem normalize_array (values : Except Refusal (List Value)) :
    Value.normalize <$> Value.array <$> values =
      Value.array <$> List.map Value.normalize <$> values := by
  cases values with
  | error cause => rfl
  | ok values => exact congrArg (Except.ok ∘ Value.array) (Value.normalizeItems_eq_map values)

theorem mapM_asBinaryFields (deeper : Bool)
    (each : ∀ item : Item,
      Value.normalize <$> item.asBinary.valueWithin limit =
        Value.normalize <$> item.valueWithin limit)
    (fields : List (Item × Item)) :
    let field (field : Item × Item) : Except Refusal (String × Value) := do
      return (← field.1.form.head.key deeper, ← valueWithin limit field.2)
    let record (fields : List (String × Value)) := Value.map (Record.ofFields fields)
    Value.normalize <$> record <$> (asBinaryFields fields).mapM field =
      Value.normalize <$> record <$> fields.mapM field := by
  intro field record
  let normal (field : String × Value) := (field.1, field.2.normalize)
  have map : ∀ fields : Except Refusal (List (String × Value)),
      Value.normalize <$> record <$> fields = record <$> List.map normal <$> fields := by
    intro fields
    cases fields with
    | error cause => rfl
    | ok fields =>
        have records := Record.normalize_ofFields fields
        rw [Value.normalizeFields_eq_map] at records
        exact congrArg (Except.ok ∘ Value.map) records
  have one : ∀ item : Item × Item,
      normal <$> field (item.1.asBinary, item.2.asBinary) = normal <$> field item := by
    intro item
    have values := each item.2
    simp only [field, key_asBinary]
    cases item.1.form.head.key deeper with
    | error cause => rfl
    | ok key =>
        have paired : ∀ outcome : Except Refusal Value,
            normal <$> (do return (key, ← outcome)) =
              Prod.mk key <$> Value.normalize <$> outcome := by
          intro outcome
          cases outcome <;> rfl
        have same := congrArg (Prod.mk key <$> ·) values
        exact (paired _).trans (same.trans (paired _).symm)
  rw [map, map, asBinaryFields_eq_map, map_mapM, map_mapM, List.mapM_map]
  exact congrArg (record <$> fields.mapM ·) (funext one)

/-- The sorts of strings do not show in what an item gives, once that is normalized. -/
theorem normalize_valueWithin (limit : Nat) (item : Item) :
    Value.normalize <$> item.asBinary.valueWithin limit =
      Value.normalize <$> item.valueWithin limit := by
  induction limit generalizing item with
  | zero =>
      cases item with
      | smallStr content | str width content =>
          exact congrArg Except.ok (Value.normalize_ofStringBytes content).symm
      | _ => rfl
  | succ limit ih =>
      cases item with
      | smallStr content | str width content =>
          exact congrArg Except.ok (Value.normalize_ofStringBytes content).symm
      | smallArray items | array width items =>
          change
            Value.normalize <$> Value.array <$> (asBinaryItems items).mapM (valueWithin limit) =
              Value.normalize <$> Value.array <$> items.mapM (valueWithin limit)
          rw [normalize_array, normalize_array, mapM_asBinaryItems ih]
      | smallMap fields | map width fields => exact mapM_asBinaryFields (limit ≠ 0) ih fields
      | _ => rfl

theorem valueWithin_agree {first second : Item} (alike : first.asBinary = second.asBinary)
    (limit : Nat) :
    Agree (fun value other => value.normalize = other.normalize) (first.valueWithin limit)
      (second.valueWithin limit) := by
  refine Agree.of_map_eq ?_
  rw [← normalize_valueWithin, alike, normalize_valueWithin]

theorem mapM_valueWithin_agree {items others : List Item}
    (alike : asBinaryItems items = asBinaryItems others) (limit : Nat) :
    Agree (fun values others => values.map Value.normalize = others.map Value.normalize)
      (items.mapM (valueWithin limit)) (others.mapM (valueWithin limit)) := by
  have normal := mapM_asBinaryItems (normalize_valueWithin limit)
  refine Agree.of_map_eq ?_
  rw [← normal, alike, normal]

theorem bytes?_of_valueWithin {item : Item} {value : Value} (plain : item.string? = none)
    (found : item.valueWithin limit = .ok value) : value.bytes? = none := by
  have stands := value?_of_valueWithin found
  cases item with
  | smallStr content | str width content | bin width content => cases plain
  | int width number =>
      cases stands
      split <;> rfl
  | fixedExt size type content | ext width type content => cases stands
  | smallArray items | array width items | smallMap fields | map width fields =>
      obtain ⟨inner, -, rfl⟩ := Option.map_eq_some_iff.mp stands
      rfl
  | _ =>
      cases stands
      rfl

theorem valueWithin_of_binary {item : Item} {content : Bytes}
    (stands : item.value? = some (.binary content)) :
    item.valueWithin limit = .ok (.binary content) := by
  rw [valueWithin_of_value? stands]
  cases item with
  | smallArray items | array width items | smallMap fields | map width fields =>
      obtain ⟨inner, -, other⟩ := Option.map_eq_some_iff.mp stands
      cases other
  | _ => exact within_zero limit _

end MessagePack.Item

namespace Frame

open MessagePack (Item)
open MessagePack.Item (bytesOfItems AllFit asBinaryItems)

/-! ## Blobs -/

theorem normalize_blobValues {items others : List Item} (fit : AllFit items)
    (alsoFit : AllFit others) (alike : asBinaryItems items = asBinaryItems others) (tail : Bytes) :
    List.map Value.normalize <$> blobValues (bytesOfItems items ++ tail) =
      List.map Value.normalize <$> blobValues (bytesOfItems others ++ tail) := by
  have cons : ∀ (value : Value) (values : Except Malformed (List Value)),
      List.map Value.normalize <$> (value :: ·) <$> values =
        (value.normalize :: ·) <$> List.map Value.normalize <$> values := by
    intro value values
    cases values <;> rfl
  induction items generalizing others with
  | nil =>
      cases others with
      | nil => rfl
      | cons other later => cases alike
  | cons item rest ih =>
      cases others with
      | nil => cases alike
      | cons other later =>
          obtain ⟨same, more⟩ := List.cons.inj alike
          have first := Item.valueWithin_agree same 1023
          have tails := ih fit.2 alsoFit.2 more
          rw [bytesOfItems, bytesOfItems, List.append_assoc, List.append_assoc,
            blobValues_bytes fit.1, blobValues_bytes alsoFit.1]
          rcases first.cases with ⟨cause, one, two⟩ | ⟨value, result, one, two, normal⟩
          · rw [one, two]
          · rw [one, two]
            dsimp only
            rw [cons, cons, tails, normal]

/-! ## Frames -/

/-- Whether two payloads are the same but for the sorts of strings inside records, which may stand
in a blob. A payload that is a string itself keeps its sort. -/
inductive PayloadAlike : Item → Item → Prop
  | same (payload : Item) : PayloadAlike payload payload
  | inline {payload other : Item} (plain : payload.string? = none)
      (alike : payload.asBinary = other.asBinary) : PayloadAlike payload other
  /-- Blobs of items, of whatever length they are with the strings in them. What follows the items
  in the blob need not be any item. -/
  | blob {payload other : Item} {items others : List Item} {tail : Bytes}
      (stands : payload.value? = some (.binary (bytesOfItems items ++ tail)))
      (alsoStands : other.value? = some (.binary (bytesOfItems others ++ tail)))
      (fit : AllFit items) (alsoFit : AllFit others)
      (alike : asBinaryItems items = asBinaryItems others) : PayloadAlike payload other

/-- Whether two arrays are the same but for the sorts of strings, that of the payload apart. -/
def FrameAlike (first second : Item) : Prop :=
  ∃ tag payload more otherTag otherPayload others,
    first.form = .array (tag :: payload :: more) ∧
    second.form = .array (otherTag :: otherPayload :: others) ∧
    tag.asBinary = otherTag.asBinary ∧ PayloadAlike payload otherPayload ∧
    asBinaryItems more = asBinaryItems others

def SameFrames (payload other : Value) : Prop :=
  ∀ tag third alsoThird, Option.map Value.normalize third = Option.map Value.normalize alsoThird →
    normalize <$> ofParts tag payload third = normalize <$> ofParts tag other alsoThird

theorem sameFrames_of_normalize {payload other : Value} (plain : payload.bytes? = none)
    (alsoPlain : other.bytes? = none) (same : payload.normalize = other.normalize) :
    SameFrames payload other := by
  intro tag third alsoThird thirds
  rw [← ofParts_normalize tag plain, ← ofParts_normalize tag alsoPlain, same, thirds]

theorem sameFrames_refl (payload : Value) : SameFrames payload payload := by
  cases payload with
  | text content => exact fun tag third alsoThird thirds => rfl
  | binary blob => exact fun tag third alsoThird thirds => rfl
  | _ => exact sameFrames_of_normalize rfl rfl rfl

theorem sameFrames_of_unpack {blob other : Bytes}
    (same : List.map Stamped.normalize <$> unpack blob =
      List.map Stamped.normalize <$> unpack other) :
    SameFrames (.binary blob) (.binary other) := by
  intro tag third alsoThird thirds
  have packed : ∀ outcome : Except Malformed (List Stamped),
      normalize <$> packed tag <$> outcome =
        packed tag <$> List.map Stamped.normalize <$> outcome := by
    intro outcome
    cases outcome <;> rfl
  change normalize <$> Frame.packed tag <$> unpack blob =
    normalize <$> Frame.packed tag <$> unpack other
  rw [packed, packed, same]

theorem payload_agree {payload other : Item} (alike : PayloadAlike payload other) (limit : Nat) :
    Agree SameFrames (payload.valueWithin limit) (other.valueWithin limit) := by
  cases alike with
  | same =>
      cases payload.valueWithin limit with
      | error cause => rfl
      | ok value => exact sameFrames_refl value
  | inline plain alike =>
      have alsoPlain : other.string? = none := by
        rw [← Item.string?_asBinary, ← alike, Item.string?_asBinary, plain]
      have values := Item.valueWithin_agree alike limit
      rcases values.cases with ⟨cause, one, two⟩ | ⟨value, result, one, two, same⟩
      · rw [one, two]
        rfl
      · have first := Item.bytes?_of_valueWithin plain one
        have second := Item.bytes?_of_valueWithin alsoPlain two
        rw [one, two]
        exact sameFrames_of_normalize first second same
  | blob stands alsoStands fit alsoFit alike =>
      rw [Item.valueWithin_of_binary stands, Item.valueWithin_of_binary alsoStands]
      exact sameFrames_of_unpack (unpack_normalize (normalize_blobValues fit alsoFit alike _))

theorem normalize_ofValue {tag otherTag payload otherPayload : Value} {more others : List Value}
    (tags : tag.normalize = otherTag.normalize) (payloads : SameFrames payload otherPayload)
    (rests : more.map Value.normalize = others.map Value.normalize) :
    normalize <$> ofValue (.array (tag :: payload :: more)) =
      normalize <$> ofValue (.array (otherTag :: otherPayload :: others)) := by
  have name : tagOf tag = tagOf otherTag := by
    rw [← tagOf_normalize, tags, tagOf_normalize]
  have length := congrArg List.length rests
  rw [List.length_map, List.length_map] at length
  match more, others with
  | [], [] =>
      simp only [ofValue, name]
      cases tagOf otherTag with
      | error cause => rfl
      | ok name => exact payloads name none none rfl
  | [third], [alsoThird] =>
      simp only [ofValue, name]
      cases tagOf otherTag with
      | error cause => rfl
      | ok name => exact payloads name third alsoThird (congrArg List.head? rests)
  | first :: second :: rest, other :: another :: others =>
      simp only [List.length_cons] at length
      simp only [ofValue, List.length_cons, length]

theorem ofValue_agree {first second : Item} (alike : FrameAlike first second) :
    Agree (fun value other => normalize <$> ofValue value = normalize <$> ofValue other)
      (first.valueWithin 1023) (second.valueWithin 1023) := by
  obtain ⟨tag, payload, more, otherTag, otherPayload, others, form, alsoForm, tags, payloads,
    rests⟩ := alike
  have elements : ∀ {item tag payload : Item} {more : List Item},
      item.form = .array (tag :: payload :: more) →
      item.valueWithin 1023 = (do
        let tag ← tag.valueWithin 1022
        let payload ← payload.valueWithin 1022
        let more ← more.mapM (Item.valueWithin 1022)
        return .array (tag :: payload :: more)) := by
    intro item tag payload more form
    rw [Item.valueWithin, form]
    simp only [List.mapM_cons, map_bind, map_pure, bind_assoc, pure_bind]
  rw [elements form, elements alsoForm]
  refine Agree.bind (Item.valueWithin_agree tags 1022) fun tag otherTag tags => ?_
  refine Agree.bind (payload_agree payloads 1022) fun payload otherPayload payloads => ?_
  refine Agree.bind (Item.mapM_valueWithin_agree rests 1022) fun more others rests => ?_
  exact normalize_ofValue tags payloads rests

/-! ## What the sink gets -/

def Parsed.delivery? : Parsed → Option (List Batch)
  | complete frame _ => some frame.delivery
  | _ => none

theorem delivery?_parse {item : Item} (fits : item.Fits) (rest : Bytes) :
    (parse (item.bytes ++ rest)).delivery? =
      match item.valueWithin 1023 with
      | .ok value => (ofValue value).toOption.map delivery
      | .error _ => none := by
  have read := MessagePack.readWithin_bytes 1023 fits rest
  cases given : item.valueWithin 1023 with
  | ok value =>
      have shallow := (Item.valueWithin_eq_ok.mp given).2
      rw [parse_eq, Scanner.scan_item_of_depth_le fits shallow rest]
      dsimp only
      rw [List.take_left, parseItem, MessagePack.decode_bytes fits, given]
      dsimp only [Except.map]
      cases ofValue value <;> rfl
  | error cause =>
      rw [given] at read
      rw [parse_eq]
      cases (Scanner.scan {} (item.bytes ++ rest)).2 with
      | incomplete => rfl
      | reserved position => rfl
      | complete stop =>
          dsimp only
          rw [parseItem]
          cases decoded : MessagePack.decode ((item.bytes ++ rest).take stop) with
          | error cause => rfl
          | ok found =>
              cases found with
              | none => rfl
              | some found =>
                  -- what is decoded from the start of a buffer is decoded from all of it
                  have whole := MessagePack.decode_append (by rw [decoded]; simp)
                    ((item.bytes ++ rest).drop stop)
                  rw [List.take_append_drop, decoded] at whole
                  have run := (MessagePack.decode_eq_some.mp whole).2
                  rw [MessagePack.read, MessagePack.depthLimit, read] at run
                  cases run

/-- Two frames that differ in the sorts of strings alone, in the tag, in keys or in values, are
accepted alike, inline or in a blob, and the sink gets the same for both: no string there is
binary. -/
theorem delivery_ignores_sorts_of_strings {first second : Item} (alike : FrameAlike first second)
    (fits : first.Fits) (alsoFits : second.Fits) (rest other : Bytes) :
    (parse (first.bytes ++ rest)).delivery? = (parse (second.bytes ++ other)).delivery? ∧
    ∀ batches, (parse (first.bytes ++ rest)).delivery? = some batches →
      ∀ batch ∈ batches, ∀ entry ∈ batch, Value.FieldsTextual entry.data := by
  constructor
  · rw [delivery?_parse fits, delivery?_parse alsoFits]
    rcases (ofValue_agree alike).cases with ⟨cause, one, two⟩ | ⟨value, result, one, two, same⟩
    · rw [one, two]
    · rw [one, two]
      dsimp only
      rcases (Agree.of_map_eq same).cases with ⟨cause, lost, alsoLost⟩ |
        ⟨frame, twin, found, alsoFound, normal⟩
      · rw [lost, alsoLost]
      · rw [found, alsoFound]
        exact congrArg some (delivery_eq_of_normalize normal)
  · intro batches delivered batch member entry inside
    cases parsed : parse (first.bytes ++ rest) with
    | complete frame consumed =>
        rw [parsed] at delivered
        cases delivered
        exact textual_of_mem_delivery member inside
    | incomplete => rw [parsed] at delivered; cases delivered
    | faulty fault => rw [parsed] at delivered; cases delivered

/-- The key and the value of a record, neither of them UTF-8, as text and binary and the other way
round, in blobs of different length. -/
theorem delivery_of_swapped_sorts :
    let pair (key value : Item) : Item := .smallArray [.smallUInt 7, .smallMap [(key, value)]]
    let blob (key value : Item) := bytesOfItems [pair key value] ++ []
    let first : Item := .smallArray
      [.smallStr [0x74], .bin .one (blob (.smallStr [0xff]) (.bin .one [0xfe]))]
    let second : Item := .smallArray
      [.bin .two [0x74], .bin .two (blob (.bin .four [0xff]) (.smallStr [0xfe]))]
    FrameAlike first second ∧ first.Fits ∧ second.Fits ∧
    (parse (second.bytes ++ [])).delivery? = some [[⟨"t", 7, [("\ufffd", .text "\ufffd")]⟩]] := by
  intro pair blob first second
  have pairFits : ∀ key value : Item, key.Fits → value.Fits → AllFit [pair key value] :=
    fun key value fits alsoFits =>
      ⟨⟨show 2 < 16 by decide, trivial, ⟨show 1 < 16 by decide, fits, alsoFits, trivial⟩, trivial⟩,
        trivial⟩
  have fits : first.Fits :=
    ⟨show 2 < 16 by decide, show 1 < 32 by decide, show 8 < 256 by decide, trivial⟩
  have alsoFits : second.Fits :=
    ⟨show 2 < 16 by decide, show 1 < 65536 by decide, show 11 < 65536 by decide, trivial⟩
  have payloads := @PayloadAlike.blob
    (.bin .one (blob (.smallStr [0xff]) (.bin .one [0xfe])))
    (.bin .two (blob (.bin .four [0xff]) (.smallStr [0xfe])))
    [pair (.smallStr [0xff]) (.bin .one [0xfe])] [pair (.bin .four [0xff]) (.smallStr [0xfe])] []
    rfl rfl (pairFits _ _ (show 1 < 32 by decide) (show 1 < 256 by decide))
    (pairFits _ _ (show 1 < 4294967296 by decide) (show 1 < 32 by decide)) rfl
  have alike : FrameAlike first second := ⟨_, _, [], _, _, [], rfl, rfl, rfl, payloads, rfl⟩
  refine ⟨alike, fits, alsoFits, ?_⟩
  rw [← (delivery_ignores_sorts_of_strings alike fits alsoFits [] []).1]
  have written : first.bytes ++ [] =
      [0x92, 0xa1, 0x74, 0xc4, 0x08, 0x92, 0x07, 0x81, 0xa1, 0xff, 0xc4, 0x01, 0xfe] := by decide
  have read : MessagePack.decode
      [0x92, 0xa1, 0x74, 0xc4, 0x08, 0x92, 0x07, 0x81, 0xa1, 0xff, 0xc4, 0x01, 0xfe] = .ok (some
        (.array [.text "t", .binary [0x92, 0x07, 0x81, 0xa1, 0xff, 0xc4, 0x01, 0xfe]], 13)) :=
    set_option maxRecDepth 1024 in rfl
  have held : MessagePack.read [0x92, 0x07, 0x81, 0xa1, 0xff, 0xc4, 0x01, 0xfe] =
      .ok (.array [.uint 7, .map [(Utf8.decodeLossy [0xff], .binary [0xfe])]], []) :=
    set_option maxRecDepth 1024 in rfl
  have taken : ofValue
      (.array [.text "t", .binary [0x92, 0x07, 0x81, 0xa1, 0xff, 0xc4, 0x01, 0xfe]]) =
        .ok (.packed "t" [⟨7, [(Utf8.decodeLossy [0xff], .binary [0xfe])]⟩]) :=
    congrArg (packed "t" <$> ·) (unpack_of_read (by decide) held)
  rw [written, parse_eq_complete.mpr ⟨_, read, taken⟩]
  change some [[Entry.mk "t" 7 [(Utf8.decodeLossy [0xff], .text (Utf8.decodeLossy [0xfe]))]]] = _
  rw [show Utf8.decodeLossy [0xff] = "\ufffd" by decide +kernel,
    show Utf8.decodeLossy [0xfe] = "\ufffd" by decide +kernel]

end Frame

end LogIntake
