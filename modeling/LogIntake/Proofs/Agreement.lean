import LogIntake.Proofs.Grammar
import LogIntake.Proofs.Scanning

/-!
# The scanner and the decoder

Both find the end of the item that a buffer starts with. The scanner stops at the end of a fitting
item (`scan_eq_complete_iff`), the decoder at the end of one that stands for a value, so the bytes
that the scanner has found complete are never too short for the decoder.
-/
set_option autoImplicit false

namespace LogIntake

namespace MessagePack

theorem decode_bytes {item : Item} (fits : item.Fits) :
    decode item.bytes =
      (item.valueWithin 1023).map fun value => some (value, item.bytes.length) := by
  have run := readWithin_bytes 1023 fits []
  rw [List.append_nil] at run
  cases given : item.valueWithin 1023 with
  | error cause =>
      rw [given] at run
      exact decode_eq_error.mpr run
  | ok value =>
      rw [given] at run
      refine decode_eq_some.mpr ⟨Nat.le_refl _, ?_⟩
      rw [List.drop_length]
      exact run

end MessagePack

namespace Frame

open MessagePack (Item)
open MessagePack.Item (bytesOfItems)

/-- A fresh scanner stops at the end of the fitting item that the buffer starts with. -/
theorem scan_eq_complete_iff {buffer : Bytes} {stop : Nat}
    (small : buffer.length < 0x8000000000000000) :
    (Scanner.scan {} buffer).2 = .complete stop ↔
      ∃ item : Item, item.Fits ∧ stop ≤ buffer.length ∧ buffer.take stop = item.bytes := by
  have limit : 0x8000000000000000 < Scanner.pendingLimit := by decide
  constructor
  · intro met
    change (Scanner.walk ⟨0, 1⟩ buffer).2 = _ at met
    have run : Scanner.walk ⟨0, 1⟩ buffer = ((Scanner.walk ⟨0, 1⟩ buffer).1, .complete stop) :=
      Prod.ext rfl met
    obtain ⟨items, rest, fit, count, rfl, rfl⟩ := Scanner.items_of_walk run (by omega)
    obtain ⟨item, rfl⟩ := List.length_eq_one_iff.mp count
    refine ⟨item, fit.1, ?_, ?_⟩
    · rw [Nat.zero_add, List.length_append]
      exact Nat.le_add_right _ _
    · rw [Nat.zero_add, List.take_left, bytesOfItems, bytesOfItems, List.append_nil]
  · rintro ⟨item, fits, enough, written⟩
    have length : item.bytes.length = stop := by
      rw [← written, List.length_take_of_le enough]
    have met := Scanner.scan_item_of_length_le fits (by omega) (buffer.drop stop)
    rwa [← written, List.take_append_drop, written, length] at met

theorem parse_eq (buffer : Bytes) :
    parse buffer =
      match (Scanner.scan {} buffer).2 with
      | .incomplete => .incomplete
      | .reserved position => .faulty (reservedFault (buffer.take (position + 1)) position)
      | .complete stop => parseItem (buffer.take stop) := by
  rw [parse, Scanner.parse]
  rcases Scanner.scan {} buffer with ⟨scanner, met⟩
  cases met <;> rfl

/-! ## Faults of values

No value is faulty for ending too early, or for a reserved marker. -/

/-- Whether a fault is one of the bytes of a frame, which no value has, or given by a caller. -/
def Malformed.Outside : Malformed → Prop
  | .short | .reservedMarker _ | .other _ => True
  | _ => False

section

variable {α β : Type} {cause : Malformed}

theorem bind_ne_error {lead : Except Malformed α} {next : α → Except Malformed β}
    (first : lead ≠ .error cause) (second : ∀ value, next value ≠ .error cause) :
    (lead >>= next) ≠ .error cause := by
  cases lead with
  | error other =>
      intro failed
      exact first (congrArg Except.error (Except.error.inj failed))
  | ok value => exact second value

theorem map_ne_error {lead : Except Malformed α} (f : α → β)
    (first : lead ≠ .error cause) : (f <$> lead) ≠ .error cause := by
  cases lead with
  | error other =>
      intro failed
      exact first (congrArg Except.error (Except.error.inj failed))
  | ok value => simp [Functor.map, Except.map]

theorem mapM_ne_error {f : α → Except Malformed β}
    (each : ∀ thing, f thing ≠ .error cause) (things : List α) :
    things.mapM f ≠ .error cause := by
  induction things with
  | nil => simp [pure, Except.pure]
  | cons thing rest ih =>
      rw [List.mapM_cons]
      refine bind_ne_error (each thing) fun value => ?_
      exact map_ne_error (value :: ·) ih

theorem recordOf_ne_error (outside : cause.Outside) (value : Value) :
    recordOf value ≠ .error cause := by
  intro failed
  cases value with
  | map record => cases failed
  | _ => cases failed; exact outside

theorem stampedOf_ne_error (outside : cause.Outside) (value : Value) :
    stampedOf value ≠ .error cause := by
  unfold stampedOf
  split
  · split
    · rintro ⟨⟩
      exact outside
    · exact map_ne_error _ (recordOf_ne_error outside _)
  · rintro ⟨⟩
    exact outside

theorem blobValues_ne_error (outside : cause.Outside) (blob : Bytes) :
    blobValues blob ≠ .error cause := by
  fun_induction blobValues blob with
  | case1 => simp
  | case2 => rintro ⟨⟩; exact outside
  | case3 => rintro ⟨⟩; exact outside
  | case4 blob present value rest run ih => exact map_ne_error _ ih

theorem ofParts_ne_error (outside : cause.Outside) (tag : String) (payload : Value)
    (third : Option Value) : ofParts tag payload third ≠ .error cause := by
  have pairs (values : List Value) : values.mapM stampedOf ≠ .error cause :=
    mapM_ne_error (stampedOf_ne_error outside) values
  unfold ofParts
  split
  · exact map_ne_error _ (pairs _)
  · refine map_ne_error _ (bind_ne_error (blobValues_ne_error outside _) fun values => ?_)
    exact pairs _
  · split
    · split
      · exact map_ne_error _ (recordOf_ne_error outside _)
      · rintro ⟨⟩
        exact outside
    · rintro ⟨⟩
      exact outside

theorem ofValue_ne_error (outside : cause.Outside) (value : Value) :
    ofValue value ≠ .error cause := by
  have tagged (tag : Value) : tagOf tag ≠ .error cause := by
    rw [tagOf]
    split
    · simp
    · rintro ⟨⟩
      exact outside
  unfold ofValue
  split
  · exact bind_ne_error (tagged _) fun tag => ofParts_ne_error outside tag _ _
  · exact bind_ne_error (tagged _) fun tag => ofParts_ne_error outside tag _ _
  · rintro ⟨⟩
    exact outside
  · rintro ⟨⟩
    exact outside

end

theorem parseItem_bytes {item : Item} (fits : item.Fits) :
    parseItem item.bytes ≠ .faulty (.malformed .short) ∧
      ∀ frame consumed, parseItem item.bytes = .complete frame consumed →
        consumed = item.bytes.length := by
  rw [parseItem, MessagePack.decode_bytes fits]
  cases item.valueWithin 1023 with
  | error cause => exact ⟨by simp [Except.map], by simp [Except.map]⟩
  | ok value =>
      dsimp only [Except.map]
      cases recognised : ofValue value with
      | error cause =>
          refine ⟨fun same => ?_, fun frame consumed => by simp⟩
          cases same
          have outside : Malformed.short.Outside := trivial
          exact ofValue_ne_error outside value recognised
      | ok frame => simp_all

/-- The scanner and the decoder agree on where a value ends: what the decoder reads the scanner
finds complete at the same position, and what the scanner finds complete is there in full for the
decoder, which reads to its end or refuses it. So parsing never finds a frame cut off, and takes up
just what was scanned. -/
theorem scanner_agrees_with_decoder (buffer : Bytes)
    (small : buffer.length < 0x8000000000000000) :
    (∀ value consumed, MessagePack.decode buffer = .ok (some (value, consumed)) →
      (Scanner.scan {} buffer).2 = .complete consumed) ∧
    (∀ stop, (Scanner.scan {} buffer).2 = .complete stop →
      1 ≤ stop ∧ stop ≤ buffer.length ∧ MessagePack.decode (buffer.take stop) ≠ .ok none ∧
      ∀ value consumed, MessagePack.decode (buffer.take stop) = .ok (some (value, consumed)) →
        consumed = stop) ∧
    parse buffer ≠ .faulty (.malformed .short) ∧
    ∀ frame consumed, parse buffer = .complete frame consumed →
      (Scanner.scan {} buffer).2 = .complete consumed := by
  refine ⟨?_, ?_, ?_, ?_⟩
  · intro value consumed run
    obtain ⟨item, fits, shallow, stands, enough, written⟩ :=
      MessagePack.decode_eq_some_iff_item.mp run
    exact (scan_eq_complete_iff small).mpr ⟨item, fits, enough, written⟩
  · intro stop met
    obtain ⟨item, fits, enough, written⟩ := (scan_eq_complete_iff small).mp met
    have length : item.bytes.length = stop := by
      rw [← written, List.length_take_of_le enough]
    have least := Item.length_bytes_pos item
    rw [written, MessagePack.decode_bytes fits, length]
    refine ⟨by omega, enough, ?_, ?_⟩
    · cases item.valueWithin 1023 with
      | _ => simp [Except.map]
    · intro value consumed
      cases item.valueWithin 1023 with
      | error cause => simp [Except.map]
      | ok found => simp_all [Except.map]
  · rw [parse_eq]
    cases met : (Scanner.scan {} buffer).2 with
    | incomplete => simp
    | reserved position =>
        dsimp only [reservedFault]
        split <;> simp
    | complete stop =>
        obtain ⟨item, fits, enough, written⟩ := (scan_eq_complete_iff small).mp met
        dsimp only
        rw [written]
        exact (parseItem_bytes fits).1
  · intro frame consumed
    rw [parse_eq]
    cases met : (Scanner.scan {} buffer).2 with
    | incomplete => simp
    | reserved position => simp
    | complete stop =>
        obtain ⟨item, fits, enough, written⟩ := (scan_eq_complete_iff small).mp met
        dsimp only
        rw [written]
        intro parsed
        rw [(parseItem_bytes fits).2 frame consumed parsed, ← written,
          List.length_take_of_le enough]

theorem scanner_agrees_on_array :
    ([0x91, 0x07, 0xc1] : Bytes).length < 0x8000000000000000 ∧
    MessagePack.decode [0x91, 0x07, 0xc1] = .ok (some (.array [.uint 7], 2)) ∧
    (Scanner.scan {} [0x91, 0x07, 0xc1]).2 = .complete 2 :=
  have read : MessagePack.decode [0x91, 0x07, 0xc1] = .ok (some (.array [.uint 7], 2)) := by rfl
  ⟨by decide, read,
    (scanner_agrees_with_decoder [0x91, 0x07, 0xc1] (by decide)).1 (.array [.uint 7]) 2 read⟩

end Frame

end LogIntake
