import LogIntake.Frame.Scanner
import LogIntake.MessagePack.Item
import LogIntake.Proofs.Numbers

/-!
# Items in three parts

Every item is a marker, bytes of its own, and the items nested in it, written one after the other
(`bytes_eq_parts`). The layout of the marker tells the three parts of a fitting item apart
(`extent?_of_fits`), and any three parts that go together under a layout are those of one item
(`exists_consists_of_extent`).
-/
set_option autoImplicit false

namespace LogIntake.MessagePack

/-! ## Layouts -/

theorem field?_eq_some {width number : Nat} {bytes : Bytes}
    (found : field? width bytes = some number) :
    width ≤ bytes.length ∧ Bytes.toNat (bytes.take width) = number := by
  simp only [field?, Bytes.drop?_eq] at found
  split at found
  · next enough => exact ⟨enough, Option.some.inj found⟩
  · cases found

theorem field?_of_le {width : Nat} {bytes : Bytes} (enough : width ≤ bytes.length) :
    field? width bytes = some (Bytes.toNat (bytes.take width)) := by
  simp [field?, Bytes.drop?_eq, enough]

theorem field?_ofNat {width number : Nat} (fits : number < Bytes.room width) (rest : Bytes) :
    field? width (Bytes.ofNat width number ++ rest) = some number := by
  rw [field?_of_le (by simp), List.take_left' (Bytes.length_ofNat width number),
    Bytes.toNat_ofNat_of_lt fits]

theorem ofNat_of_field? {width number : Nat} {bytes : Bytes}
    (found : field? width bytes = some number) :
    number < Bytes.room width ∧ Bytes.ofNat width number = bytes.take width := by
  obtain ⟨enough, rfl⟩ := field?_eq_some found
  have length : (bytes.take width).length = width := List.length_take_of_le enough
  have bound := Bytes.toNat_lt_room (bytes.take width)
  have written := Bytes.ofNat_toNat (bytes.take width)
  rw [length] at bound written
  exact ⟨bound, written⟩

theorem field?_append {width number : Nat} {bytes : Bytes}
    (found : field? width bytes = some number) (more : Bytes) :
    field? width (bytes ++ more) = some number := by
  obtain ⟨enough, rfl⟩ := field?_eq_some found
  rw [field?_of_le (by simp; omega), List.take_append_of_le_length enough]

theorem layout?_eq_none {marker : Marker} (shape : marker.layout? = none) :
    marker = .reserved := by
  cases marker with
  | reserved => rfl
  | _ => cases shape

namespace Layout

theorem extent?_inline {count : Nat} {bytes : Bytes} {extent : Extent} :
    (inline count).extent? bytes = some extent ↔ count ≤ bytes.length ∧ extent = ⟨count, 0⟩ := by
  simp only [extent?, Bytes.drop?_eq]
  split
  · next enough => simp [enough, eq_comm]
  · next short => simp [short]

theorem extent?_blob {width : LengthWidth} {extra : Nat} {bytes : Bytes} {extent : Extent} :
    (blob width extra).extent? bytes = some extent ↔
      ∃ length, field? width.bytes bytes = some length ∧
        width.bytes + extra + length ≤ bytes.length ∧
        extent = ⟨width.bytes + extra + length, 0⟩ := by
  change ((field? width.bytes bytes).bind fun length =>
    (Bytes.drop? (width.bytes + extra + length) bytes).map fun _ =>
      (⟨width.bytes + extra + length, 0⟩ : Extent)) = some extent ↔ _
  rw [Option.bind_eq_some_iff]
  refine exists_congr fun length => and_congr_right fun _ => ?_
  rw [Bytes.drop?_eq]
  split
  · next enough => simp [enough, eq_comm]
  · next short => simp [short]

theorem extent?_fixed {nested : Nat} {bytes : Bytes} {extent : Extent} :
    (fixed nested).extent? bytes = some extent ↔ extent = ⟨0, nested⟩ := by
  simp [extent?, eq_comm]

theorem extent?_counted {width : CountWidth} {each : Nat} {bytes : Bytes} {extent : Extent} :
    (counted width each).extent? bytes = some extent ↔
      ∃ count, field? width.bytes bytes = some count ∧ extent = ⟨width.bytes, each * count⟩ := by
  change ((field? width.bytes bytes).bind fun count =>
    some (⟨width.bytes, each * count⟩ : Extent)) = some extent ↔ _
  rw [Option.bind_eq_some_iff]
  refine exists_congr fun count => and_congr_right fun _ => ?_
  rw [Option.some.injEq, eq_comm]

theorem size_le_of_extent? {layout : Layout} {bytes : Bytes} {extent : Extent}
    (found : layout.extent? bytes = some extent) : extent.size ≤ bytes.length := by
  cases layout with
  | inline count =>
      obtain ⟨enough, rfl⟩ := extent?_inline.mp found
      exact enough
  | blob width extra =>
      obtain ⟨length, -, enough, rfl⟩ := extent?_blob.mp found
      exact enough
  | fixed nested =>
      obtain rfl := extent?_fixed.mp found
      exact Nat.zero_le _
  | counted width each =>
      obtain ⟨count, field, rfl⟩ := extent?_counted.mp found
      exact (field?_eq_some field).1

theorem extent?_append {layout : Layout} {bytes : Bytes} {extent : Extent}
    (found : layout.extent? bytes = some extent) (more : Bytes) :
    layout.extent? (bytes ++ more) = some extent := by
  cases layout with
  | inline count =>
      obtain ⟨enough, rfl⟩ := extent?_inline.mp found
      exact extent?_inline.mpr ⟨by rw [List.length_append]; omega, rfl⟩
  | blob width extra =>
      obtain ⟨length, field, enough, rfl⟩ := extent?_blob.mp found
      exact extent?_blob.mpr
        ⟨length, field?_append field more, by rw [List.length_append]; omega, rfl⟩
  | fixed nested => exact found
  | counted width each =>
      obtain ⟨count, field, rfl⟩ := extent?_counted.mp found
      exact extent?_counted.mpr ⟨count, field?_append field more, rfl⟩

end Layout

/-! ## The parts of an item -/

namespace Item

/-- The bytes between the marker and the items nested in the item. -/
def ownBytes : Item → Bytes
  | .uint width number => Bytes.ofNat width.bytes number
  | .int width number => Bytes.ofInt width.bytes number
  | .float32 bits => Bytes.ofNat 4 bits.toNat
  | .float64 bits => Bytes.ofNat 8 bits.toNat
  | .smallStr content => content
  | .str width content | .bin width content => Bytes.ofNat width.bytes content.length ++ content
  | .fixedExt _ type content => type :: content
  | .ext width type content => Bytes.ofNat width.bytes content.length ++ type :: content
  | .array width items => Bytes.ofNat width.bytes items.length
  | .map width fields => Bytes.ofNat width.bytes fields.length
  | _ => []

def keysAndValues : List (Item × Item) → List Item
  | [] => []
  | (key, value) :: rest => key :: value :: keysAndValues rest

def nested : Item → List Item
  | .smallArray items | .array _ items => items
  | .smallMap fields | .map _ fields => keysAndValues fields
  | _ => []

theorem length_keysAndValues (fields : List (Item × Item)) :
    (keysAndValues fields).length = 2 * fields.length := by
  induction fields with
  | nil => rfl
  | cons field rest ih =>
      rw [keysAndValues, List.length_cons, List.length_cons, List.length_cons, ih]
      omega

theorem exists_keysAndValues {count : Nat} {items : List Item} (even : items.length = 2 * count) :
    ∃ fields, keysAndValues fields = items ∧ fields.length = count := by
  induction count generalizing items with
  | zero => exact ⟨[], (List.length_eq_zero_iff.mp even).symm, rfl⟩
  | succ count ih =>
      match items, even with
      | key :: value :: rest, even =>
          simp only [List.length_cons] at even
          obtain ⟨fields, rfl, length⟩ := ih (show rest.length = 2 * count by omega)
          exact ⟨(key, value) :: fields, rfl, by rw [List.length_cons, length]⟩

theorem bytesOfFields_eq (fields : List (Item × Item)) :
    bytesOfFields fields = bytesOfItems (keysAndValues fields) := by
  induction fields with
  | nil => rfl
  | cons field rest ih =>
      simp only [bytesOfFields, keysAndValues, bytesOfItems, ih, List.append_assoc]

theorem bytesOfItems_append (items more : List Item) :
    bytesOfItems (items ++ more) = bytesOfItems items ++ bytesOfItems more := by
  induction items with
  | nil => rfl
  | cons item rest ih => rw [List.cons_append, bytesOfItems, bytesOfItems, ih, List.append_assoc]

theorem allFit_iff {items : List Item} : AllFit items ↔ ∀ item ∈ items, item.Fits := by
  induction items with
  | nil => simp [AllFit]
  | cons item rest ih => simp [AllFit, ih]

theorem allFieldsFit_iff {fields : List (Item × Item)} :
    AllFieldsFit fields ↔ AllFit (keysAndValues fields) := by
  induction fields with
  | nil => exact Iff.rfl
  | cons field rest ih => simp only [AllFieldsFit, keysAndValues, AllFit, ih]

theorem bytes_eq_parts (item : Item) :
    item.bytes = item.marker.toByte :: (item.ownBytes ++ bytesOfItems item.nested) := by
  cases item <;>
    simp [bytes, marker, ownBytes, nested, bytesOfItems, bytesOfFields_eq]

theorem length_bytes_pos (item : Item) : 0 < item.bytes.length := by
  rw [bytes_eq_parts]
  exact Nat.succ_pos _

theorem length_le_bytesOfItems (items : List Item) :
    items.length ≤ (bytesOfItems items).length := by
  induction items with
  | nil => exact Nat.zero_le _
  | cons item rest ih =>
      have first := length_bytes_pos item
      rw [bytesOfItems, List.length_cons, List.length_append]
      omega

theorem allFit_nested {item : Item} (fits : item.Fits) : AllFit item.nested := by
  cases item with
  | smallArray items => exact fits.2
  | array width items => exact fits.2
  | smallMap fields => exact allFieldsFit_iff.mp fits.2
  | map width fields => exact allFieldsFit_iff.mp fits.2
  | _ => trivial

theorem itemsDepth_keysAndValues (fields : List (Item × Item)) :
    itemsDepth (keysAndValues fields) = fieldsDepth fields := by
  induction fields with
  | nil => rfl
  | cons field rest ih =>
      rw [keysAndValues, itemsDepth, itemsDepth, ih, fieldsDepth, Nat.max_assoc]

theorem length_nested_add_depth_le {item : Item} (fits : item.Fits) :
    item.nested.length + 0x200000000 * itemsDepth item.nested ≤ 0x200000000 * item.depth := by
  have wide : ∀ width : CountWidth, Bytes.room width.bytes ≤ 0x100000000 := by
    intro width
    cases width <;> decide
  cases item with
  | smallArray items =>
      have short : items.length < 16 := fits.1
      simp only [nested, depth]
      omega
  | array width items =>
      have short := Nat.lt_of_lt_of_le fits.1 (wide width)
      simp only [nested, depth]
      omega
  | smallMap fields =>
      have short : fields.length < 16 := fits.1
      simp only [nested, depth, length_keysAndValues, itemsDepth_keysAndValues]
      omega
  | map width fields =>
      have short := Nat.lt_of_lt_of_le fits.1 (wide width)
      simp only [nested, depth, length_keysAndValues, itemsDepth_keysAndValues]
      omega
  | _ => exact Nat.le_refl 0

theorem extent?_of_fits {item : Item} (fits : item.Fits) :
    ∃ layout, item.marker.layout? = some layout ∧ ∀ rest,
      layout.extent? (item.ownBytes ++ rest) = some ⟨item.ownBytes.length, item.nested.length⟩ := by
  cases item with
  | nil | bool _ | smallUInt _ | smallInt _ =>
      exact ⟨.inline 0, rfl, fun rest => Layout.extent?_inline.mpr ⟨Nat.zero_le _, rfl⟩⟩
  | uint width number =>
      refine ⟨.inline width.bytes, rfl, fun rest => Layout.extent?_inline.mpr ?_⟩
      simp [ownBytes, nested]
  | int width number =>
      refine ⟨.inline width.bytes, rfl, fun rest => Layout.extent?_inline.mpr ?_⟩
      simp [ownBytes, nested, Bytes.ofInt]
  | float32 bits =>
      refine ⟨.inline 4, rfl, fun rest => Layout.extent?_inline.mpr ?_⟩
      simp [ownBytes, nested]
  | float64 bits =>
      refine ⟨.inline 8, rfl, fun rest => Layout.extent?_inline.mpr ?_⟩
      simp [ownBytes, nested]
  | smallStr content =>
      have length : content.length % 32 = content.length := Nat.mod_eq_of_lt fits
      refine ⟨.inline (content.length % 32), rfl, fun rest => Layout.extent?_inline.mpr ?_⟩
      simp [ownBytes, nested, length]
  | str width content | bin width content =>
      refine ⟨.blob width 0, rfl, fun rest => Layout.extent?_blob.mpr ⟨content.length, ?_⟩⟩
      rw [ownBytes, List.append_assoc]
      refine ⟨field?_ofNat fits _, ?_⟩
      simp [nested]
  | fixedExt size type content =>
      have length : content.length = size.bytes := fits
      refine ⟨.inline (1 + size.bytes), rfl, fun rest => Layout.extent?_inline.mpr ?_⟩
      simp [ownBytes, nested, length, Nat.add_comm]
  | ext width type content =>
      refine ⟨.blob width 1, rfl, fun rest => Layout.extent?_blob.mpr ⟨content.length, ?_⟩⟩
      rw [ownBytes, List.append_assoc]
      refine ⟨field?_ofNat fits _, ?_⟩
      simp [nested]
      omega
  | smallArray items =>
      have length : items.length % 16 = items.length := Nat.mod_eq_of_lt fits.1
      refine ⟨.fixed (items.length % 16), rfl, fun rest => Layout.extent?_fixed.mpr ?_⟩
      simp [ownBytes, nested, length]
  | array width items =>
      refine ⟨.counted width 1, rfl, fun rest => Layout.extent?_counted.mpr ?_⟩
      refine ⟨items.length, field?_ofNat fits.1 rest, ?_⟩
      simp [ownBytes, nested]
  | smallMap fields =>
      have length : fields.length % 16 = fields.length := Nat.mod_eq_of_lt fits.1
      refine ⟨.fixed (2 * (fields.length % 16)), rfl, fun rest => Layout.extent?_fixed.mpr ?_⟩
      simp [ownBytes, nested, length, length_keysAndValues]
  | map width fields =>
      refine ⟨.counted width 2, rfl, fun rest => Layout.extent?_counted.mpr ?_⟩
      refine ⟨fields.length, field?_ofNat fits.1 rest, ?_⟩
      simp [ownBytes, nested, length_keysAndValues]

/-! ## Items from their parts -/

private theorem split_blob {width extra length : Nat} {bytes : Bytes}
    (found : field? width bytes = some length) (enough : width + extra + length ≤ bytes.length) :
    ∃ skipped content : Bytes, skipped.length = extra ∧ content.length = length ∧
      length < Bytes.room width ∧
      bytes.take (width + extra + length) = Bytes.ofNat width length ++ (skipped ++ content) := by
  obtain ⟨bound, written⟩ := ofNat_of_field? found
  refine ⟨(bytes.drop width).take extra, (bytes.drop (width + extra)).take length, ?_, ?_,
    bound, ?_⟩
  · rw [List.length_take, List.length_drop]
    omega
  · rw [List.length_take, List.length_drop]
    omega
  · rw [written, List.take_add, List.take_add, List.append_assoc]

/-- Whether an item has room for what it holds, and these three parts. -/
structure Consists (item : Item) (marker : Marker) (own : Bytes) (children : List Item) : Prop where
  fits : item.Fits
  marker : item.marker = marker
  own : item.ownBytes = own
  nested : item.nested = children

theorem Consists.bytes {item : Item} {marker : Marker} {own : Bytes} {children : List Item}
    (consists : Consists item marker own children) :
    item.bytes = marker.toByte :: (own ++ bytesOfItems children) := by
  rw [bytes_eq_parts, consists.marker, consists.own, consists.nested]

private theorem exists_item_of_inline {marker : Marker} {size : Nat} {own : Bytes}
    (shape : marker.layout? = some (.inline size)) (length : own.length = size) :
    ∃ item, Consists item marker own [] := by
  cases marker with
  | smallUInt number =>
      cases shape
      exact ⟨.smallUInt number, trivial, rfl, (List.length_eq_zero_iff.mp length).symm, rfl⟩
  | smallInt index =>
      cases shape
      exact ⟨.smallInt index, trivial, rfl, (List.length_eq_zero_iff.mp length).symm, rfl⟩
  | nil =>
      cases shape
      exact ⟨.nil, trivial, rfl, (List.length_eq_zero_iff.mp length).symm, rfl⟩
  | bool truth =>
      cases shape
      exact ⟨.bool truth, trivial, rfl, (List.length_eq_zero_iff.mp length).symm, rfl⟩
  | smallStr count =>
      cases shape
      refine ⟨.smallStr own, by rw [Fits, length]; exact count.isLt, ?_, rfl, rfl⟩
      rw [Item.marker, length, Fin.ofNat_val_eq_self]
  | float32 =>
      cases shape
      have written := Bytes.ofNat_toNat own
      have bound : Bytes.toNat own < 4294967296 := by
        have bound := Bytes.toNat_lt_room own
        rwa [length] at bound
      refine ⟨.float32 (UInt32.ofNat (Bytes.toNat own)), trivial, rfl, ?_, rfl⟩
      rw [ownBytes, UInt32.toNat_ofNat_of_lt' bound, ← length, written]
  | float64 =>
      cases shape
      have written := Bytes.ofNat_toNat own
      have bound : Bytes.toNat own < 18446744073709551616 := by
        have bound := Bytes.toNat_lt_room own
        rwa [length] at bound
      refine ⟨.float64 (UInt64.ofNat (Bytes.toNat own)), trivial, rfl, ?_, rfl⟩
      rw [ownBytes, UInt64.toNat_ofNat_of_lt' bound, ← length, written]
  | uint width =>
      cases shape
      refine ⟨.uint width (Bytes.toNat own), ?_, rfl, ?_, rfl⟩
      · rw [Fits, ← length]
        exact Bytes.toNat_lt_room own
      · rw [ownBytes, ← length, Bytes.ofNat_toNat]
  | int width =>
      cases shape
      refine ⟨.int width (Bytes.toInt own), ?_, rfl, ?_, rfl⟩
      · rw [Fits, ← length]
        exact Bytes.toInt_bounds own
      · rw [ownBytes, ← length, Bytes.ofInt_toInt]
  | fixedExt size =>
      cases shape
      obtain ⟨type, content, rfl⟩ := List.exists_cons_of_length_pos (by omega : 0 < own.length)
      refine ⟨.fixedExt size type content, ?_, rfl, rfl, rfl⟩
      rw [Fits]
      rw [List.length_cons] at length
      omega
  | _ => cases shape

private theorem exists_item_of_blob {marker : Marker} {width : LengthWidth} {extra : Nat}
    {skipped content : Bytes} (shape : marker.layout? = some (.blob width extra))
    (length : skipped.length = extra) (fits : content.length < Bytes.room width.bytes) :
    ∃ item, Consists item marker
      (Bytes.ofNat width.bytes content.length ++ (skipped ++ content)) [] := by
  cases marker with
  | bin =>
      cases shape
      obtain rfl := List.length_eq_zero_iff.mp length
      exact ⟨.bin width content, fits, rfl, rfl, rfl⟩
  | str =>
      cases shape
      obtain rfl := List.length_eq_zero_iff.mp length
      exact ⟨.str width content, fits, rfl, rfl, rfl⟩
  | ext =>
      cases shape
      obtain ⟨type, rfl⟩ := List.length_eq_one_iff.mp length
      exact ⟨.ext width type content, fits, rfl, rfl, rfl⟩
  | _ => cases shape

private theorem exists_item_of_fixed {marker : Marker} {count : Nat} {children : List Item}
    (shape : marker.layout? = some (.fixed count)) (length : children.length = count)
    (fit : AllFit children) : ∃ item, Consists item marker [] children := by
  cases marker with
  | smallArray items =>
      cases shape
      refine ⟨.smallArray children, ⟨by rw [length]; exact items.isLt, fit⟩, ?_, rfl, rfl⟩
      rw [Item.marker, length, Fin.ofNat_val_eq_self]
  | smallMap number =>
      cases shape
      obtain ⟨fields, rfl, size⟩ := exists_keysAndValues length
      refine ⟨.smallMap fields, ⟨by rw [size]; exact number.isLt, allFieldsFit_iff.mpr fit⟩, ?_,
        rfl, rfl⟩
      rw [Item.marker, size, Fin.ofNat_val_eq_self]
  | _ => cases shape

private theorem exists_item_of_counted {marker : Marker} {width : CountWidth} {each count : Nat}
    {children : List Item} (shape : marker.layout? = some (.counted width each))
    (bound : count < Bytes.room width.bytes) (length : children.length = each * count)
    (fit : AllFit children) :
    ∃ item, Consists item marker (Bytes.ofNat width.bytes count) children := by
  cases marker with
  | array =>
      cases shape
      rw [Nat.one_mul] at length
      subst length
      exact ⟨.array width children, ⟨bound, fit⟩, rfl, rfl, rfl⟩
  | map =>
      cases shape
      obtain ⟨fields, rfl, rfl⟩ := exists_keysAndValues length
      exact ⟨.map width fields, ⟨bound, allFieldsFit_iff.mpr fit⟩, rfl, rfl, rfl⟩
  | _ => cases shape

theorem exists_consists_of_extent {marker : Marker} {layout : Layout} {bytes : Bytes}
    {extent : Extent} {children : List Item} (shape : marker.layout? = some layout)
    (found : layout.extent? bytes = some extent) (count : children.length = extent.nested)
    (fit : AllFit children) :
    ∃ item, Consists item marker (bytes.take extent.size) children := by
  cases layout with
  | inline size =>
      obtain ⟨enough, rfl⟩ := Layout.extent?_inline.mp found
      obtain rfl := List.length_eq_zero_iff.mp count
      exact exists_item_of_inline shape (List.length_take_of_le enough)
  | blob width extra =>
      obtain ⟨length, field, enough, rfl⟩ := Layout.extent?_blob.mp found
      obtain rfl := List.length_eq_zero_iff.mp count
      obtain ⟨skipped, content, skippedLength, rfl, fits, split⟩ := split_blob field enough
      rw [split]
      exact exists_item_of_blob shape skippedLength fits
  | fixed number =>
      obtain rfl := Layout.extent?_fixed.mp found
      exact exists_item_of_fixed shape count fit
  | counted width each =>
      obtain ⟨number, field, rfl⟩ := Layout.extent?_counted.mp found
      obtain ⟨bound, written⟩ := ofNat_of_field? field
      rw [← written]
      exact exists_item_of_counted shape bound count fit

theorem exists_item_of_extent {marker : Marker} {layout : Layout} {bytes : Bytes} {extent : Extent}
    {children : List Item} (shape : marker.layout? = some layout)
    (found : layout.extent? bytes = some extent) (count : children.length = extent.nested)
    (fit : AllFit children) : ∃ item : Item, item.Fits ∧
      item.bytes = marker.toByte :: (bytes.take extent.size ++ bytesOfItems children) := by
  obtain ⟨item, consists⟩ := exists_consists_of_extent shape found count fit
  exact ⟨item, consists.fits, consists.bytes⟩

end Item

end LogIntake.MessagePack
