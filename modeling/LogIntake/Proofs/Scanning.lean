import LogIntake.Frame.Stream
import LogIntake.Proofs.Parts

/-!
# The walk over items

The flat walk of a scanner and the nesting of items. The values that are still due form a list of
items to come: walking over written items shortens that list (`walk_items`), and a walk that
completes has met exactly such a list (`items_of_walk`). The count of pending values stays below its
limit on the way, since each value that is due has a byte to come (`scan_item_of_length_le`), and
also since no container holds many items directly (`scan_item_of_depth_le`). A walk that ran out of
bytes goes on from where it stopped (`walk_append_of_incomplete`), and one that was decided stays so
(`walk_append_of_decided`).
-/
set_option autoImplicit false

namespace LogIntake.Frame.Scanner

open MessagePack (Item Marker Layout Extent)
open MessagePack.Item (bytesOfItems AllFit)

def past (scanner : Scanner) (extent : Extent) : Scanner :=
  ⟨scanner.offset + 1 + extent.size,
    min (scanner.pending - 1 + extent.nested) pendingLimit⟩

theorem walk_done {scanner : Scanner} (done : scanner.pending = 0) (bytes : Bytes) :
    scanner.walk bytes = (scanner, .complete scanner.offset) := by
  rw [walk.eq_def, if_pos done]

theorem walk_step {scanner : Scanner} {first : UInt8} {rest : Bytes} {layout : Layout}
    {extent : Extent} (due : scanner.pending ≠ 0)
    (shape : (Marker.ofByte first).layout? = some layout)
    (found : layout.extent? rest = some extent) :
    scanner.walk (first :: rest) = (scanner.past extent).walk (rest.drop extent.size) := by
  rw [walk.eq_def, if_neg due]
  simp only [shape, found, past]

/-! ## More bytes -/

/-- A walk that ran out of bytes stands before an item of which it has not all, and goes on there
once more bytes are known. -/
theorem walk_append_of_incomplete {scanner after : Scanner} {bytes : Bytes}
    (run : scanner.walk bytes = (after, .incomplete)) :
    ∃ walked left : Bytes, bytes = walked ++ left ∧
      after.offset = scanner.offset + walked.length ∧
      ∀ more, scanner.walk (bytes ++ more) = after.walk (left ++ more) := by
  fun_induction walk scanner bytes with
  | case1 scanner bytes done => cases run
  | case2 scanner due =>
      cases run
      exact ⟨[], [], rfl, rfl, fun more => rfl⟩
  | case3 scanner due first rest shape => cases run
  | case4 scanner due first rest layout shape missing =>
      cases run
      exact ⟨[], first :: rest, rfl, rfl, fun more => rfl⟩
  | case5 scanner due first rest layout shape extent found pending ih =>
      obtain ⟨walked, left, split, offset, resume⟩ := ih run
      have enough := Layout.size_le_of_extent? found
      refine ⟨first :: (rest.take extent.size ++ walked), left, ?_, ?_, ?_⟩
      · rw [List.cons_append, List.append_assoc, ← split, List.take_append_drop]
      · rw [offset, List.length_cons, List.length_append, List.length_take_of_le enough]
        dsimp only
        omega
      · intro more
        rw [List.cons_append, walk_step due shape (Layout.extent?_append found more),
          List.drop_append_of_le_length enough]
        exact resume more

theorem walk_append_of_decided {scanner after : Scanner} {bytes : Bytes} {met : Scan}
    (run : scanner.walk bytes = (after, met)) (decided : met ≠ .incomplete) (more : Bytes) :
    scanner.walk (bytes ++ more) = (after, met) := by
  fun_induction walk scanner bytes with
  | case1 scanner bytes done =>
      rw [walk_done done]
      exact run
  | case2 scanner due =>
      cases run
      exact absurd rfl decided
  | case3 scanner due first rest shape =>
      rw [List.cons_append, walk.eq_def, if_neg due]
      simpa only [shape] using run
  | case4 scanner due first rest layout shape missing =>
      cases run
      exact absurd rfl decided
  | case5 scanner due first rest layout shape extent found pending ih =>
      rw [List.cons_append, walk_step due shape (Layout.extent?_append found more),
        List.drop_append_of_le_length (Layout.size_le_of_extent? found)]
      exact ih run

theorem reserved_lt_of_walk {scanner after : Scanner} {bytes : Bytes} {position : Nat}
    (run : scanner.walk bytes = (after, .reserved position)) :
    position < scanner.offset + bytes.length := by
  fun_induction walk scanner bytes with
  | case1 scanner bytes done => cases run
  | case2 scanner due => cases run
  | case3 scanner due first rest shape =>
      cases run
      rw [List.length_cons]
      omega
  | case4 scanner due first rest layout shape missing => cases run
  | case5 scanner due first rest layout shape extent found pending ih =>
      have bound := ih run
      have enough := Layout.size_le_of_extent? found
      rw [List.length_drop] at bound
      dsimp only at bound
      rw [List.length_cons]
      omega

theorem complete_le_of_walk {scanner after : Scanner} {bytes : Bytes} {stop : Nat}
    (run : scanner.walk bytes = (after, .complete stop)) :
    stop ≤ scanner.offset + bytes.length := by
  fun_induction walk scanner bytes with
  | case1 scanner bytes done =>
      cases run
      exact Nat.le_add_right _ _
  | case2 scanner due => cases run
  | case3 scanner due first rest shape => cases run
  | case4 scanner due first rest layout shape missing => cases run
  | case5 scanner due first rest layout shape extent found pending ih =>
      have bound := ih run
      have enough := Layout.size_le_of_extent? found
      rw [List.length_drop] at bound
      dsimp only at bound
      rw [List.length_cons]
      omega

/-! ## Written items -/

theorem walk_item_bytes {item : Item} (fits : item.Fits) {scanner : Scanner}
    (due : scanner.pending ≠ 0) (rest : Bytes) :
    scanner.walk (item.bytes ++ rest) =
      (scanner.past ⟨item.ownBytes.length, item.nested.length⟩).walk
        (bytesOfItems item.nested ++ rest) := by
  obtain ⟨layout, shape, found⟩ := Item.extent?_of_fits fits
  rw [Item.bytes_eq_parts, List.cons_append, List.append_assoc,
    walk_step due (by rw [Marker.ofByte_toByte]; exact shape) (found _), List.drop_left]

/-- Written items are walked over one by one, as long as the count of pending values has room for
what becomes due on the way. A weight that bounds the length of a list, and counts an item no less
than the items that replace it, bounds that. -/
theorem walk_items {weight : List Item → Nat} (least : ∀ items, items.length ≤ weight items)
    (inside : ∀ item later, item.Fits →
      later.length + weight item.nested ≤ weight (item :: later))
    (after : ∀ item later, weight later ≤ weight (item :: later))
    {items : List Item} (fit : AllFit items) (offset due : Nat) (rest : Bytes)
    (room : due + weight items ≤ pendingLimit) :
    walk ⟨offset, due + items.length⟩ (bytesOfItems items ++ rest) =
      walk ⟨offset + (bytesOfItems items).length, due⟩ rest := by
  match items with
  | [] => rfl
  | item :: later =>
      have parts : item.bytes.length =
          1 + item.ownBytes.length + (bytesOfItems item.nested).length := by
        rw [Item.bytes_eq_parts, List.length_cons, List.length_append]
        omega
      have first := inside item later fit.1
      have second := after item later
      have enough := least item.nested
      have pending : due + (item :: later).length - 1 + item.nested.length =
          due + later.length + item.nested.length := by
        rw [List.length_cons]
        omega
      have shorter : (bytesOfItems item.nested).length < (bytesOfItems (item :: later)).length := by
        rw [bytesOfItems, List.length_append]
        omega
      have laterShorter : (bytesOfItems later).length < (bytesOfItems (item :: later)).length := by
        rw [bytesOfItems, List.length_append]
        omega
      rw [bytesOfItems, List.append_assoc, walk_item_bytes fit.1 (by simp), past]
      dsimp only
      -- the nested items are walked with the later ones still due
      rw [pending, Nat.min_eq_left (by omega),
        walk_items least inside after (Item.allFit_nested fit.1) _ _ _ (by omega),
        walk_items least inside after fit.2 _ _ _ (by omega), List.length_append, parts]
      congr 2
      omega
termination_by (bytesOfItems items).length

theorem scan_single {item : Item} (rest : Bytes)
    (walked : walk ⟨0, 0 + [item].length⟩ (bytesOfItems [item] ++ rest) =
      walk ⟨0 + (bytesOfItems [item]).length, 0⟩ rest) :
    (scan {} (item.bytes ++ rest)).2 = .complete item.bytes.length := by
  rw [bytesOfItems, bytesOfItems, List.append_nil] at walked
  change (walk ⟨0, 0 + [item].length⟩ (item.bytes ++ rest)).2 = _
  rw [walked, walk_done rfl]
  dsimp only
  rw [Nat.zero_add]

theorem scan_item_of_length_le {item : Item} (fits : item.Fits)
    (small : item.bytes.length ≤ pendingLimit) (rest : Bytes) :
    (scan {} (item.bytes ++ rest)).2 = .complete item.bytes.length := by
  have fit : AllFit [item] := ⟨fits, trivial⟩
  refine scan_single rest (walk_items Item.length_le_bytesOfItems ?_ ?_ fit 0 0 rest ?_)
  · intro item later fits
    have enough := Item.length_le_bytesOfItems later
    rw [bytesOfItems, List.length_append, Item.bytes_eq_parts, List.length_cons,
      List.length_append]
    omega
  · intro item later
    rw [bytesOfItems, List.length_append]
    exact Nat.le_add_left _ _
  · rw [bytesOfItems, bytesOfItems, List.append_nil]
    omega

theorem scan_item_of_depth_le {item : Item} (fits : item.Fits) (shallow : item.depth ≤ 1023)
    (rest : Bytes) : (scan {} (item.bytes ++ rest)).2 = .complete item.bytes.length := by
  have fit : AllFit [item] := ⟨fits, trivial⟩
  let weight (items : List Item) := items.length + 0x200000000 * Item.itemsDepth items
  have least : ∀ items, items.length ≤ weight items := fun items => Nat.le_add_right _ _
  refine scan_single rest (walk_items least ?_ ?_ fit 0 0 rest ?_)
  · intro item later fits
    have bound := Item.length_nested_add_depth_le fits
    have deep : item.depth ≤ Item.itemsDepth (item :: later) := Nat.le_max_left _ _
    simp only [weight, List.length_cons]
    omega
  · intro item later
    have deep : Item.itemsDepth later ≤ Item.itemsDepth (item :: later) := Nat.le_max_right _ _
    simp only [weight, List.length_cons]
    omega
  · have limit : 0x200000000 * 1024 ≤ pendingLimit := by decide
    simp only [weight, Item.itemsDepth, List.length_singleton]
    omega

/-- A walk that completes has met as many written items as were pending. The limit on pending
values does no harm: a count that reached it asks for more values than there are bytes. -/
theorem items_of_walk {scanner after : Scanner} {bytes : Bytes} {stop : Nat}
    (run : scanner.walk bytes = (after, .complete stop)) (small : bytes.length < pendingLimit) :
    ∃ (items : List Item) (rest : Bytes), AllFit items ∧ items.length = scanner.pending ∧
      bytes = bytesOfItems items ++ rest ∧
      stop = scanner.offset + (bytesOfItems items).length := by
  fun_induction walk scanner bytes with
  | case1 scanner bytes done =>
      cases run
      exact ⟨[], bytes, trivial, done.symm, rfl, rfl⟩
  | case2 scanner due => cases run
  | case3 scanner due first rest shape => cases run
  | case4 scanner due first rest layout shape missing => cases run
  | case5 scanner due first rest layout shape extent found pending ih =>
      have enough := Layout.size_le_of_extent? found
      rw [List.length_cons] at small
      obtain ⟨items, tail, fit, count, split, stopped⟩ :=
        ih run (by rw [List.length_drop]; omega)
      have bound : items.length ≤ (rest.drop extent.size).length := by
        rw [split, List.length_append]
        exact Nat.le_trans (Item.length_le_bytesOfItems items) (Nat.le_add_right _ _)
      -- at the limit more items would be due than there are bytes
      have exact : items.length = scanner.pending - 1 + extent.nested := by
        rw [List.length_drop] at bound
        simp only [pending] at count
        omega
      have children : (items.take extent.nested).length = extent.nested :=
        List.length_take_of_le (by omega)
      obtain ⟨item, itemFits, written⟩ :=
        Item.exists_item_of_extent shape found children
          (Item.allFit_iff.mpr fun child member =>
            Item.allFit_iff.mp fit child (List.mem_of_mem_take member))
      rw [Marker.toByte_ofByte] at written
      have all : bytesOfItems (items.take extent.nested) ++
          bytesOfItems (items.drop extent.nested) = bytesOfItems items := by
        rw [← Item.bytesOfItems_append, List.take_append_drop]
      refine ⟨item :: items.drop extent.nested, tail, ⟨itemFits, ?_⟩, ?_, ?_, ?_⟩
      · exact Item.allFit_iff.mpr fun child member =>
          Item.allFit_iff.mp fit child (List.mem_of_mem_drop member)
      · rw [List.length_cons, List.length_drop]
        omega
      · rw [bytesOfItems, written]
        simp only [List.cons_append, List.append_assoc]
        rw [← List.append_assoc (bytesOfItems _) (bytesOfItems _), all, ← split,
          List.take_append_drop]
      · rw [stopped, bytesOfItems, written, ← all]
        simp only [List.cons_append, List.append_assoc, List.length_cons, List.length_append,
          List.length_take_of_le enough]
        omega

end LogIntake.Frame.Scanner
