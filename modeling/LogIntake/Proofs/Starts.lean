import LogIntake.Proofs.Agreement

/-!
# Starts of items

What a scan meets in a buffer, told by the grammar of items: the end of an item, a byte that marks
nothing where the marker of an item is due (`Item.Awaits`), or the end of the buffer inside an item
(`scan_recognises_items`). The count of pending values has a limit; in a buffer of fewer bytes than
that a walk goes on as if it had none (`walk_step_of_small`), however many values are announced.
-/
set_option autoImplicit false

namespace LogIntake

namespace MessagePack

open Item (AllFit bytesOfItems Consists)

/-! ## Where a marker is due -/

namespace Item

/-- After these bytes of the written item its marker is due, or the marker of an item nested in it
at any depth. -/
inductive Awaits : Item → Bytes → Prop
  | here (item : Item) : Awaits item []
  | inside {item child : Item} {before after : List Item} {walked : Bytes}
    (nested : item.nested = before ++ child :: after) (awaits : Awaits child walked) :
    Awaits item (item.marker.toByte :: (item.ownBytes ++ (bytesOfItems before ++ walked)))

def AwaitsAmong (items : List Item) (walked : Bytes) : Prop :=
  ∃ before item after rest, items = before ++ item :: after ∧
    walked = bytesOfItems before ++ rest ∧ Awaits item rest

theorem awaitsAmong_nil (item : Item) (later : List Item) : AwaitsAmong (item :: later) [] :=
  ⟨[], item, later, [], rfl, rfl, .here item⟩

theorem AwaitsAmong.single {item : Item} {walked : Bytes} (awaits : AwaitsAmong [item] walked) :
    Awaits item walked := by
  obtain ⟨before, other, after, rest, split, rfl, due⟩ := awaits
  obtain ⟨rfl, rfl, rfl⟩ : before = [] ∧ other = item ∧ after = [] := by
    cases before with
    | nil => simpa [eq_comm] using split
    | cons first more => simp at split
  exact due

theorem AwaitsAmong.of_prefix {items more : List Item} {walked : Bytes}
    (awaits : AwaitsAmong items walked) (start : items <+: more) : AwaitsAmong more walked := by
  obtain ⟨before, item, after, rest, rfl, split, due⟩ := awaits
  obtain ⟨others, rfl⟩ := start
  exact ⟨before, item, after ++ others, rest, by simp, split, due⟩

theorem bytesOfItems_cons (item : Item) (later : List Item) :
    bytesOfItems (item :: later) =
      item.marker.toByte :: (item.ownBytes ++ bytesOfItems (item.nested ++ later)) := by
  rw [bytesOfItems, bytes_eq_parts, bytesOfItems_append]
  simp

theorem allFit_append {items more : List Item} :
    AllFit (items ++ more) ↔ AllFit items ∧ AllFit more := by
  simp [allFit_iff, or_imp, forall_and]

theorem allFit_unfold {item : Item} {later : List Item} (fit : AllFit (item :: later)) :
    AllFit (item.nested ++ later) :=
  allFit_append.mpr ⟨allFit_nested fit.1, fit.2⟩

theorem AwaitsAmong.nest {item : Item} {later : List Item} {walked : Bytes}
    (awaits : AwaitsAmong (item.nested ++ later) walked) :
    AwaitsAmong (item :: later) (item.marker.toByte :: (item.ownBytes ++ walked)) := by
  obtain ⟨before, child, after, rest, split, rfl, due⟩ := awaits
  rcases List.append_eq_append_iff.mp split with ⟨middle, rfl, tail⟩ | ⟨middle, nested, tail⟩
  · refine ⟨item :: middle, child, after, rest, by rw [tail, List.cons_append], ?_, due⟩
    rw [bytesOfItems_cons, List.cons_append, List.append_assoc]
  · cases middle with
    | nil =>
        rw [List.append_nil] at nested
        refine ⟨[item], child, after, rest, by rw [← List.nil_append (child :: after), tail]; rfl,
          ?_, due⟩
        rw [bytesOfItems_cons, List.append_nil, nested, List.cons_append, List.append_assoc]
    | cons first others =>
        obtain ⟨rfl, rfl⟩ := List.cons.inj tail
        exact ⟨[], item, later, _, rfl, rfl, .inside nested due⟩

theorem Awaits.length_lt {item : Item} {walked : Bytes} (awaits : Awaits item walked) :
    walked <+: item.bytes ∧ walked.length < item.bytes.length := by
  induction awaits with
  | here item => exact ⟨List.nil_prefix, length_bytes_pos item⟩
  | @inside item child before after walked nested awaits ih =>
      obtain ⟨⟨more, written⟩, shorter⟩ := ih
      have whole : item.bytes = item.marker.toByte :: (item.ownBytes ++
          (bytesOfItems before ++ (child.bytes ++ bytesOfItems after))) := by
        rw [bytes_eq_parts, nested, bytesOfItems_append, bytesOfItems]
      rw [whole]
      refine ⟨⟨more ++ bytesOfItems after, ?_⟩, ?_⟩
      · simp [← written]
      · simp
        omega

end Item

/-! ## Bytes that break off -/

/-- Bytes that are too short for a layout can be completed, and the own bytes of the item then go
beyond them. -/
theorem Layout.exists_extent?_append {layout : Layout} {bytes : Bytes}
    (missing : layout.extent? bytes = none) :
    ∃ more extent, layout.extent? (bytes ++ more) = some extent ∧ bytes.length < extent.size := by
  cases layout with
  | inline count =>
      refine ⟨List.replicate count 0, ⟨count, 0⟩, extent?_inline.mpr ⟨by simp, rfl⟩, ?_⟩
      by_contra enough
      have found := extent?_inline.mpr ⟨Nat.le_of_not_lt enough, rfl⟩
      rw [missing] at found
      cases found
  | blob width extra =>
      -- with zeros at the end the field is there, and then as many bytes as it says
      let field := bytes ++ List.replicate width.bytes 0
      have there : field? width.bytes field = some (Bytes.toNat (field.take width.bytes)) :=
        field?_of_le (by simp [field])
      generalize Bytes.toNat (field.take width.bytes) = length at there
      refine ⟨List.replicate width.bytes 0 ++ List.replicate (width.bytes + extra + length) 0,
        ⟨width.bytes + extra + length, 0⟩, ?_, ?_⟩
      · rw [← List.append_assoc]
        exact extent?_blob.mpr ⟨length, field?_append there _, by simp; omega, rfl⟩
      · by_contra short
        have enough : width.bytes + extra + length ≤ bytes.length := Nat.le_of_not_lt short
        have here : field? width.bytes bytes = some (Bytes.toNat (bytes.take width.bytes)) :=
          field?_of_le (by omega)
        have same := (field?_append here (List.replicate width.bytes 0)).symm.trans there
        rw [Option.some.inj same] at here
        have found := extent?_blob.mpr ⟨length, here, enough, rfl⟩
        rw [missing] at found
        cases found
  | fixed nested => cases missing
  | counted width each =>
      refine ⟨List.replicate width.bytes 0, _, extent?_counted.mpr ⟨_, field?_of_le (by simp), rfl⟩,
        ?_⟩
      by_contra enough
      have found : (counted width each).extent? bytes = some _ :=
        extent?_counted.mpr ⟨_, field?_of_le (Nat.le_of_not_lt enough), rfl⟩
      rw [missing] at found
      cases found

theorem allFit_replicate (count : Nat) : AllFit (List.replicate count .nil) := by
  rw [Item.allFit_iff]
  intro item member
  rw [List.eq_of_mem_replicate member]
  trivial

theorem exists_item_of_missing {first : UInt8} {rest : Bytes} {layout : Layout}
    (shape : (Marker.ofByte first).layout? = some layout) (missing : layout.extent? rest = none) :
    ∃ item : Item, item.Fits ∧ first :: rest <+: item.bytes ∧
      (first :: rest).length < item.bytes.length := by
  obtain ⟨more, extent, found, beyond⟩ := Layout.exists_extent?_append missing
  obtain ⟨item, consists⟩ := Item.exists_consists_of_extent shape found
    (List.length_replicate (n := extent.nested)) (allFit_replicate extent.nested)
  have enough := Layout.size_le_of_extent? found
  have start : rest <+: (rest ++ more).take extent.size := by
    rw [List.take_append, List.take_of_length_le (Nat.le_of_lt beyond)]
    exact List.prefix_append _ _
  have written := consists.bytes
  rw [Marker.toByte_ofByte] at written
  refine ⟨item, consists.fits, ?_, ?_⟩
  · rw [written, List.prefix_cons_inj]
    exact start.trans (List.prefix_append _ _)
  · rw [written, List.length_cons, List.length_cons, List.length_append,
      List.length_take_of_le enough]
    omega

/-- One step of a walk before items of which no more are due than announced: it goes past the
marker and the own bytes of an item, and these are the first of the items nested in it and of those
after it. -/
theorem exists_items_of_step {first : UInt8} {rest : Bytes} {layout : Layout} {extent : Extent}
    {items : List Item} {later : Nat} (shape : (Marker.ofByte first).layout? = some layout)
    (found : layout.extent? rest = some extent) (fit : AllFit items)
    (few : items.length ≤ later + extent.nested) :
    ∃ item others, AllFit (item :: others) ∧ (item :: others).length = later + 1 ∧
      items <+: item.nested ++ others ∧
      item.marker.toByte :: item.ownBytes = first :: rest.take extent.size := by
  let all := items ++ List.replicate (later + extent.nested - items.length) .nil
  have count : all.length = later + extent.nested := by
    rw [List.length_append, List.length_replicate]
    omega
  have fits : ∀ item ∈ all, item.Fits := by
    intro item member
    rcases List.mem_append.mp member with member | member
    · exact Item.allFit_iff.mp fit item member
    · exact Item.allFit_iff.mp (allFit_replicate _) item member
  obtain ⟨item, consists⟩ := Item.exists_consists_of_extent shape found
    (List.length_take_of_le (by omega : extent.nested ≤ all.length))
    (Item.allFit_iff.mpr fun child member => fits child (List.mem_of_mem_take member))
  refine ⟨item, all.drop extent.nested, ⟨consists.fits, Item.allFit_iff.mpr fun child member =>
    fits child (List.mem_of_mem_drop member)⟩, ?_, ?_, ?_⟩
  · rw [List.length_cons, List.length_drop]
    omega
  · rw [consists.nested, List.take_append_drop]
    exact List.prefix_append _ _
  · rw [consists.marker, consists.own, Marker.toByte_ofByte]

end MessagePack

namespace Frame

open MessagePack (Item Marker Layout Extent exists_items_of_step)
open MessagePack.Item (bytesOfItems AllFit AwaitsAmong)

namespace Scanner

/-! ## Items from walks -/

/-- A walk that ran out of bytes stands inside as many items as were pending. -/
theorem starts_of_walk {scanner after : Scanner} {bytes : Bytes}
    (run : scanner.walk bytes = (after, .incomplete)) :
    ∃ items, AllFit items ∧ items.length = scanner.pending ∧
      bytes <+: bytesOfItems items ∧ bytes.length < (bytesOfItems items).length := by
  fun_induction walk scanner bytes with
  | case1 scanner bytes done => cases run
  | case2 scanner due =>
      have enough := Item.length_le_bytesOfItems (List.replicate scanner.pending .nil)
      rw [List.length_replicate] at enough
      refine ⟨List.replicate scanner.pending .nil, MessagePack.allFit_replicate _,
        List.length_replicate, List.nil_prefix, ?_⟩
      rw [List.length_nil]
      omega
  | case3 scanner due first rest shape => cases run
  | case4 scanner due first rest layout shape missing =>
      obtain ⟨item, fits, start, shorter⟩ := MessagePack.exists_item_of_missing shape missing
      refine ⟨item :: List.replicate (scanner.pending - 1) .nil,
        ⟨fits, MessagePack.allFit_replicate _⟩, ?_, ?_, ?_⟩
      · rw [List.length_cons, List.length_replicate]
        omega
      · exact start.trans (List.prefix_append _ _)
      · rw [bytesOfItems, List.length_append]
        omega
  | case5 scanner due first rest layout shape extent found pending ih =>
      obtain ⟨items, fit, count, start, shorter⟩ := ih run
      obtain ⟨later, more⟩ := Nat.exists_eq_succ_of_ne_zero due
      have few : items.length ≤ later + extent.nested := by
        simp only [pending] at count
        omega
      obtain ⟨item, others, allFit, length, announced, own⟩ :=
        exists_items_of_step shape found fit few
      have split : bytesOfItems (item :: others) =
          first :: (rest.take extent.size ++ bytesOfItems (item.nested ++ others)) := by
        rw [Item.bytesOfItems_cons, ← List.cons_append, own, List.cons_append]
      obtain ⟨unknown, all⟩ := announced
      rw [← all, Item.bytesOfItems_append] at split
      refine ⟨item :: others, allFit, length.trans more.symm, ?_, ?_⟩
      · rw [split, List.prefix_cons_inj, ← List.append_assoc]
        nth_rewrite 1 [← List.take_append_drop extent.size rest]
        exact ((List.prefix_append_right_inj _).mpr start).trans (List.prefix_append _ _)
      · have enough := Layout.size_le_of_extent? found
        rw [List.length_drop] at shorter
        rw [split, List.length_cons, List.length_cons, List.length_append, List.length_append,
          List.length_take_of_le enough]
        omega

theorem awaits_of_walk {scanner after : Scanner} {bytes : Bytes} {position : Nat}
    (run : scanner.walk bytes = (after, .reserved position)) :
    ∃ items walked rest, AllFit items ∧ items.length = scanner.pending ∧
      AwaitsAmong items walked ∧ bytes = walked ++ Marker.reserved.toByte :: rest ∧
      position = scanner.offset + walked.length := by
  fun_induction walk scanner bytes with
  | case1 scanner bytes done => cases run
  | case2 scanner due => cases run
  | case3 scanner due first rest shape =>
      cases run
      obtain ⟨later, more⟩ := Nat.exists_eq_succ_of_ne_zero due
      have marker := MessagePack.layout?_eq_none shape
      refine ⟨List.replicate after.pending .nil, [], rest, MessagePack.allFit_replicate _,
        List.length_replicate, ?_, ?_, rfl⟩
      · rw [more, List.replicate_succ]
        exact Item.awaitsAmong_nil _ _
      · rw [← marker, Marker.toByte_ofByte]
        rfl
  | case4 scanner due first rest layout shape missing => cases run
  | case5 scanner due first rest layout shape extent found pending ih =>
      obtain ⟨items, walked, tail, fit, count, awaits, split, stopped⟩ := ih run
      obtain ⟨later, more⟩ := Nat.exists_eq_succ_of_ne_zero due
      have few : items.length ≤ later + extent.nested := by
        simp only [pending] at count
        omega
      obtain ⟨item, others, allFit, length, announced, own⟩ :=
        exists_items_of_step shape found fit few
      have enough := Layout.size_le_of_extent? found
      have inside := (awaits.of_prefix announced).nest
      rw [← List.cons_append, own] at inside
      refine ⟨item :: others, _, tail, allFit, length.trans more.symm, inside, ?_, ?_⟩
      · rw [List.append_assoc, ← split, List.cons_append, List.take_append_drop]
      · rw [stopped, List.length_append, List.length_cons, List.length_take_of_le enough]
        simp only
        omega

/-! ## Walks over items

As long as there are fewer bytes than the limit on pending values, a count at the limit asks for
more values than there are bytes, as any greater count does. -/

variable {offset due : Nat}

theorem walk_congr_of_many {one other : Scanner} {bytes : Bytes}
    (same : one.offset = other.offset)
    (many : one.pending = other.pending ∨
      bytes.length < one.pending ∧ bytes.length < other.pending)
    (small : bytes.length < pendingLimit) : (one.walk bytes).2 = (other.walk bytes).2 := by
  fun_induction walk one bytes generalizing other with
  | case1 one bytes done =>
      have none : other.pending = 0 := by omega
      rw [walk_done none, same]
  | case2 one present =>
      have present' : other.pending ≠ 0 := by simp only [List.length_nil] at many; omega
      rw [walk.eq_def, if_neg present']
  | case3 one present first rest shape =>
      have present' : other.pending ≠ 0 := by omega
      rw [walk.eq_def, if_neg present']
      simp only [shape, same]
  | case4 one present first rest layout shape missing =>
      have present' : other.pending ≠ 0 := by omega
      rw [walk.eq_def, if_neg present']
      simp only [shape, missing]
  | case5 one present first rest layout shape extent found pending =>
      rename_i resume
      have present' : other.pending ≠ 0 := by omega
      rw [walk_step present' shape found]
      rw [List.length_cons] at many small
      refine resume (by rw [past, same]) ?_ (by rw [List.length_drop]; omega)
      simp only [past, List.length_drop, pending]
      omega

theorem walk_step_of_small {first : UInt8} {rest : Bytes} {layout : Layout} {extent : Extent}
    (shape : (Marker.ofByte first).layout? = some layout)
    (found : layout.extent? rest = some extent) (small : rest.length < pendingLimit) :
    (walk ⟨offset, due + 1⟩ (first :: rest)).2 =
      (walk ⟨offset + 1 + extent.size, due + extent.nested⟩ (rest.drop extent.size)).2 := by
  rw [walk_step (Nat.succ_ne_zero due) shape found]
  refine walk_congr_of_many rfl ?_ (by rw [List.length_drop]; omega)
  simp only [past, List.length_drop]
  omega

theorem walk_own_of_small {item : Item} (fits : item.Fits) {rest : Bytes}
    (small : (item.ownBytes ++ rest).length < pendingLimit) :
    (walk ⟨offset, due + 1⟩ (item.marker.toByte :: (item.ownBytes ++ rest))).2 =
      (walk ⟨offset + 1 + item.ownBytes.length, due + item.nested.length⟩ rest).2 := by
  obtain ⟨layout, shape, found⟩ := Item.extent?_of_fits fits
  rw [walk_step_of_small (by rw [Marker.ofByte_toByte]; exact shape) (found rest) small,
    List.drop_left]

theorem walk_items_of_small {items : List Item} (fit : AllFit items) (offset due : Nat)
    {rest : Bytes} (small : (bytesOfItems items ++ rest).length < pendingLimit) :
    (walk ⟨offset, due + items.length⟩ (bytesOfItems items ++ rest)).2 =
      (walk ⟨offset + (bytesOfItems items).length, due⟩ rest).2 := by
  match items with
  | [] => rfl
  | item :: later =>
      have split := Item.bytesOfItems_cons item later
      rw [split, List.cons_append, List.length_cons, List.append_assoc] at small
      have shorter : (bytesOfItems (item.nested ++ later)).length <
          (bytesOfItems (item :: later)).length := by
        rw [split, List.length_cons, List.length_append]
        omega
      have pending : due + later.length + item.nested.length =
          due + (item.nested ++ later).length := by
        rw [List.length_append]
        omega
      rw [split, List.cons_append, List.append_assoc, List.length_cons, ← Nat.add_assoc,
        walk_own_of_small fit.1 (by omega), pending,
        walk_items_of_small (Item.allFit_unfold fit) _ _
          (by rw [List.length_append] at small; omega)]
      simp only [List.length_cons, List.length_append]
      congr 3
      omega
termination_by (bytesOfItems items).length

theorem walk_of_awaits {item : Item} {walked : Bytes} (awaits : item.Awaits walked)
    (fits : item.Fits) (offset due : Nat) (rest : Bytes)
    (small : (walked ++ Marker.reserved.toByte :: rest).length < pendingLimit) :
    (walk ⟨offset, due + 1⟩ (walked ++ Marker.reserved.toByte :: rest)).2 =
      .reserved (offset + walked.length) := by
  induction awaits generalizing offset due with
  | here item =>
      rw [List.nil_append, walk.eq_def, if_neg (Nat.succ_ne_zero due)]
      simp only [Marker.ofByte_toByte]
      rfl
  | @inside item child before after walked nested awaits ih =>
      have inner := Item.allFit_iff.mp (Item.allFit_nested fits)
      rw [nested] at inner
      have beforeFit : AllFit before :=
        Item.allFit_iff.mpr fun other member => inner other (List.mem_append_left _ member)
      have childFits := inner child (List.mem_append_right _ List.mem_cons_self)
      have pending : due + item.nested.length = due + after.length + 1 + before.length := by
        rw [nested, List.length_append, List.length_cons]
        omega
      simp only [List.cons_append, List.append_assoc, List.length_cons, List.length_append]
        at small ⊢
      rw [walk_own_of_small fits (by simp only [List.length_append, List.length_cons]; omega),
        pending,
        walk_items_of_small beforeFit _ _
          (by simp only [List.length_append, List.length_cons]; omega),
        ih childFits _ _ (by simp only [List.length_append, List.length_cons]; omega)]
      congr 1
      omega

theorem walk_of_start {items : List Item} (fit : AllFit items) (offset due : Nat) {bytes : Bytes}
    (start : bytes <+: bytesOfItems items) (shorter : bytes.length < (bytesOfItems items).length)
    (small : bytes.length < pendingLimit) :
    (walk ⟨offset, due + items.length⟩ bytes).2 = .incomplete := by
  match items, bytes with
  | [], _ => exact absurd shorter (Nat.not_lt_zero _)
  | item :: later, [] =>
      rw [walk.eq_def, if_neg (by simp)]
  | item :: later, first :: rest =>
      rw [Item.bytesOfItems_cons, List.cons_prefix_cons] at start
      obtain ⟨rfl, start⟩ := start
      rw [Item.bytesOfItems_cons, List.length_cons, List.length_cons, List.length_append] at shorter
      rw [List.length_cons] at small
      by_cases enough : item.ownBytes.length ≤ rest.length
      · obtain ⟨walked, rfl⟩ : item.ownBytes <+: rest :=
          List.prefix_of_prefix_length_le (List.prefix_append _ _) start enough
        rw [List.prefix_append_right_inj] at start
        rw [List.length_append] at shorter small
        have pending : due + later.length + item.nested.length =
            due + (item.nested ++ later).length := by
          rw [List.length_append]
          omega
        rw [List.length_cons, ← Nat.add_assoc,
          walk_own_of_small fit.1 (by rw [List.length_append]; omega), pending]
        exact walk_of_start (Item.allFit_unfold fit) _ _ start (by omega) (by omega)
      · obtain ⟨layout, shape, found⟩ := Item.extent?_of_fits fit.1
        obtain ⟨more, whole⟩ : rest <+: item.ownBytes :=
          List.prefix_of_prefix_length_le start (List.prefix_append _ _) (Nat.le_of_not_le enough)
        -- an extent of what is there would be the one of all own bytes, which are more
        have missing : layout.extent? rest = none := by
          rw [Option.eq_none_iff_forall_ne_some]
          intro extent there
          have same := Layout.extent?_append there more
          rw [whole, ← List.append_nil item.ownBytes, found [], Option.some.injEq] at same
          have bound := Layout.size_le_of_extent? there
          rw [← same] at bound
          exact enough bound
        rw [walk.eq_def, if_neg (by simp)]
        simp only [Marker.ofByte_toByte, shape, missing]
termination_by bytes.length

end Scanner

/-! ## What a scan meets -/

theorem scan_eq_incomplete_iff {buffer : Bytes} (small : buffer.length < 0x8000000000000000) :
    (Scanner.scan {} buffer).2 = .incomplete ↔
      ∃ item : Item, item.Fits ∧ buffer <+: item.bytes ∧ buffer.length < item.bytes.length := by
  have limit : 0x8000000000000000 < Scanner.pendingLimit := by decide
  constructor
  · intro met
    obtain ⟨items, fit, count, start, shorter⟩ :=
      Scanner.starts_of_walk (Prod.ext rfl met : Scanner.walk ⟨0, 1⟩ buffer = (_, .incomplete))
    obtain ⟨item, rfl⟩ := List.length_eq_one_iff.mp count
    rw [bytesOfItems, bytesOfItems, List.append_nil] at start shorter
    exact ⟨item, fit.1, start, shorter⟩
  · rintro ⟨item, fits, start, shorter⟩
    have single : bytesOfItems [item] = item.bytes := List.append_nil _
    rw [← single] at start shorter
    have fit : AllFit [item] := ⟨fits, trivial⟩
    exact Scanner.walk_of_start fit 0 0 start shorter (Nat.lt_trans small limit)

theorem scan_eq_reserved_iff {buffer : Bytes} {position : Nat}
    (small : buffer.length < 0x8000000000000000) :
    (Scanner.scan {} buffer).2 = .reserved position ↔ buffer[position]? = some 0xc1 ∧
      ∃ item : Item, item.Fits ∧ item.Awaits (buffer.take position) := by
  have limit : 0x8000000000000000 < Scanner.pendingLimit := by decide
  constructor
  · intro met
    obtain ⟨items, walked, rest, fit, count, awaits, rfl, stopped⟩ :=
      Scanner.awaits_of_walk
        (Prod.ext rfl met : Scanner.walk ⟨0, 1⟩ buffer = (_, .reserved position))
    obtain ⟨item, rfl⟩ := List.length_eq_one_iff.mp count
    obtain rfl : position = walked.length := stopped.trans (Nat.zero_add _)
    refine ⟨by simp [Marker.toByte], item, fit.1, ?_⟩
    rw [List.take_left]
    exact awaits.single
  · rintro ⟨met, item, fits, awaits⟩
    obtain ⟨inside, byte⟩ := List.getElem?_eq_some_iff.mp met
    have split : buffer = buffer.take position ++ Marker.reserved.toByte ::
        buffer.drop (position + 1) := by
      conv_lhs =>
        rw [← List.take_append_drop position buffer, List.drop_eq_getElem_cons inside, byte]
      rfl
    have length : (buffer.take position).length = position :=
      List.length_take_of_le (Nat.le_of_lt inside)
    have run := Scanner.walk_of_awaits awaits fits 0 0 (buffer.drop (position + 1))
      (by rw [← split]; exact Nat.lt_trans small limit)
    rw [← split, length, Nat.zero_add (position)] at run
    exact run

/-- A fresh scan finds just the items. It is complete at the end of an item that the buffer starts
with; it stops at a reserved byte where the marker of an item, or of one nested in it, is due; and
it runs out of bytes when these are the start of an item. -/
theorem scan_recognises_items (buffer : Bytes) (small : buffer.length < 0x8000000000000000) :
    (∀ stop, (Scanner.scan {} buffer).2 = .complete stop ↔
      ∃ item : Item, item.Fits ∧ stop ≤ buffer.length ∧ buffer.take stop = item.bytes) ∧
    (∀ position, (Scanner.scan {} buffer).2 = .reserved position ↔
      buffer[position]? = some 0xc1 ∧ ∃ item : Item, item.Fits ∧
        item.Awaits (buffer.take position) ∧ buffer.take position <+: item.bytes ∧
        (buffer.take position).length < item.bytes.length) ∧
    ((Scanner.scan {} buffer).2 = .incomplete ↔
      ∃ item : Item, item.Fits ∧ buffer <+: item.bytes ∧ buffer.length < item.bytes.length) := by
  refine ⟨fun stop => scan_eq_complete_iff small, fun position => ?_, scan_eq_incomplete_iff small⟩
  rw [scan_eq_reserved_iff small]
  refine and_congr_right fun _ => exists_congr fun item => and_congr_right fun _ => ?_
  constructor
  · intro awaits
    exact ⟨awaits, awaits.length_lt⟩
  · rintro ⟨awaits, -⟩
    exact awaits

/-- An array of two values breaks off before a reserved byte, which stands for neither of them. -/
theorem reserved_byte_in_array_is_met :
    (Scanner.scan {} [0x92, 0x01, 0xc1, 0x02]).2 = .reserved 2 := by
  refine ((scan_recognises_items [0x92, 0x01, 0xc1, 0x02] (by decide)).2.1 2).mpr ⟨rfl, ?_⟩
  have holds : Item.nested (.smallArray [.smallUInt 1, .nil]) = [.smallUInt 1] ++ .nil :: [] := rfl
  have fits : Item.Fits (.smallArray [.smallUInt 1, .nil]) := ⟨by decide, trivial, trivial, trivial⟩
  exact ⟨_, fits, .inside holds (.here .nil), ⟨[0xc0], rfl⟩, by decide⟩

end Frame

end LogIntake
