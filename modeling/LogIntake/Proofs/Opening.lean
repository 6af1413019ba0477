import LogIntake.Proofs.Settling

/-!
# Bytes that break off before a marker

Where the walk of a scanner stands, some values are behind it and some containers around it are not
complete. `Opens` says so of the bytes behind it. A reader comes by at the same place: it runs out
of bytes there, and takes the next byte for a marker, unless it refused what is before
(`follows_readWithin`). So a reserved marker that the scanner meets is met by the decoder too.
-/
set_option autoImplicit false

namespace LogIntake

namespace MessagePack

open Item (AllFit bytesOfItems)

/-! ## Open bytes -/

/-- The bytes before a marker that is due, of as many values as are due where they start: whole
values first, then containers, one inside the other, of which more is to come. -/
inductive Opens : (due : Nat) → Bytes → Prop where
  | here (later : Nat) : Opens (later + 1) []
  | past {later : Nat} {item : Item} {walked : Bytes} (fits : item.Fits)
    (opens : Opens later walked) : Opens (later + 1) (item.bytes ++ walked)
  | inside (later : Nat) {head : Head} {front walked : Bytes}
    (announced : ∀ more, readHead (front ++ more) = .ok (head, more))
    (opens : Opens head.nested walked) : Opens (later + 1) (front ++ walked)

theorem not_opens_zero (walked : Bytes) : ¬ Opens 0 walked := by
  intro opens
  cases opens

theorem Opens.of_le {due more : Nat} {walked : Bytes} (opens : Opens due walked)
    (fewer : due ≤ more) : Opens more walked := by
  induction opens generalizing more with
  | here later =>
      obtain ⟨rest, rfl⟩ := Nat.exists_eq_add_of_le' fewer
      exact .here (rest + later)
  | past fits opens ih =>
      cases more with
      | zero => omega
      | succ more => exact .past fits (ih (by omega))
  | inside later announced opens ih =>
      cases more with
      | zero => omega
      | succ more => exact .inside more announced opens

theorem Opens.split {first later : Nat} {walked : Bytes} (opens : Opens (first + later) walked) :
    Opens first walked ∨ ∃ items rest, AllFit items ∧ items.length = first ∧
      walked = bytesOfItems items ++ rest ∧ Opens later rest := by
  -- By induction on how many values come first: the bytes break off at the first of them, inside
  -- it, or after it.
  induction first generalizing walked with
  | zero =>
      rw [Nat.zero_add] at opens
      exact .inr ⟨[], walked, trivial, rfl, rfl, opens⟩
  | succ first ih =>
      rw [Nat.add_right_comm] at opens
      cases opens with
      | here => exact .inl (.here first)
      | inside _ announced opens => exact .inl (.inside first announced opens)
      | past fits opens =>
          rcases ih opens with inside | ⟨items, rest, fit, count, rfl, after⟩
          · exact .inl (.past fits inside)
          · refine .inr ⟨_ :: items, rest, ⟨fits, fit⟩, ?_, ?_, after⟩
            · rw [List.length_cons, count]
            · rw [bytesOfItems, List.append_assoc]

/-! ## Readers at a marker that is due -/

theorem Item.form_parts (item : Item) :
    (∃ content, item.form = .extension content) ∨
      item.form.bytes = bytesOfItems item.nested ∧
        item.nested.length = item.form.head.nested := by
  cases item <;>
    simp [form, Form.bytes, Form.head, Head.nested, nested, value?, bytesOfItems,
      bytesOfFields_eq, length_keysAndValues]

/-- Whether the reader, whatever it gives, takes `count` whole items for it, and comes by at the
end of open bytes: it runs out there, and a reserved marker there is refused as such. It may refuse
what is before; but not for a reserved marker, as there is none. -/
structure Reader.Follows {α : Type} (reader : Reader α) (count : Nat) : Prop where
  whole : ∀ items : List Item, AllFit items → items.length = count →
    (∃ value, ∀ rest, reader (bytesOfItems items ++ rest) = .ok (value, rest)) ∨
    ∃ cause, cause ≠ .reservedMarker ∧
      ∀ rest, reader (bytesOfItems items ++ rest) = .error (.refused cause)
  opens : ∀ walked : Bytes, Opens count walked →
    (reader walked = .error .short ∧
      ∀ rest, reader (walked ++ 0xc1 :: rest) = .error (.refused .reservedMarker)) ∨
    ∃ cause, cause ≠ .reservedMarker ∧ ∀ rest, reader (walked ++ rest) = .error (.refused cause)

namespace Reader.Follows

theorem pure {α : Type} (value : α) : Follows (Pure.pure value) 0 where
  whole _ _ count := by
    obtain rfl := List.length_eq_zero_iff.mp count
    exact .inl ⟨value, fun _ => rfl⟩
  opens _ before := absurd before (not_opens_zero _)

theorem refuse {α : Type} {cause : Refusal} (other : cause ≠ .reservedMarker) (count : Nat) :
    Follows (Reader.refuse cause : Reader α) count where
  whole _ _ _ := .inr ⟨cause, other, fun _ => rfl⟩
  opens _ _ := .inr ⟨cause, other, fun _ => rfl⟩

theorem bind {α β : Type} {lead : Reader α} {next : α → Reader β} {count more : Nat}
    (first : Follows lead count) (second : ∀ value, Follows (next value) more) :
    Follows (lead >>= next) (count + more) where
  whole items fit length := by
    have all : bytesOfItems items =
        bytesOfItems (items.take count) ++ bytesOfItems (items.drop count) := by
      rw [← Item.bytesOfItems_append, List.take_append_drop]
    have fitting := Item.allFit_iff.mp fit
    have front := first.whole (items.take count)
      (Item.allFit_iff.mpr fun item member => fitting item (List.mem_of_mem_take member))
      (List.length_take_of_le (by omega))
    rcases front with ⟨value, gives⟩ | ⟨cause, other, refuses⟩
    · have back := (second value).whole (items.drop count)
        (Item.allFit_iff.mpr fun item member => fitting item (List.mem_of_mem_drop member))
        (by rw [List.length_drop]; omega)
      have step (rest : Bytes) : (lead >>= next) (bytesOfItems items ++ rest) =
          next value (bytesOfItems (items.drop count) ++ rest) := by
        rw [all, List.append_assoc, bind_of_ok next (gives _)]
      simp only [step]
      exact back
    · refine .inr ⟨cause, other, fun rest => ?_⟩
      rw [all, List.append_assoc, bind_of_error next (refuses _)]
  opens walked before := by
    rcases before.split with inside | ⟨items, later, fit, length, rfl, after⟩
    · rcases first.opens walked inside with ⟨short, reserved⟩ | ⟨cause, other, refuses⟩
      · exact .inl ⟨bind_of_error next short, fun rest => bind_of_error next (reserved rest)⟩
      · exact .inr ⟨cause, other, fun rest => bind_of_error next (refuses rest)⟩
    · rcases first.whole items fit length with ⟨value, gives⟩ | ⟨cause, other, refuses⟩
      · have step (rest : Bytes) : (lead >>= next) (bytesOfItems items ++ later ++ rest) =
            next value (later ++ rest) := by
          rw [List.append_assoc, bind_of_ok next (gives _)]
        have here := step []
        rw [List.append_nil, List.append_nil] at here
        simp only [step, here]
        exact (second value).opens later after
      · refine .inr ⟨cause, other, fun rest => ?_⟩
        rw [List.append_assoc, bind_of_error next (refuses _)]

theorem many {α : Type} {reader : Reader α} {each : Nat} (follows : Follows reader each)
    (count : Nat) : Follows (many reader count) (each * count) := by
  induction count with
  | zero =>
      rw [many_zero]
      exact pure []
  | succ count ih =>
      rw [many_succ, Nat.mul_succ, Nat.add_comm]
      exact bind follows fun value => bind ih fun values => pure (value :: values)

theorem head {α : Type} {next : Head → Reader α}
    (second : ∀ head, Follows (next head) head.nested)
    (refused : ∃ cause, cause ≠ .reservedMarker ∧ next .extension = Reader.refuse cause) :
    Follows (readHead >>= next) 1 where
  whole items fit length := by
    obtain ⟨item, rfl⟩ := List.length_eq_one_iff.mp length
    have fits : item.Fits := fit.1
    have step (rest : Bytes) : (readHead >>= next) (bytesOfItems [item] ++ rest) =
        next item.form.head (item.form.bytes ++ rest) := by
      rw [bytesOfItems, bytesOfItems, List.append_nil, bind_of_ok next (readHead_bytes fits rest)]
    simp only [step]
    rcases Item.form_parts item with ⟨content, extension⟩ | ⟨written, count⟩
    · obtain ⟨cause, other, refused⟩ := refused
      rw [extension, Item.Form.head, refused]
      exact .inr ⟨cause, other, fun _ => rfl⟩
    · rw [written]
      exact (second _).whole item.nested (Item.allFit_nested fits) count
  opens walked before := by
    cases before with
    | here =>
        refine .inl ⟨bind_of_error next rfl, fun rest => ?_⟩
        exact bind_of_error next (readHead_toByte .reserved rest)
    | past fits after => exact absurd after (not_opens_zero _)
    | @inside _ head front walked announced after =>
        have step (rest : Bytes) : (readHead >>= next) (front ++ walked ++ rest) =
            next head (walked ++ rest) := by
          rw [List.append_assoc, bind_of_ok next (announced _)]
        have here := step []
        rw [List.append_nil, List.append_nil] at here
        simp only [step, here]
        exact (second head).opens walked after

end Reader.Follows

theorem key_ne_reservedMarker {head : Head} {deeper : Bool} {cause : Refusal}
    (refused : head.key deeper = .error cause) : cause ≠ .reservedMarker := by
  rintro rfl
  cases head with
  | leaf value => cases value <;> cases deeper <;> simp [Head.key] at refused
  | _ => cases deeper <;> simp [Head.key] at refused

open Reader

theorem follows_readKey (deeper : Bool) : Follows (readKey deeper) 1 := by
  refine Follows.head (fun head => ?_) ?_
  · cases found : head.key deeper with
    | error cause => exact Follows.refuse (key_ne_reservedMarker found) _
    | ok key =>
        cases head with
        | leaf | extension => exact Follows.pure key
        | array | map => cases deeper <;> cases found
  · refine ⟨_, ?_, rfl⟩
    cases deeper <;> simp

theorem follows_readWithin (depth : Nat) : Follows (readWithin depth) 1 := by
  induction depth with
  | zero =>
      refine Follows.head (fun head => ?_) ⟨.tooDeep, by simp, rfl⟩
      cases head with
      | leaf value => exact Follows.pure value
      | _ => exact Follows.refuse (by simp) _
  | succ depth ih =>
      refine Follows.head (fun head => ?_) ⟨.extension, by simp, rfl⟩
      cases head with
      | leaf value => exact Follows.pure value
      | array items =>
          have all := Follows.bind (Follows.many ih items) fun values =>
            Follows.pure (Value.array values)
          rwa [Nat.one_mul] at all
      | map fields =>
          have field := Follows.bind (follows_readKey (depth ≠ 0)) fun key =>
            Follows.bind ih fun value => Follows.pure (key, value)
          exact Follows.bind (Follows.many field fields) fun fields =>
            Follows.pure (Value.map (Record.ofFields fields))
      | extension => exact Follows.refuse (by simp) _

theorem follows_read : Follows read 1 := follows_readWithin depthLimit

/-! ## Walks up to a reserved marker -/

theorem readHead_cons (first : UInt8) (rest : Bytes) :
    readHead (first :: rest) = readFields (Marker.ofByte first) rest :=
  bind_of_ok _ rfl

theorem exists_head_of_extent {first : UInt8} {bytes : Bytes} {layout : Layout} {extent : Extent}
    (shape : (Marker.ofByte first).layout? = some layout)
    (found : layout.extent? bytes = some extent) (holds : extent.nested ≠ 0) :
    ∃ head : Head, head.nested = extent.nested ∧
      ∀ more, readHead (first :: bytes.take extent.size ++ more) = .ok (head, more) := by
  simp only [List.cons_append, readHead_cons]
  generalize Marker.ofByte first = marker at shape
  cases layout with
  | inline count =>
      obtain ⟨-, rfl⟩ := Layout.extent?_inline.mp found
      exact absurd rfl holds
  | blob width extra =>
      obtain ⟨length, -, -, rfl⟩ := Layout.extent?_blob.mp found
      exact absurd rfl holds
  | fixed nested =>
      obtain rfl := Layout.extent?_fixed.mp found
      cases marker with
      | smallArray items =>
          cases shape
          exact ⟨.array items.val, rfl, fun more => rfl⟩
      | smallMap fields =>
          cases shape
          exact ⟨.map fields.val, rfl, fun more => rfl⟩
      | _ => cases shape
  | counted width each =>
      obtain ⟨count, field, rfl⟩ := Layout.extent?_counted.mp found
      obtain ⟨bound, written⟩ := ofNat_of_field? field
      rw [← written]
      cases marker with
      | array =>
          cases shape
          refine ⟨.array count, (Nat.one_mul count).symm, fun more => ?_⟩
          exact bind_of_ok _ (nat_ofNat bound more)
      | map =>
          cases shape
          refine ⟨.map count, rfl, fun more => ?_⟩
          exact bind_of_ok _ (nat_ofNat bound more)
      | _ => cases shape

theorem Opens.step {first : UInt8} {bytes walked : Bytes} {layout : Layout} {extent : Extent}
    {later : Nat} (shape : (Marker.ofByte first).layout? = some layout)
    (found : layout.extent? bytes = some extent) (opens : Opens (extent.nested + later) walked) :
    Opens (later + 1) (first :: bytes.take extent.size ++ walked) := by
  rcases opens.split with inside | ⟨items, rest, fit, count, rfl, after⟩
  · have holds : extent.nested ≠ 0 := by
      intro nothing
      rw [nothing] at inside
      exact not_opens_zero walked inside
    obtain ⟨head, nested, announced⟩ := exists_head_of_extent shape found holds
    rw [← nested] at inside
    exact .inside later announced inside
  · obtain ⟨item, fits, written⟩ := Item.exists_item_of_extent shape found count fit
    rw [Marker.toByte_ofByte] at written
    have whole : first :: bytes.take extent.size ++ (bytesOfItems items ++ rest) =
        item.bytes ++ rest := by
      rw [written, List.cons_append, List.cons_append, List.append_assoc]
    rw [whole]
    exact .past fits after

end MessagePack

namespace Frame

open MessagePack (Marker Layout Opens decode)

/-- What a walk leaves behind it when it meets a reserved marker is open. Where the count of pending
values is at its limit more values are due than it says, which changes nothing. -/
theorem opens_of_walk {scanner after : Scanner} {bytes : Bytes} {position : Nat}
    (run : scanner.walk bytes = (after, .reserved position)) :
    ∃ walked rest, bytes = walked ++ 0xc1 :: rest ∧ position = scanner.offset + walked.length ∧
      Opens scanner.pending walked := by
  fun_induction Scanner.walk scanner bytes with
  | case1 scanner bytes done => cases run
  | case2 scanner due => cases run
  | case3 scanner due first rest shape =>
      cases run
      have marker := MessagePack.layout?_eq_none shape
      have byte : first = 0xc1 := by
        rw [← Marker.toByte_ofByte first, marker]
        rfl
      obtain ⟨later, more⟩ := Nat.exists_eq_succ_of_ne_zero due
      exact ⟨[], rest, by rw [byte]; rfl, rfl, more ▸ .here later⟩
  | case4 scanner due first rest layout shape missing => cases run
  | case5 scanner due first rest layout shape extent found pending ih =>
      obtain ⟨walked, left, split, offset, opens⟩ := ih run
      -- `pending` is the sum of what is due, or less if that is over the limit
      have enough := Layout.size_le_of_extent? found
      obtain ⟨later, more⟩ := Nat.exists_eq_succ_of_ne_zero due
      have fewer : pending ≤ extent.nested + later := by omega
      refine ⟨first :: rest.take extent.size ++ walked, left, ?_, ?_, ?_⟩
      · rw [List.append_assoc, ← split, List.cons_append, List.take_append_drop]
      · rw [offset, List.length_append, List.length_cons, List.length_take_of_le enough]
        dsimp only
        omega
      · rw [more]
        exact Opens.step shape found (opens.of_le fewer)

theorem decode_of_reserved {buffer : Bytes} {position : Nat}
    (met : (Scanner.scan {} buffer).2 = .reserved position) :
    buffer[position]? = some 0xc1 ∧
    ∃ cause, decode (buffer.take (position + 1)) = .error cause ∧
      (decode (buffer.take position) = .ok none ∧ cause = .reservedMarker ∨
        decode (buffer.take position) = .error cause ∧ cause ≠ .reservedMarker) := by
  change (Scanner.walk ⟨0, 1⟩ buffer).2 = _ at met
  obtain ⟨walked, rest, rfl, rfl, opens⟩ := opens_of_walk (Prod.ext rfl met)
  have before : (walked ++ 0xc1 :: rest).take (0 + walked.length) = walked := by
    rw [Nat.zero_add, List.take_left]
  have upTo : (walked ++ 0xc1 :: rest).take (0 + walked.length + 1) = walked ++ [0xc1] := by
    rw [Nat.zero_add, List.take_length_add_append]
    rfl
  rw [before, upTo]
  refine ⟨by simp, ?_⟩
  rcases MessagePack.follows_read.opens walked opens with
    ⟨short, reserved⟩ | ⟨cause, other, refuses⟩
  · exact ⟨.reservedMarker, MessagePack.decode_eq_error.mpr (reserved []),
      .inl ⟨MessagePack.decode_eq_none.mpr short, rfl⟩⟩
  · have here := refuses []
    rw [List.append_nil] at here
    exact ⟨cause, MessagePack.decode_eq_error.mpr (refuses [0xc1]),
      .inr ⟨MessagePack.decode_eq_error.mpr here, other⟩⟩

theorem parseItem_ne_reservedMarker (bytes : Bytes) (position : Nat) :
    parseItem bytes ≠ .faulty (.malformed (.reservedMarker position)) := by
  have outside : (Malformed.reservedMarker position).Outside := trivial
  unfold parseItem
  split
  · simp
  · simp
  · next value consumed run =>
    have sound := ofValue_ne_error outside value
    split
    · next cause failed =>
      rintro ⟨⟩
      exact sound failed
    · simp

/-- A reserved marker that the scanner meets is reported by the decoder, from the bytes up to it:
either the decoder gets to it and refuses it, or it has refused the bytes before it, for their
depth, an extension or a key. So parsing answers that the bytes are undecodable, and never by itself
that it met a reserved marker. -/
theorem reserved_marker_is_reported (buffer : Bytes) :
    (∀ position, (Scanner.scan {} buffer).2 = .reserved position →
      buffer[position]? = some 0xc1 ∧
      ∃ cause, decode (buffer.take (position + 1)) = .error cause ∧
        (decode (buffer.take position) = .ok none ∧ cause = .reservedMarker ∨
          decode (buffer.take position) = .error cause ∧
            (cause = .tooDeep ∨ cause = .extension ∨ ∃ found, cause = .key found)) ∧
        ∀ scanner : Scanner, scanner.Resumes buffer →
          scanner.parse buffer = ({}, .faulty (.undecodable cause))) ∧
    ∀ (scanner : Scanner) (position : Nat), scanner.Resumes buffer →
      (scanner.parse buffer).2 ≠ .faulty (.malformed (.reservedMarker position)) := by
  constructor
  · intro position met
    obtain ⟨byte, cause, refused, earlier⟩ := decode_of_reserved met
    refine ⟨byte, cause, refused, ?_, ?_⟩
    · rcases earlier with here | ⟨before, other⟩
      · exact .inl here
      · refine .inr ⟨before, ?_⟩
        cases cause with
        | reservedMarker => exact absurd rfl other
        | tooDeep => exact .inl rfl
        | extension => exact .inr (.inl rfl)
        | key found => exact .inr (.inr ⟨found, rfl⟩)
    · intro scanner resumes
      have run : Scanner.scan {} buffer = ((Scanner.scan {} buffer).1, .reserved position) :=
        Prod.ext rfl met
      rw [resumes.parse, Scanner.parse, run]
      dsimp only
      rw [reservedFault, refused]
  · intro scanner position resumes
    rw [resumes.parse, Scanner.parse]
    rcases run : Scanner.scan {} buffer with ⟨after, met⟩
    cases met with
    | incomplete => simp
    | complete stop => exact parseItem_ne_reservedMarker _ position
    | reserved other =>
        obtain ⟨-, cause, refused, -⟩ := decode_of_reserved (congrArg Prod.snd run)
        dsimp only
        rw [reservedFault, refused]
        simp

theorem reserved_marker_in_record_is_reported :
    (Scanner.scan {} [0x93, 0xa1, 0x74, 0x05, 0x82, 0xa1, 0x6b, 0xc1, 0x00]).2 = .reserved 7 ∧
    parse [0x93, 0xa1, 0x74, 0x05, 0x82, 0xa1, 0x6b, 0xc1, 0x00] =
      .faulty (.undecodable .reservedMarker) := by
  have met : (Scanner.scan {} [0x93, 0xa1, 0x74, 0x05, 0x82, 0xa1, 0x6b, 0xc1, 0x00]).2 =
      .reserved 7 := by decide +kernel
  have refused : decode [0x93, 0xa1, 0x74, 0x05, 0x82, 0xa1, 0x6b, 0xc1] =
      .error .reservedMarker := by rfl
  obtain ⟨-, cause, reported, -, parsed⟩ := (reserved_marker_is_reported _).1 7 met
  have same : cause = .reservedMarker := Except.error.inj (reported.symm.trans refused)
  refine ⟨met, ?_⟩
  rw [parse, parsed {} (Scanner.resumes_fresh _), same]

end Frame

end LogIntake
