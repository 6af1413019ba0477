import LogIntake.Frame.Writer
import LogIntake.Proofs.Blobs
import LogIntake.Proofs.Streams

/-!
# Frames there and back

Written frames are parsed as what was written, one after the other, as long as no record is nested
too deeply for the shape of its frame. A frame with a record that is too deep is faulty.
-/
set_option autoImplicit false

namespace LogIntake

open MessagePack (Item)
open Value (lengthLimit)

/-! ## What is written, and what it is read back as -/

def Record.canonical (record : Record) : Record := Value.canonicalFields record

def Stamped.canonical (content : Stamped) : Stamped :=
  { content with record := content.record.canonical }

namespace Frame

def canonical : Frame → Frame
  | message tag content => message tag content.canonical
  | forward tag content => forward tag (content.map Stamped.canonical)
  | packed tag content => packed tag (content.map Stamped.canonical)

/-- Whether every string and every container in the frame, its blob and its lists of pairs included,
is below the limit in length. -/
def Writable (frame : Frame) : Prop :=
  (Utf8.encode frame.tag).length < lengthLimit ∧
  (∀ pair ∈ frame.content, (Value.map pair.record).Writable) ∧
  match frame with
  | message .. => True
  | forward _ content => content.length < lengthLimit
  | packed _ content => (blobOf content).length < lengthLimit

/-- How deep a record may be that is read back from a frame. -/
def Shape.recordLimit : Shape → Nat
  | .message | .packed => 1022
  | .forward => 1020

theorem Shape.le_recordLimit (shape : Shape) : 1020 ≤ shape.recordLimit := by
  cases shape <;> decide

def Shallow (frame : Frame) : Prop :=
  ∀ pair ∈ frame.content, pair.record.depth ≤ frame.shape.recordLimit

instance (frame : Frame) : Decidable frame.Shallow :=
  inferInstanceAs (Decidable (∀ pair ∈ frame.content, pair.record.depth ≤ frame.shape.recordLimit))

def Shape.depthFault : Shape → Fault
  | .message | .forward => .undecodable .tooDeep
  | .packed => .malformed (.packedRefused .tooDeep)

end Frame

namespace Stamped

theorem writable_toValue {pair : Stamped} (writable : (Value.map pair.record).Writable) :
    pair.toValue.Writable :=
  ⟨show 2 < lengthLimit by decide, trivial, writable, trivial⟩

theorem depth_toValue (pair : Stamped) : pair.toValue.depth = pair.record.depth + 1 := by
  simp [toValue, Value.depth, Value.itemsDepth, Record.depth]

end Stamped

namespace Frame

theorem stampedOf_toValue (pair : Stamped) : stampedOf pair.toValue = .ok pair := rfl

theorem mapM_stampedOf (content : List Stamped) :
    (content.map Stamped.toValue).mapM stampedOf = .ok content := by
  induction content with
  | nil => rfl
  | cons pair rest ih =>
      rw [List.map_cons, List.mapM_cons, stampedOf_toValue, ih]
      rfl

/-! ## Blobs -/

theorem blobOf_eq_flatMap (content : List Stamped) :
    blobOf content = (content.map Stamped.toValue).flatMap MessagePack.write := by
  rw [blobOf, List.flatMap_map]

theorem blobValues_blobOf {content : List Stamped}
    (writable : ∀ pair ∈ content, (Value.map pair.record).Writable) :
    blobValues (blobOf content) =
      if ∀ pair ∈ content, pair.record.depth ≤ 1022 then
        .ok (content.map fun pair => pair.canonical.toValue)
      else .error (.packedRefused .tooDeep) := by
  have pairs : ∀ value ∈ content.map Stamped.toValue, value.Writable :=
    List.forall_mem_map.mpr fun pair member => Stamped.writable_toValue (writable pair member)
  have depths : (∀ value ∈ content.map Stamped.toValue, value.depth ≤ 1023) ↔
      ∀ pair ∈ content, pair.record.depth ≤ 1022 := by
    simp only [List.forall_mem_map, Stamped.depth_toValue, Nat.reduceLeDiff]
  rw [blobOf_eq_flatMap, blobValues_flatMap_write pairs, List.map_map]
  exact ite_congr (propext depths) (fun _ => rfl) fun _ => rfl

theorem blobPairs_toValue (content : List Stamped) :
    blobPairs (content.map Stamped.toValue) = content.map Stamped.toValue := by
  match content with
  | [] => rfl
  | [pair] => rfl
  | first :: second :: rest => rfl

theorem unpack_blobOf {content : List Stamped}
    (writable : ∀ pair ∈ content, (Value.map pair.record).Writable) :
    unpack (blobOf content) =
      if ∀ pair ∈ content, pair.record.depth ≤ 1022 then .ok (content.map Stamped.canonical)
      else .error (.packedRefused .tooDeep) := by
  have values : (content.map fun pair => pair.canonical.toValue) =
      (content.map Stamped.canonical).map Stamped.toValue := by
    rw [List.map_map]
    rfl
  rw [unpack, blobValues_blobOf writable, values]
  split
  · exact (congrArg (List.mapM stampedOf) (blobPairs_toValue _)).trans (mapM_stampedOf _)
  · rfl

theorem writable_pairs {content : List Stamped}
    (writable : ∀ pair ∈ content, (Value.map pair.record).Writable)
    (count : content.length < lengthLimit) :
    (Value.array (content.map Stamped.toValue)).Writable := by
  refine ⟨by rwa [List.length_map], ?_⟩
  rw [Value.allWritable_iff]
  intro value member
  obtain ⟨pair, inside, rfl⟩ := List.mem_map.mp member
  exact Stamped.writable_toValue (writable pair inside)

/-! ## Single frames -/

variable {frame : Frame}

theorem writable_toValue (writable : frame.Writable) : frame.toValue.Writable := by
  obtain ⟨tag, records, whole⟩ := writable
  cases frame with
  | message name content =>
      have record := records content List.mem_cons_self
      exact ⟨show 3 < lengthLimit by decide, tag, trivial, record, trivial⟩
  | forward name content =>
      have pairs := writable_pairs records whole
      exact ⟨show 2 < lengthLimit by decide, tag, pairs, trivial⟩
  | packed name content =>
      exact ⟨show 2 < lengthLimit by decide, tag, whole, trivial⟩

theorem itemsDepth_toValue_le (content : List Stamped) (limit : Nat) :
    Value.itemsDepth (content.map Stamped.toValue) ≤ limit + 1 ↔
      ∀ pair ∈ content, pair.record.depth ≤ limit := by
  rw [Value.itemsDepth_le_iff, List.forall_mem_map]
  simp only [Stamped.depth_toValue, Nat.succ_le_succ_iff]

/-- The records of a packed frame are no part of its own value. -/
theorem depth_toValue_le (frame : Frame) :
    frame.toValue.depth ≤ 1023 ↔ frame.shape = .packed ∨ frame.Shallow := by
  cases frame with
  | message tag content =>
      have depth : (message tag content).toValue.depth = content.record.depth + 1 := by
        simp [toValue, Value.depth, Value.itemsDepth, Record.depth]
      rw [depth]
      simp only [shape, Shallow, Frame.content, Shape.recordLimit, List.mem_singleton, forall_eq,
        reduceCtorEq, false_or]
      omega
  | forward tag content =>
      have depth : (forward tag content).toValue.depth =
          Value.itemsDepth (content.map Stamped.toValue) + 1 + 1 := by
        simp [toValue, Value.depth, Value.itemsDepth]
      have bound := itemsDepth_toValue_le content 1020
      rw [depth]
      simp only [shape, Shallow, Frame.content, Shape.recordLimit, ← bound, reduceCtorEq, false_or]
      omega
  | packed tag content => simp [shape, toValue, Value.depth, Value.itemsDepth]

theorem canonicalItems_toValue (content : List Stamped) :
    Value.canonicalItems (content.map Stamped.toValue) =
      (content.map Stamped.canonical).map Stamped.toValue := by
  rw [Value.canonicalItems_eq_map, List.map_map, List.map_map]
  rfl

theorem tagOf_text (tag : String) : tagOf (.text tag) = .ok tag :=
  congrArg Except.ok (Utf8.decodeLossy_encode tag)

theorem ofValue_canonical (writable : frame.Writable) :
    ofValue frame.toValue.canonical =
      if frame.shape = .packed ∧ ¬ frame.Shallow then .error (.packedRefused .tooDeep)
      else .ok frame.canonical := by
  cases frame with
  | message tag content =>
      have value : (message tag content).toValue.canonical =
          .array [.text tag, .uint content.timestamp, .map content.record.canonical] := rfl
      rw [value, ofValue, tagOf_text]
      rfl
  | forward tag content =>
      have value : (forward tag content).toValue.canonical =
          .array [.text tag, .array (Value.canonicalItems (content.map Stamped.toValue))] := rfl
      have pairs := mapM_stampedOf (content.map Stamped.canonical)
      rw [value, ofValue, tagOf_text, canonicalItems_toValue]
      exact congrArg (forward tag <$> ·) pairs
  | packed tag content =>
      have value : (packed tag content).toValue.canonical =
          .array [.text tag, .binary (blobOf content)] := rfl
      have records := unpack_blobOf writable.2.1
      rw [value, ofValue, tagOf_text]
      change packed tag <$> unpack (blobOf content) = _
      change unpack (blobOf content) = _ at records
      rw [records]
      by_cases shallow : ∀ pair ∈ content, pair.record.depth ≤ 1022
      · have fine : ¬ ((packed tag content).shape = .packed ∧ ¬ (packed tag content).Shallow) :=
          fun deep => deep.2 shallow
        rw [if_neg fine]
        exact congrArg (packed tag <$> ·) (if_pos shallow)
      · have deep : (packed tag content).shape = .packed ∧ ¬ (packed tag content).Shallow :=
          ⟨rfl, shallow⟩
        rw [if_pos deep]
        exact congrArg (packed tag <$> ·) (if_neg shallow)

theorem parseItem_write (writable : frame.Writable) :
    parseItem frame.write =
      if frame.Shallow then .complete frame.canonical frame.write.length
      else .faulty frame.shape.depthFault := by
  have recognised := ofValue_canonical writable
  have depth := depth_toValue_le frame
  have decoded := MessagePack.decode_write (writable_toValue writable) []
  rw [List.append_nil, ← write] at decoded
  rw [parseItem, decoded]
  by_cases shallow : frame.Shallow
  · rw [if_neg fun deep => deep.2 shallow] at recognised
    rw [if_pos (depth.mpr (Or.inr shallow)), if_pos shallow]
    dsimp only
    rw [recognised]
  · rw [if_neg shallow]
    by_cases blob : frame.shape = .packed
    · rw [if_pos ⟨blob, shallow⟩] at recognised
      rw [if_pos (depth.mpr (Or.inl blob)), blob]
      dsimp only
      rw [recognised]
      rfl
    · rw [if_neg fun within => (depth.mp within).elim blob shallow]
      cases frame with
      | message => rfl
      | forward => rfl
      | packed => exact absurd rfl blob

/-- A written frame is found complete, whatever follows it: it is no deeper than what is read, or
not longer than a buffer. -/
theorem scan_write (writable : frame.Writable) (rest : Bytes)
    (bounded : frame.Shallow ∨ frame.shape = .packed ∨ frame.write.length < 0x8000000000000000) :
    (Scanner.scan {} (frame.write ++ rest)).2 = .complete frame.write.length := by
  have value := writable_toValue writable
  have fits := Item.fits_ofValue value
  have limit : 0x8000000000000000 ≤ Scanner.pendingLimit := by decide
  by_cases shallow : frame.toValue.depth ≤ 1023
  · rw [← Item.depth_ofValue value] at shallow
    exact Scanner.scan_item_of_depth_le fits shallow rest
  · have deep := mt (depth_toValue_le frame).mpr shallow
    rcases bounded with within | blob | short
    · exact absurd (Or.inr within) deep
    · exact absurd (Or.inl blob) deep
    · exact Scanner.scan_item_of_length_le fits (Nat.le_of_lt (Nat.lt_of_lt_of_le short limit)) rest

theorem parse_write (writable : frame.Writable) (rest : Bytes)
    (bounded : frame.Shallow ∨ frame.shape = .packed ∨ frame.write.length < 0x8000000000000000) :
    parse (frame.write ++ rest) =
      if frame.Shallow then .complete frame.canonical frame.write.length
      else .faulty frame.shape.depthFault := by
  rw [parse_eq, scan_write writable rest bounded]
  dsimp only
  rw [List.take_left, parseItem_write writable]

/-! ## Streams -/

theorem ofStream_flatMap_write {calls : List Frame}
    (writable : ∀ call ∈ calls, call.Writable) (shallow : ∀ call ∈ calls, call.Shallow) :
    ofStream (calls.flatMap write) = (calls.map canonical, .unfinished []) := by
  induction calls with
  | nil => exact ofStream_nil
  | cons call rest ih =>
      have fine := shallow call List.mem_cons_self
      have first := parse_write (writable call List.mem_cons_self) (rest.flatMap write) (.inl fine)
      have later := ih (fun other member => writable other (List.mem_cons_of_mem _ member))
        fun other member => shallow other (List.mem_cons_of_mem _ member)
      rw [if_pos fine] at first
      rw [List.flatMap_cons, ofStream_of_complete first, List.drop_left, later]
      rfl

theorem foldl_write (before : Bytes) (calls : List Frame) :
    calls.foldl (fun buffer call => buffer ++ call.write) before =
      before ++ calls.flatMap write := by
  induction calls generalizing before with
  | nil => exact (List.append_nil before).symm
  | cons call rest ih => rw [List.foldl_cons, ih, List.flatMap_cons, List.append_assoc]

/-- Frames that are written to the end of a buffer leave what was in it, and are read back one by
one to the last byte, each as it was written but for the form of its integers, if their records are
no deeper than 1022 containers, or 1020 in a forward frame. A frame with a record that is deeper is
refused for its depth; it has fewer than `2 ^ 63` bytes, like anything that stands in a buffer. -/
theorem written_frames_read_back (before : Bytes) (calls : List Frame)
    (writable : ∀ call ∈ calls, call.Writable) :
    let after := calls.foldl (fun buffer call => buffer ++ call.write) before
    after.take before.length = before ∧
    ((∀ call ∈ calls, call.Shallow) →
      ofStream (after.drop before.length) = (calls.map canonical, .unfinished [])) ∧
    ∀ call ∈ calls, ¬ call.Shallow → call.write.length < 0x8000000000000000 →
      ∀ rest, parse (call.write ++ rest) = .faulty call.shape.depthFault := by
  dsimp only
  rw [foldl_write, List.take_left, List.drop_left]
  refine ⟨rfl, ofStream_flatMap_write writable, ?_⟩
  intro call member deep short rest
  rw [parse_write (writable call member) rest (.inr (.inr short)), if_neg deep]

theorem two_frames_read_back :
    (∀ call ∈ [message "t" ⟨7, [("a", .int 5)]⟩, packed "p" []], call.Writable) ∧
    ofStream ((message "t" ⟨7, [("a", .int 5)]⟩).write ++ (packed "p" []).write) =
      ([message "t" ⟨7, [("a", .uint 5)]⟩, packed "p" []], .unfinished []) := by
  have record : (Value.map [("a", .int 5)]).Writable :=
    ⟨by decide, by decide, by decide, trivial, trivial⟩
  have writable : ∀ call ∈ [message "t" ⟨7, [("a", .int 5)]⟩, packed "p" []], call.Writable := by
    intro call member
    rcases List.mem_cons.mp member with rfl | member
    · exact ⟨by decide, by simpa [content] using record, trivial⟩
    · rcases List.mem_cons.mp member with rfl | member
      · exact ⟨by decide, by simp [content], by decide⟩
      · cases member
  exact ⟨writable, (written_frames_read_back [] _ writable).2.1 (by decide)⟩

end Frame

end LogIntake
