import LogIntake.Proofs.Finality
import LogIntake.Proofs.RoundTrip

/-!
# Layouts of blobs

A blob holds its pairs one after the other or in one array, and unpacks to the same entries either
way. A blob that was cut inside a pair ends too early, whatever came whole before the cut
(`blobValues_take`).
-/
set_option autoImplicit false

namespace LogIntake.Frame

open MessagePack (decode_write decode_take decode_eq_none)
open Value (lengthLimit)

/-! ## Cut blobs -/

theorem blobValues_take {values : List Value} (writable : ∀ value ∈ values, value.Writable)
    (shallow : ∀ value ∈ values, value.depth ≤ 1023) {offset : Nat}
    (inside : offset ≤ (values.flatMap MessagePack.write).length)
    (cut : ∀ count, offset ≠ ((values.take count).flatMap MessagePack.write).length) :
    blobValues ((values.flatMap MessagePack.write).take offset) = .error .packedShort := by
  induction values generalizing offset with
  | nil => exact absurd (Nat.le_zero.mp inside) (cut 0)
  | cons value rest ih =>
      have fine := writable value List.mem_cons_self
      have low := shallow value List.mem_cons_self
      rw [List.flatMap_cons] at inside ⊢
      -- A cut inside the first value leaves the start of it, which is too short to be read.
      by_cases before : offset < (MessagePack.write value).length
      · have whole := decode_write fine []
        rw [List.append_nil, if_pos low] at whole
        have short := decode_eq_none.mp (decode_take whole before)
        rw [List.take_append_of_le_length (Nat.le_of_lt before)]
        refine blobValues_of_short ?_ short
        intro empty
        have length := congrArg List.length empty
        rw [List.length_take_of_le (Nat.le_of_lt before)] at length
        exact cut 0 length
      · obtain ⟨later, rfl⟩ := Nat.exists_eq_add_of_le (Nat.le_of_not_lt before)
        have others (count : Nat) :
            later ≠ ((rest.take count).flatMap MessagePack.write).length := by
          intro same
          apply cut (count + 1)
          rw [List.take_succ_cons, List.flatMap_cons, List.length_append, same]
        have missed := ih (fun other member => writable other (List.mem_cons_of_mem _ member))
          (fun other member => shallow other (List.mem_cons_of_mem _ member))
          (by rw [List.length_append] at inside; omega) others
        rw [List.take_length_add_append, blobValues_write fine, if_pos low, missed]
        rfl

/-! ## One array of pairs -/

theorem blobPairs_array (content : List Stamped) :
    blobPairs [.array (content.map Stamped.toValue)] = content.map Stamped.toValue := by
  cases content with
  | nil => rfl
  | cons pair rest => rfl

theorem unpack_array {content : List Stamped}
    (writable : ∀ pair ∈ content, (Value.map pair.record).Writable)
    (count : content.length < lengthLimit)
    (shallow : ∀ pair ∈ content, pair.record.depth ≤ 1021) :
    unpack (MessagePack.write (.array (content.map Stamped.toValue))) =
      .ok (content.map Stamped.canonical) := by
  have depth : (Value.array (content.map Stamped.toValue)).depth ≤ 1023 :=
    Nat.succ_le_succ ((itemsDepth_toValue_le content 1021).mpr shallow)
  have found := @blobValues_flatMap_write [.array (content.map Stamped.toValue)]
    (by simpa using writable_pairs writable count)
  rw [if_pos (by simpa using depth), List.flatMap_singleton, List.map_singleton,
    Value.canonical, canonicalItems_toValue] at found
  rw [unpack, found]
  exact (congrArg (List.mapM stampedOf) (blobPairs_array _)).trans (mapM_stampedOf _)

theorem parse_of_unpack_error {blob buffer : Bytes} {cause : Malformed}
    (failed : unpack blob = .error cause) {tag : Value} {name : String}
    (named : tagOf tag = .ok name) {third : Option Value} {consumed : Nat}
    (found : MessagePack.decode buffer =
      .ok (some (.array (tag :: .binary blob :: third.toList), consumed))) :
    parse buffer = .faulty (.malformed cause) := by
  have parts : ofParts name (.binary blob) third = .error cause := by
    rw [ofParts, failed]
    rfl
  have recognised : ofValue (.array (tag :: .binary blob :: third.toList)) = .error cause := by
    cases third with
    | none =>
        rw [Option.toList_none, ofValue, named]
        exact parts
    | some value =>
        rw [Option.toList_some, ofValue, named]
        exact parts
  rw [parse_of_decode found, recognised]

/-- Pairs written one after the other and pairs written as one array unpack to the same entries, in
order. Of the former a part that ends inside a pair is refused as truncated, and so is a frame with
such a blob, whatever else is in it. -/
theorem layouts_unpack_alike {content : List Stamped}
    (writable : ∀ pair ∈ content, (Value.map pair.record).Writable)
    (count : content.length < lengthLimit)
    (shallow : ∀ pair ∈ content, pair.record.depth ≤ 1021) :
    unpack (blobOf content) = .ok (content.map Stamped.canonical) ∧
    unpack (MessagePack.write (.array (content.map Stamped.toValue))) =
      unpack (blobOf content) ∧
    Malformed.packedShort.reason = "truncated packed entries" ∧
    ∀ offset ≤ (blobOf content).length,
      (∀ whole, offset ≠ (blobOf (content.take whole)).length) →
      let cut := (blobOf content).take offset
      unpack cut = .error .packedShort ∧
      ∀ tag name (third : Option Value) buffer consumed, tagOf tag = .ok name →
        MessagePack.decode buffer =
          .ok (some (.array (tag :: .binary cut :: third.toList), consumed)) →
        parse buffer = .faulty (.malformed .packedShort) := by
  have pairs : ∀ value ∈ content.map Stamped.toValue, value.Writable :=
    List.forall_mem_map.mpr fun pair member => Stamped.writable_toValue (writable pair member)
  have depths : ∀ value ∈ content.map Stamped.toValue, value.depth ≤ 1023 := by
    refine List.forall_mem_map.mpr fun pair member => ?_
    have depth := shallow pair member
    rw [Stamped.depth_toValue]
    omega
  have whole := unpack_blobOf writable
  rw [if_pos fun pair member => Nat.le_succ_of_le (shallow pair member)] at whole
  refine ⟨whole, ?_, rfl, ?_⟩
  · rw [unpack_array writable count shallow, whole]
  · intro offset inside between cut
    have missed : blobValues cut = .error .packedShort := by
      simp only [blobOf_eq_flatMap] at inside between
      simp only [cut, blobOf_eq_flatMap]
      refine blobValues_take pairs depths inside fun number => ?_
      rw [← List.map_take]
      exact between number
    have failed : unpack cut = .error .packedShort := by
      rw [unpack, missed]
      rfl
    exact ⟨failed, fun tag name third buffer consumed named found =>
      parse_of_unpack_error failed named found⟩

theorem pair_and_empty_pair_unpack_alike :
    (∀ pair ∈ [Stamped.mk 7 [("k", .int 5)], ⟨8, []⟩], (Value.map pair.record).Writable) ∧
    unpack [0x92, 0x07, 0x81, 0xa1, 0x6b, 0x05, 0x92, 0x08] = .error .packedShort := by
  have writable :
      ∀ pair ∈ [Stamped.mk 7 [("k", .int 5)], ⟨8, []⟩], (Value.map pair.record).Writable := by
    intro pair member
    rcases List.mem_cons.mp member with rfl | member
    · exact ⟨by decide, by decide, by decide, trivial, trivial⟩
    · cases List.mem_singleton.mp member
      exact ⟨by decide, by decide, trivial⟩
  have refused := (layouts_unpack_alike writable (by decide) (by decide)).2.2.2 8 (by decide)
  refine ⟨writable, (refused fun whole => ?_).1⟩
  match whole with
  | 0 => decide
  | 1 => decide
  | more + 2 => exact fun inside => by simp at inside; revert inside; decide

end LogIntake.Frame
