import LogIntake.Frame.OfValue
import LogIntake.Proofs.Writing

/-!
# Values in a blob

How the values of a blob are found one by one, and that values written one after the other are found
again in their order, unless one of them is nested too deeply (`blobValues_flatMap_write`).
-/
set_option autoImplicit false

namespace LogIntake.Frame

open MessagePack (Item)

theorem blobValues_nil : blobValues [] = .ok [] := by
  rw [blobValues.eq_def, if_pos rfl]

theorem blobValues_of_read {value : Value} {bytes rest : Bytes} (present : bytes ≠ [])
    (run : MessagePack.read bytes = .ok (value, rest)) :
    blobValues bytes = (value :: ·) <$> blobValues rest := by
  rw [blobValues.eq_def, if_neg present]
  split
  · next other => rw [run] at other; cases other
  · next other => rw [run] at other; cases other
  · next other =>
    rw [run] at other
    cases other
    rfl

theorem unpack_of_read {value : Value} {bytes : Bytes} (present : bytes ≠ [])
    (run : MessagePack.read bytes = .ok (value, [])) :
    unpack bytes = (blobPairs [value]).mapM stampedOf := by
  rw [unpack, blobValues_of_read present run, blobValues_nil]
  rfl

theorem blobValues_of_refused {bytes : Bytes} {cause : MessagePack.Refusal} (present : bytes ≠ [])
    (run : MessagePack.read bytes = .error (.refused cause)) :
    blobValues bytes = .error (.packedRefused cause) := by
  rw [blobValues.eq_def, if_neg present]
  split
  · next other => rw [run] at other; cases other
  · next other =>
    rw [run] at other
    cases other
    rfl
  · next other => rw [run] at other; cases other

theorem blobValues_of_short {bytes : Bytes} (present : bytes ≠ [])
    (run : MessagePack.read bytes = .error .short) : blobValues bytes = .error .packedShort := by
  rw [blobValues.eq_def, if_neg present]
  split
  · rfl
  · next other => rw [run] at other; cases other
  · next other => rw [run] at other; cases other

theorem bytes_append_ne_nil (item : Item) (rest : Bytes) : item.bytes ++ rest ≠ [] := by
  have positive := Item.length_bytes_pos item
  intro empty
  rw [List.append_eq_nil_iff] at empty
  rw [empty.1] at positive
  exact Nat.lt_irrefl 0 positive

theorem blobValues_bytes {item : Item} (fits : item.Fits) (rest : Bytes) :
    blobValues (item.bytes ++ rest) =
      match item.valueWithin 1023 with
      | .ok value => (value :: ·) <$> blobValues rest
      | .error cause => .error (.packedRefused cause) := by
  have present := bytes_append_ne_nil item rest
  have run : MessagePack.read (item.bytes ++ rest) = _ :=
    MessagePack.readWithin_bytes 1023 fits rest
  cases given : item.valueWithin 1023 with
  | ok value =>
      rw [given] at run
      exact blobValues_of_read present run
  | error cause =>
      rw [given] at run
      exact blobValues_of_refused present run

theorem blobValues_write {value : Value} (writable : value.Writable) (rest : Bytes) :
    blobValues (MessagePack.write value ++ rest) =
      if value.depth ≤ 1023 then (value.canonical :: ·) <$> blobValues rest
      else .error (.packedRefused .tooDeep) := by
  have first : (Item.ofValue value).valueWithin 1023 = _ :=
    Item.valueWithin_of_value? (Item.value?_ofValue writable)
  rw [MessagePack.write, blobValues_bytes (Item.fits_ofValue writable), first,
    Item.depth_ofValue writable, MessagePack.within]
  by_cases shallow : value.depth ≤ 1023
  · rw [if_pos shallow, if_pos shallow]
  · rw [if_neg shallow, if_neg shallow]

/-- Values written one after the other are found again if none of them is too deep. -/
theorem blobValues_flatMap_write {values : List Value}
    (writable : ∀ value ∈ values, value.Writable) :
    blobValues (values.flatMap MessagePack.write) =
      if ∀ value ∈ values, value.depth ≤ 1023 then .ok (values.map Value.canonical)
      else .error (.packedRefused .tooDeep) := by
  induction values with
  | nil =>
      rw [if_pos fun value member => absurd member List.not_mem_nil]
      exact blobValues_nil
  | cons value rest ih =>
      have later := ih fun other member => writable other (List.mem_cons_of_mem _ member)
      have both : (∀ other ∈ value :: rest, other.depth ≤ 1023) ↔
          value.depth ≤ 1023 ∧ ∀ other ∈ rest, other.depth ≤ 1023 := List.forall_mem_cons
      rw [List.flatMap_cons, blobValues_write (writable value List.mem_cons_self), later]
      by_cases shallow : value.depth ≤ 1023
      · rw [if_pos shallow]
        by_cases others : ∀ other ∈ rest, other.depth ≤ 1023
        · rw [if_pos others, if_pos (both.mpr ⟨shallow, others⟩)]
          rfl
        · rw [if_neg others, if_neg fun all => others (both.mp all).2]
          rfl
      · rw [if_neg shallow, if_neg fun all => shallow (both.mp all).1]

end LogIntake.Frame
