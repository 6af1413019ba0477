import LogIntake.Value.Basic

/-!
# Records from fields

What stands under a key of a record that was built from fields, that its fields are among those, and
that fields in key order are their own record.
-/
set_option autoImplicit false

namespace LogIntake.Record

theorem get?_cons (first : String) (present : Value) (rest : Record) (key : String) :
    Record.get? ((first, present) :: rest) key =
      if key = first then some present else Record.get? rest key := by
  rw [get?, List.lookup_cons]
  by_cases same : key = first
  · rw [if_pos same, beq_iff_eq.mpr same]
  · rw [if_neg same, beq_eq_false_iff_ne.mpr same]
    rfl

theorem get?_insert (key other : String) (value : Value) (record : Record) :
    (record.insert key value).get? other =
      if other = key then some value else record.get? other := by
  induction record with
  | nil => rw [insert, get?_cons]
  | cons field rest ih =>
      obtain ⟨first, present⟩ := field
      rw [insert]
      split
      · rw [get?_cons]
      · split
        · next same =>
          subst same
          rw [get?_cons, get?_cons]
          split <;> rfl
        · next different =>
          rw [get?_cons, get?_cons, ih]
          by_cases here : other = first
          · rw [if_pos here, if_pos here, if_neg (fun same => different (same.symm.trans here))]
          · rw [if_neg here, if_neg here]

theorem get?_ofFields (fields : List (String × Value)) (key : String) :
    (ofFields fields).get? key = Record.get? fields.reverse key := by
  rw [ofFields, ← List.foldr_reverse]
  induction fields.reverse with
  | nil => rfl
  | cons field rest ih => rw [List.foldr_cons, get?_insert, ih, get?_cons]

theorem insert_of_lt {key : String} {record : Record} (value : Value)
    (least : ∀ other ∈ record.map Prod.fst, other < key) :
    record.insert key value = record ++ [(key, value)] := by
  induction record with
  | nil => rfl
  | cons field rest ih =>
      obtain ⟨first, present⟩ := field
      have before : first < key := least first List.mem_cons_self
      rw [insert, if_neg (String.lt_asymm before), if_neg (String.ne_of_lt before).symm,
        ih fun other member => least other (List.mem_cons_of_mem _ member)]
      rfl

theorem ofFields_of_ordered {record : Record} (ordered : Ordered record) :
    ofFields record = record := by
  suffices ∀ done rest : Record, Ordered (done ++ rest) →
      rest.foldl (fun record field => insert field.1 field.2 record) done = done ++ rest from
    this [] record ordered
  intro done rest
  induction rest generalizing done with
  | nil => exact fun _ => (List.append_nil done).symm
  | cons field rest ih =>
      intro ordered
      have least : ∀ other ∈ done.map Prod.fst, other < field.1 := by
        intro other member
        rw [Ordered, List.map_append, List.pairwise_append] at ordered
        exact ordered.2.2 other member field.1 List.mem_cons_self
      rw [List.foldl_cons, insert_of_lt field.2 least]
      have next := ih (done ++ [field])
      rw [List.append_assoc] at next
      exact next ordered

theorem mem_of_mem_insert {key : String} {value : Value} {record : Record}
    {field : String × Value} (member : field ∈ record.insert key value) :
    field = (key, value) ∨ field ∈ record := by
  induction record with
  | nil => simpa [insert] using member
  | cons first rest ih =>
      simp only [insert] at member
      split at member
      · simpa using member
      · split at member
        · simp only [List.mem_cons] at member ⊢
          exact member.imp_right .inr
        · simp only [List.mem_cons] at member ⊢
          rcases member with here | later
          · exact .inr (.inl here)
          · exact (ih later).imp_right .inr

theorem mem_of_mem_ofFields {fields : List (String × Value)} {field : String × Value}
    (member : field ∈ ofFields fields) : field ∈ fields := by
  rw [ofFields, ← List.foldr_reverse] at member
  rw [← List.mem_reverse]
  generalize fields.reverse = turned at member ⊢
  induction turned with
  | nil => exact member
  | cons first rest ih =>
      rw [List.foldr_cons] at member
      rcases mem_of_mem_insert member with rfl | later
      · exact List.mem_cons_self
      · exact List.mem_cons_of_mem _ (ih later)

end LogIntake.Record
