import LogIntake.Json.Writer
import LogIntake.Proofs.Substituting

/-!
# The characters of JSON text

Whatever strings a value holds, and at whatever depth, its JSON text has no control character
(`plain_write`). In UTF-8 it has no byte below 0x20 then (`le_of_mem_encode`).
-/
set_option autoImplicit false

namespace LogIntake

/-- Whether no control character stands in the text: none below U+0020. -/
def Plain (text : List Char) : Prop := ∀ character ∈ text, 0x20 ≤ character.toNat

instance (text : List Char) : Decidable (Plain text) :=
  List.decidableBAll _ text

namespace Plain

variable {first : Char} {text other : List Char}

@[simp] theorem nil : Plain [] := by simp [Plain]

@[simp] theorem cons : Plain (first :: text) ↔ 0x20 ≤ first.toNat ∧ Plain text := by
  simp [Plain]

@[simp] theorem append : Plain (text ++ other) ↔ Plain text ∧ Plain other := by
  simp only [Plain, List.mem_append, or_imp, forall_and]

theorem of_subset (plain : Plain text) (inside : other ⊆ text) : Plain other :=
  fun character member => plain character (inside member)

theorem zeros (count : Nat) : Plain (List.replicate count '0') := by
  intro character member
  rw [List.eq_of_mem_replicate member]
  decide

theorem digits (number : Nat) : Plain (Nat.toDigits 10 number) := by
  intro character member
  have digit := Nat.isDigit_of_mem_toDigits (by decide) (by decide) member
  have low := (Char.isDigit_iff_toNat.mp digit).1
  change 48 ≤ character.toNat at low
  omega

end Plain

namespace NumberLayout

theorem plain_full {digits : List Char} (plain : Plain digits) (leading : Int) :
    Plain (full digits leading).toList := by
  cases leading with
  | negSucc gap =>
      have zeros := Plain.zeros gap
      simp only [full, String.toList_append, String.toList_ofList, Plain.append]
      exact ⟨by decide, zeros, plain⟩
  | ofNat place =>
      have zeros := Plain.zeros (place + 1 - (digits.take (place + 1)).length)
      have whole := plain.of_subset (List.take_subset (place + 1) digits)
      have rest := plain.of_subset (List.drop_subset (place + 1) digits)
      simp only [full, String.toList_append, String.toList_ofList, Plain.append]
      refine ⟨⟨⟨whole, zeros⟩, by decide⟩, ?_⟩
      split
      · decide
      · rwa [String.toList_ofList]

theorem plain_withExponent {digits : List Char} (plain : Plain digits) (leading : Int) :
    Plain (withExponent digits leading).toList := by
  have first := plain.of_subset (List.take_subset 1 digits)
  have rest := plain.of_subset (List.drop_subset 1 digits)
  have power := Plain.digits leading.natAbs
  simp only [withExponent, String.toList_append, String.toList_ofList, Plain.append,
    Nat.toString_eq_repr, Nat.toList_repr]
  refine ⟨⟨⟨⟨first, ?_⟩, by decide⟩, ?_⟩, power⟩
  · split
    · decide
    · simp only [String.toList_append, String.toList_ofList, Plain.append]
      exact ⟨by decide, rest⟩
  · split <;> decide

theorem plain_decimal (layout : NumberLayout) (number : Decimal) :
    Plain (layout.decimal number).toList := by
  let written := Nat.toDigits 10 number.coefficient
  have digits : Plain (written.reverse.dropWhile (· = '0')).reverse := by
    refine (Plain.digits number.coefficient).of_subset ?_
    intro character member
    have kept := (List.dropWhile_sublist _).subset (List.mem_reverse.mp member)
    exact List.mem_reverse.mp kept
  simp only [decimal]
  split
  · exact plain_full digits _
  · exact plain_withExponent digits _

theorem plain_text {layout : NumberLayout} (words : Plain layout.nan.toList ∧
    Plain layout.infinity.toList ∧ Plain layout.negativeInfinity.toList) (number : Binary64) :
    Plain (layout.text number).toList := by
  obtain ⟨nan, infinity, negativeInfinity⟩ := words
  have sign : Plain (if number.isNegative then "-" else "").toList := by split <;> decide
  simp only [text]
  split
  · exact nan
  split
  · split
    · exact negativeInfinity
    · exact infinity
  split
  · rw [String.toList_append, Plain.append]
    exact ⟨sign, by decide⟩
  · rw [String.toList_append, Plain.append]
    exact ⟨sign, plain_decimal layout _⟩

end NumberLayout

namespace Json

theorem plain_hexDigit : ∀ digit < 16, 0x20 ≤ (hexDigit digit).toNat := by decide

theorem plain_escape (character : Char) : Plain (escape character) := by
  unfold escape
  split_ifs with _ _ _ _ _ _ _ control
  · decide
  · decide
  · decide
  · decide
  · decide
  · decide
  · decide
  · have high := plain_hexDigit (character.toNat / 16) (by omega)
    have low := plain_hexDigit (character.toNat % 16) (by omega)
    simp only [Plain.cons]
    exact ⟨by decide, by decide, by decide, by decide, high, low, Plain.nil⟩
  · simpa using control

theorem plain_writeString (content : String) : Plain (writeString content) := by
  have letters : Plain (content.toList.flatMap escape) := by
    intro character member
    obtain ⟨letter, -, here⟩ := List.mem_flatMap.mp member
    exact plain_escape letter character here
  rw [writeString, Plain.cons, Plain.append]
  exact ⟨by decide, letters, by decide⟩

theorem plain_writeInt (number : Int) : Plain (writeInt number) := by
  have digits := Plain.digits number.natAbs
  unfold writeInt
  split
  · exact Plain.cons.mpr ⟨by decide, digits⟩
  · exact digits

theorem plain_commas {texts : List (List Char)} (plain : ∀ text ∈ texts, Plain text) :
    Plain (commas texts) := by
  fun_induction commas texts with
  | case1 => exact Plain.nil
  | case2 only => exact plain only List.mem_cons_self
  | case3 first rest _ ih =>
      obtain ⟨here, later⟩ := List.forall_mem_cons.mp plain
      exact Plain.append.mpr ⟨here, Plain.cons.mpr ⟨by decide, ih later⟩⟩

theorem plain_brackets {first last : Char} {texts : List (List Char)}
    (opening : 0x20 ≤ first.toNat) (closing : 0x20 ≤ last.toNat)
    (plain : ∀ text ∈ texts, Plain text) : Plain (first :: (commas texts ++ [last])) := by
  rw [Plain.cons, Plain.append]
  exact ⟨opening, plain_commas plain, Plain.cons.mpr ⟨closing, Plain.nil⟩⟩

mutual

theorem plain_write : ∀ value : Value, Plain (write value)
  | .nil => by rw [write]; decide
  | .bool true => by rw [write]; decide
  | .bool false => by rw [write]; decide
  | .uint number => by rw [write]; exact Plain.digits number.toNat
  | .int number => by rw [write]; exact plain_writeInt number.toInt
  | .float number => by rw [write]; exact NumberLayout.plain_text (by decide) number
  | .text content => by rw [write]; exact plain_writeString content
  | .binary content => by
      rw [write]
      refine plain_brackets (by decide) (by decide) ?_
      rw [List.forall_mem_map]
      exact fun byte _ => Plain.digits byte.toNat
  | .array items => by
      rw [write]
      exact plain_brackets (by decide) (by decide) (plain_writeItems items)
  | .map fields => by
      rw [write]
      exact plain_brackets (by decide) (by decide) (plain_writeFields fields)

theorem plain_writeItems : ∀ items : List Value, ∀ text ∈ writeItems items, Plain text
  | [] => by simp [writeItems]
  | item :: rest => by
      rw [writeItems, List.forall_mem_cons]
      exact ⟨plain_write item, plain_writeItems rest⟩

theorem plain_writeFields : ∀ fields : List (String × Value),
    ∀ text ∈ writeFields fields, Plain text
  | [] => by simp [writeFields]
  | (key, value) :: rest => by
      rw [writeFields, List.forall_mem_cons, Plain.append, Plain.cons]
      exact ⟨⟨plain_writeString key, by decide, plain_write value⟩, plain_writeFields rest⟩

end

theorem plain_writeEntry (entry : Entry) : Plain (writeEntry entry) := by
  refine plain_brackets (by decide) (by decide) ?_
  simp only [List.forall_mem_cons, Plain.append, Plain.cons]
  refine ⟨⟨plain_writeString _, by decide, plain_writeString entry.tag⟩,
    ⟨plain_writeString _, by decide, Plain.digits entry.timestamp.toNat⟩,
    ⟨plain_writeString _, by decide, plain_write (.map entry.data)⟩, by simp⟩

end Json

namespace Utf8

theorem le_of_mem_utf8EncodeChar {letter : Char} {byte : UInt8} (plain : 0x20 ≤ letter.toNat)
    (member : byte ∈ String.utf8EncodeChar letter) : 0x20 ≤ byte.toNat := by
  change 0x20 ≤ letter.val.toNat at plain
  have part (number : Nat) (low : 0x20 ≤ number) (high : number < 0x100) :
      0x20 ≤ (UInt8.ofNat number).toNat := by
    rwa [UInt8.toNat_ofNat_of_lt' high]
  rw [String.utf8EncodeChar] at member
  generalize letter.val.toNat = number at plain member
  split at member
  · obtain rfl := List.mem_singleton.mp member
    exact part _ plain (by omega)
  split at member
  · simp only [List.mem_cons, List.not_mem_nil, or_false] at member
    rcases member with rfl | rfl <;> exact part _ (by omega) (by omega)
  split at member
  · simp only [List.mem_cons, List.not_mem_nil, or_false] at member
    rcases member with rfl | rfl | rfl <;> exact part _ (by omega) (by omega)
  · simp only [List.mem_cons, List.not_mem_nil, or_false] at member
    rcases member with rfl | rfl | rfl | rfl <;> exact part _ (by omega) (by omega)

theorem le_of_mem_encode {text : List Char} {byte : UInt8} (plain : Plain text)
    (member : byte ∈ encode (String.ofList text)) : 0x20 ≤ byte.toNat := by
  rw [encode_eq_flatMap, String.toList_ofList] at member
  obtain ⟨letter, inside, here⟩ := List.mem_flatMap.mp member
  exact le_of_mem_utf8EncodeChar (plain letter inside) here

end Utf8

end LogIntake
