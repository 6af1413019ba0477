import Mathlib.Data.List.Basic
import Mathlib.Data.List.TakeDrop
import LogIntake.Json.Reader
import LogIntake.Json.Writer

/-!
# Literals of JSON texts

Written strings, integers and bracketed lists are read back, whatever follows them that may follow a
value: strings exactly (`readString_writeString`), integers by their digits
(`readNumeral_writeNat`), lists item by item (`enclosed_commas`). Of integers, those below `2 ^ 64`
keep all their digits (`gather_eq`).
-/
set_option autoImplicit false

namespace LogIntake

namespace Digits

theorem hexValue?_digitChar : ∀ digit < 16, hexValue? (Nat.digitChar digit) = some digit := by
  decide

theorem value?_digitChar : ∀ digit < 10, value? 10 (Nat.digitChar digit) = some digit := by
  decide

theorem isDecimal_digitChar : ∀ digit < 10, isDecimal (Nat.digitChar digit) = true := by decide

theorem ofDigits_append (digits : List Char) (digit : Char) :
    ofDigits 10 (digits ++ [digit]) = ofDigits 10 digits * 10 + (value? 10 digit).getD 0 := by
  rw [ofDigits, ofDigits, List.foldl_append]
  rfl

/-- What holds of the one digit of a number below ten, and goes over to one digit more, holds of the
digits of every number. -/
theorem toDigits_induction {motive : Nat → List Char → Prop}
    (one : ∀ digit < 10, motive digit [Nat.digitChar digit])
    (more : ∀ number digit, 0 < number → digit < 10 → motive number (Nat.toDigits 10 number) →
      motive (number * 10 + digit) (Nat.toDigits 10 number ++ [Nat.digitChar digit]))
    (number : Nat) : motive number (Nat.toDigits 10 number) := by
  induction number using Nat.strongRecOn with
  | ind number ih =>
      rw [Nat.toDigits_eq_if (by decide)]
      split
      · next small => exact one number small
      · next large =>
        have rest := ih (number / 10) (by omega)
        have whole := more (number / 10) (number % 10) (by omega) (by omega) rest
        rwa [Nat.div_add_mod'] at whole

theorem ofDigits_toDigits (number : Nat) : ofDigits 10 (Nat.toDigits 10 number) = number := by
  refine toDigits_induction (motive := fun number digits => ofDigits 10 digits = number)
    ?_ ?_ number
  · intro digit small
    rw [ofDigits, List.foldl_cons, List.foldl_nil, value?_digitChar digit small, Option.getD_some,
      Nat.zero_mul, Nat.zero_add]
  · intro number digit _ small read
    rw [ofDigits_append, read, value?_digitChar digit small, Option.getD_some]

theorem isDecimal_of_mem_toDigits {number : Nat} {digit : Char}
    (member : digit ∈ Nat.toDigits 10 number) : isDecimal digit = true := by
  revert digit
  refine toDigits_induction
    (motive := fun _ digits => ∀ {digit}, digit ∈ digits → isDecimal digit = true) ?_ ?_ number
  · intro value small digit member
    rw [List.mem_singleton.mp member]
    exact isDecimal_digitChar value small
  · intro number value _ small before digit member
    rcases List.mem_append.mp member with inside | last
    · exact before inside
    · rw [List.mem_singleton.mp last]
      exact isDecimal_digitChar value small

theorem eq_zero_of_head? {number : Nat} (zero : (Nat.toDigits 10 number).head? = some '0') :
    number = 0 := by
  revert zero
  refine toDigits_induction
    (motive := fun number digits => digits.head? = some '0' → number = 0) ?_ ?_ number
  · intro digit small
    revert digit
    decide
  · intro number digit positive _ before zero
    rw [List.head?_append_of_ne_nil _ Nat.toDigits_ne_nil] at zero
    exact absurd (before zero) (by omega)

end Digits

namespace Json

/-! ## What may follow a value -/

/-- Whether the text ends here, or the value in it does: at a comma or a closing bracket. -/
def Ends (rest : List Char) : Prop := ∀ next ∈ rest.head?, next ∈ [',', ']', '}']

theorem Ends.nil : Ends [] := by simp [Ends]

theorem Ends.cons {next : Char} {rest : List Char} (stop : next ∈ [',', ']', '}']) :
    Ends (next :: rest) := by
  intro first here
  cases here
  exact stop

theorem dropBlanks_cons {first : Char} {rest : List Char} (solid : isBlank first = false) :
    dropBlanks (first :: rest) = first :: rest := by
  rw [dropBlanks, List.dropWhile_cons_of_neg (by simp [solid])]

/-! ## Strings -/

theorem readString_of_escape {character : Char} {input rest : List Char}
    (run : readEscape input = some (character, rest)) :
    readString ('\\' :: input) =
      (readString rest).map fun (content, rest) => (character :: content, rest) := by
  rw [readString, if_neg (by decide), if_pos rfl]
  split
  · next none => rw [run] at none; cases none
  · next same => rw [run] at same; cases same; rfl

theorem unit?_hexDigit {number : Nat} (small : number < 0x20) :
    unit? '0' '0' (hexDigit (number / 16)) (hexDigit (number % 16)) = some number := by
  have high := Digits.hexValue?_digitChar (number / 16) (by omega)
  have low := Digits.hexValue?_digitChar (number % 16) (by omega)
  have zero : Digits.hexValue? '0' = some 0 := by decide
  have whole : number / 16 * 16 + number % 16 = number := Nat.div_add_mod' number 16
  simp [unit?, hexDigit, high, low, zero, whole]

theorem readString_escape (character : Char) (rest : List Char) :
    readString (escape character ++ rest) =
      (readString rest).map fun (content, rest) => (character :: content, rest) := by
  unfold escape
  split
  · next same => subst same; exact readString_of_escape rfl
  split
  · next same => subst same; exact readString_of_escape rfl
  split
  · next same => subst same; exact readString_of_escape rfl
  split
  · next same => subst same; exact readString_of_escape rfl
  split
  · next same => subst same; exact readString_of_escape rfl
  split
  · next same => subst same; exact readString_of_escape rfl
  split
  · next same => subst same; exact readString_of_escape rfl
  split
  · next control =>
    have unit := unit?_hexDigit control
    have found : ofUnit? character.toNat = some character := by
      rw [ofUnit?, if_pos (Or.inl (by omega)), Char.ofNat_toNat]
    refine readString_of_escape ?_
    simp [readEscape, unit, found]
  · next quote backslash _ _ _ _ _ plain =>
    rw [List.singleton_append, readString, if_neg quote, if_neg backslash, if_neg plain]

theorem readString_content (content : List Char) (rest : List Char) :
    readString (content.flatMap escape ++ '"' :: rest) = some (content, rest) := by
  induction content with
  | nil => rw [List.flatMap_nil, List.nil_append, readString, if_pos rfl]
  | cons character content ih =>
      rw [List.flatMap_cons, List.append_assoc, readString_escape, ih]
      rfl

theorem readString_writeString (content : String) (rest : List Char) :
    ∃ input, writeString content ++ rest = '"' :: input ∧
      readString input = some (content.toList, rest) := by
  refine ⟨content.toList.flatMap escape ++ '"' :: rest, ?_, readString_content _ rest⟩
  simp [writeString]

/-! ## Numbers -/

theorem le_foldl (digits : List Char) (start : Nat) :
    start ≤ digits.foldl (fun number digit => number * 10 + (Digits.value? 10 digit).getD 0)
      start := by
  induction digits generalizing start with
  | nil => exact Nat.le_refl start
  | cons digit digits ih =>
      have later := ih (start * 10 + (Digits.value? 10 digit).getD 0)
      rw [List.foldl_cons]
      omega

theorem gather_cases (digits : List Char) {start : Nat} (fits : start < UInt64.size) :
    let number := digits.foldl (fun number digit => number * 10 + (Digits.value? 10 digit).getD 0)
      start
    if number < UInt64.size then gather start digits = (number, [])
    else (gather start digits).2 ≠ [] := by
  induction digits generalizing start with
  | nil => exact (if_pos fits).mpr rfl
  | cons digit digits ih =>
      dsimp only
      rw [List.foldl_cons, gather]
      have least := le_foldl digits (start * 10 + (Digits.value? 10 digit).getD 0)
      by_cases next : start * 10 + (Digits.value? 10 digit).getD 0 < UInt64.size
      · rw [if_pos next]
        exact ih next
      · rw [if_neg next, if_neg (by omega)]
        exact List.cons_ne_nil _ _

theorem gather_eq (digits : List Char) :
    if Digits.ofDigits 10 digits < UInt64.size then
      gather 0 digits = (Digits.ofDigits 10 digits, [])
    else (gather 0 digits).2 ≠ [] :=
  gather_cases digits (by decide)

theorem ofJson_negative {magnitude : Nat} (positive : 0 < magnitude)
    (fits : magnitude ≤ 0x8000000000000000) :
    Value.ofJson (integer true magnitude) = .int (Int64.ofInt (-magnitude)) := by
  obtain ⟨less, rfl⟩ := Nat.exists_eq_succ_of_ne_zero (Nat.ne_of_gt positive)
  have below : less < 0x8000000000000000 := fits
  have same : -(less : Int) - 1 = -((less + 1 : Nat) : Int) := by omega
  rw [integer, if_pos rfl, dif_pos below, Value.ofJson, same]

theorem exists_float_of_negative {magnitude : Nat}
    (other : ¬ (0 < magnitude ∧ magnitude ≤ 0x8000000000000000)) :
    ∃ float, integer true magnitude = .float float := by
  cases magnitude with
  | zero => exact ⟨_, rfl⟩
  | succ less =>
      have above : ¬ less < 0x8000000000000000 := by omega
      rw [integer, if_pos rfl, dif_neg above]
      exact ⟨_, rfl⟩

def numeralOf (negative : Bool) (number : Nat) : Numeral := ⟨negative, writeNat number, none, none⟩

theorem value?_numeralOf {number : Nat} (fits : number < UInt64.size) (negative : Bool) :
    (numeralOf negative number).value? = some (integer negative number) := by
  have gathered := gather_eq (writeNat number)
  rw [writeNat, Digits.ofDigits_toDigits, if_pos fits] at gathered
  rw [numeralOf, Numeral.value?, writeNat, gathered]

theorem Ends.stops {rest : List Char} (ends : Ends rest) :
    rest.takeWhile Digits.isDecimal = [] ∧ rest.dropWhile Digits.isDecimal = rest ∧
      readFraction rest = some (none, rest) ∧ readPower rest = some (none, rest) := by
  cases rest with
  | nil => exact ⟨rfl, rfl, rfl, rfl⟩
  | cons next later =>
      have stop := ends next rfl
      simp only [List.mem_cons, List.not_mem_nil, or_false] at stop
      rcases stop with rfl | rfl | rfl <;> exact ⟨rfl, rfl, rfl, rfl⟩

theorem readDigits_writeNat (number : Nat) {rest : List Char} (ends : Ends rest) :
    readDigits (writeNat number ++ rest) = some (writeNat number, rest) := by
  have digits : ∀ digit ∈ writeNat number, Digits.isDecimal digit = true :=
    fun digit member => Digits.isDecimal_of_mem_toDigits member
  obtain ⟨none, all, -, -⟩ := ends.stops
  have taken : (writeNat number ++ rest).takeWhile Digits.isDecimal = writeNat number := by
    rw [List.takeWhile_append_of_pos digits, none, List.append_nil]
  have left : (writeNat number ++ rest).dropWhile Digits.isDecimal = rest := by
    rw [List.dropWhile_append_of_pos digits, all]
  have present : writeNat number ≠ [] := Nat.toDigits_ne_nil
  rw [readDigits, List.span_eq_takeWhile_dropWhile, taken, left]
  split
  · next none => exact absurd (congrArg Prod.fst none) present
  · rfl

theorem not_zero_first (number : Nat) :
    ¬ ((writeNat number).head? = some '0' ∧ (writeNat number).length ≠ 1) := by
  rintro ⟨zero, long⟩
  rw [writeNat] at zero long
  rw [Digits.eq_zero_of_head? zero] at long
  exact long rfl

theorem exists_digit (number : Nat) :
    ∃ first more, writeNat number = first :: more ∧ Digits.isDecimal first = true := by
  have some : writeNat number ≠ [] := Nat.toDigits_ne_nil
  obtain ⟨first, more, same⟩ := List.exists_cons_of_ne_nil some
  exact ⟨first, more, same, Digits.isDecimal_of_mem_toDigits (same ▸ List.mem_cons_self)⟩

theorem readNumeral_writeNat (number : Nat) {rest : List Char} (ends : Ends rest) :
    readNumeral (writeNat number ++ rest) = some (numeralOf false number, rest) ∧
      readNumeral ('-' :: (writeNat number ++ rest)) = some (numeralOf true number, rest) := by
  have digits := readDigits_writeNat number ends
  obtain ⟨-, -, fraction, power⟩ := ends.stops
  obtain ⟨first, more, same, decimal⟩ := exists_digit number
  have unsigned : (writeNat number ++ rest).head? ≠ some '-' := by
    rw [same, List.cons_append, List.head?_cons]
    rintro sign
    cases sign
    exact absurd decimal (by decide)
  constructor
  · rw [readNumeral, if_neg unsigned, digits]
    simp only [Option.bind_eq_bind, Option.bind_some, not_zero_first, if_false, fraction, power,
      unsigned, decide_false]
    rfl
  · rw [readNumeral, if_pos (List.head?_cons ..), List.drop_one, List.tail_cons, digits]
    simp only [Option.bind_eq_bind, Option.bind_some, not_zero_first, if_false, fraction, power,
      List.head?_cons, decide_true]
    rfl

/-! ## Lists -/

/-- Whether a reader finds the thing in the text, wherever the text may end. -/
def Reads {α : Type} (item : List Char → Option (α × List Char)) (text : List Char) (thing : α) :
    Prop :=
  ∀ rest, Ends rest → item (text ++ rest) = some (thing, rest)

theorem commas_cons (first second : List Char) (rest : List (List Char)) :
    commas (first :: second :: rest) = first ++ ',' :: commas (second :: rest) := rfl

theorem length_le_commas : ∀ texts, List.length texts ≤ (commas texts).length + 1
  | [] => Nat.zero_le _
  | [_] => Nat.succ_le_succ (Nat.zero_le _)
  | first :: second :: rest => by
      have later := length_le_commas (second :: rest)
      rw [commas_cons]
      simp only [List.length_cons, List.length_append] at later ⊢
      omega

/-- Whether the text starts with a character that is no blank and closes nothing. -/
def Solid (text : List Char) : Prop :=
  ∃ first ∈ text.head?, isBlank first = false ∧ first ∉ [']', '}']

section Lists

variable {α : Type} {item : List Char → Option (α × List Char)} {close : Char}
  {texts : List (List Char)} {things : List α}

theorem isBlank_of_closes (closes : close ∈ [']', '}']) : isBlank close = false := by
  simp only [List.mem_cons, List.not_mem_nil, or_false] at closes
  rcases closes with rfl | rfl <;> rfl

theorem separated_commas (closes : close ∈ [']', '}'])
    (reads : List.Forall₂ (Reads item) texts things) (present : texts ≠ []) (rest : List Char)
    {bound : List Char} (enough : texts.length ≤ bound.length) :
    separated item close bound (commas texts ++ close :: rest) = some (things, rest) := by
  induction reads generalizing bound with
  | nil => exact absurd rfl present
  | @cons text thing texts things here later ih =>
      cases bound with
      | nil => cases enough
      | cons _ bound =>
          have ends : Ends (close :: rest) := Ends.cons (List.mem_cons_of_mem _ closes)
          have comma : close ≠ ',' := by
            rintro rfl
            exact absurd closes (by decide)
          cases later with
          | nil =>
              rw [commas, separated, here _ ends]
              dsimp only
              rw [dropBlanks_cons (isBlank_of_closes closes)]
              exact if_pos rfl
          | @cons next another texts things first others =>
              have stop : Ends (',' :: (commas (next :: texts) ++ close :: rest)) :=
                Ends.cons List.mem_cons_self
              have more := ih (List.cons_ne_nil _ _) (Nat.le_of_succ_le_succ enough)
              rw [commas_cons, List.append_assoc, List.cons_append, separated, here _ stop]
              dsimp only
              rw [dropBlanks_cons (by decide)]
              dsimp only
              rw [if_neg comma.symm, if_pos rfl, more]
              rfl

theorem enclosed_commas (closes : close ∈ [']', '}'])
    (reads : List.Forall₂ (Reads item) texts things) (solid : ∀ text ∈ texts, Solid text)
    (rest : List Char) :
    enclosed item close (commas texts ++ close :: rest) = some (things, rest) := by
  cases reads with
  | nil =>
      rw [commas, List.nil_append, enclosed, dropBlanks_cons (isBlank_of_closes closes)]
      exact if_pos rfl
  | @cons text thing texts things here later =>
      obtain ⟨first, starts, blank, opens⟩ := solid text List.mem_cons_self
      have long : (text :: texts).length ≤ (commas (text :: texts) ++ close :: rest).length := by
        have bound := length_le_commas (text :: texts)
        rw [List.length_append, List.length_cons (a := close)]
        omega
      have read := separated_commas closes (.cons here later) (List.cons_ne_nil _ _) rest long
      have input : ∃ more, commas (text :: texts) ++ close :: rest = first :: more := by
        obtain ⟨more, rfl⟩ := List.head?_eq_some_iff.mp starts
        cases texts with
        | nil => exact ⟨_, rfl⟩
        | cons next others => exact ⟨_, rfl⟩
      obtain ⟨more, input⟩ := input
      have different : first ≠ close := fun same => opens (same ▸ closes)
      rw [enclosed, read, input, dropBlanks_cons blank]
      exact if_neg different

theorem reads_field {text : List Char} {thing : α} (reads : Reads item text thing) (key : String) :
    Reads (readField item) (writeString key ++ ':' :: text) (key, thing) := by
  intro rest ends
  obtain ⟨input, written, read⟩ := readString_writeString key (':' :: (text ++ rest))
  have colon : dropBlanks (':' :: (text ++ rest)) = ':' :: (text ++ rest) := dropBlanks_cons rfl
  rw [List.append_assoc, List.cons_append, written, readField, dropBlanks_cons (by decide)]
  simp only [read, colon, reads rest ends, Option.bind_eq_bind, Option.bind_some, Option.map_some,
    String.ofList_toList]

end Lists

end Json

end LogIntake
