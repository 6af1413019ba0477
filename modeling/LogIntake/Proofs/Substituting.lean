import Mathlib.Data.List.Forall2
import LogIntake.Text.Utf8

/-!
# Reading bytes as text

The table of well-formed sequences holds just the bytes of characters (`followers_of_spelled`,
`utf8EncodeChar_character`), and the text of any bytes is read off it: characters stand as they are,
and each longest start of a character that breaks off, or byte that starts none, is one U+FFFD
(`substitute_eq_iff`). Bytes that are UTF-8 read as the text itself (`substitute_encode`).
-/
set_option autoImplicit false

namespace LogIntake

theorem exists_forall₂ {α β : Type} {related : α → β → Prop} {things : List α} :
    (∃ others, List.Forall₂ related things others) ↔
      ∀ thing ∈ things, ∃ other, related thing other := by
  induction things with
  | nil => simp
  | cons thing rest ih =>
      rw [List.forall_mem_cons, ← ih]
      constructor
      · rintro ⟨_, _ | ⟨here, later⟩⟩
        exact ⟨⟨_, here⟩, _, later⟩
      · rintro ⟨⟨other, here⟩, others, later⟩
        exact ⟨other :: others, .cons here later⟩

namespace Utf8

/-! ## The table of well-formed sequences -/

theorem admits_iff {range : Range} {byte : UInt8} :
    range.admits byte = true ↔ range.low.toNat ≤ byte.toNat ∧ byte.toNat ≤ range.high.toNat := by
  rw [Range.admits, Bool.and_eq_true, decide_eq_true_iff, decide_eq_true_iff,
    UInt8.le_iff_toNat_le, UInt8.le_iff_toNat_le]

inductive Row : UInt8 → List Range → Prop
  | one {lead : UInt8} (high : lead.toNat ≤ 0x7f) : Row lead []
  | two {lead : UInt8} (low : 0xc2 ≤ lead.toNat) (high : lead.toNat ≤ 0xdf) :
    Row lead [⟨0x80, 0xbf⟩]
  | three {lead : UInt8} (first : Range) (low : 0xe0 ≤ lead.toNat) (high : lead.toNat ≤ 0xef)
    (least : first.low.toNat = if lead.toNat = 0xe0 then 0xa0 else 0x80)
    (most : first.high.toNat = if lead.toNat = 0xed then 0x9f else 0xbf) :
    Row lead [first, ⟨0x80, 0xbf⟩]
  | four {lead : UInt8} (first : Range) (low : 0xf0 ≤ lead.toNat) (high : lead.toNat ≤ 0xf4)
    (least : first.low.toNat = if lead.toNat = 0xf0 then 0x90 else 0x80)
    (most : first.high.toNat = if lead.toNat = 0xf4 then 0x8f else 0xbf) :
    Row lead [first, ⟨0x80, 0xbf⟩, ⟨0x80, 0xbf⟩]

theorem row_of_followers {lead : UInt8} {ranges : List Range}
    (found : followers lead = some ranges) : Row lead ranges := by
  simp only [followers, UInt8.le_iff_toNat_le, UInt8.lt_iff_toNat_lt, ← UInt8.toNat_inj,
    UInt8.reduceToNat] at found
  split at found
  · next small => cases found; exact .one small
  split at found
  · cases found
  split at found
  · next notLow high => cases found; exact .two (by omega) high
  split at found
  · next e0 => cases found; exact .three _ (by omega) (by omega) (by simp [e0]) (by simp [e0])
  split at found
  · next ed => cases found; exact .three _ (by omega) (by omega) (by simp [ed]) (by simp [ed])
  split at found
  · next e0 ed high =>
    cases found
    exact .three _ (by omega) (by omega) (by simp [e0]) (by simp [ed])
  split at found
  · next f0 => cases found; exact .four _ (by omega) (by omega) (by simp [f0]) (by simp [f0])
  split at found
  · next f0 high =>
    cases found
    have f4 : lead.toNat ≠ 0xf4 := by omega
    exact .four _ (by omega) (by omega) (by simp [f0]) (by simp [f4])
  split at found
  · next f4 => cases found; exact .four _ (by omega) (by omega) (by simp [f4]) (by simp [f4])
  · cases found

theorem exists_followers (lead : UInt8)
    (start : lead.toNat ≤ 0x7f ∨ 0xc2 ≤ lead.toNat ∧ lead.toNat ≤ 0xf4) :
    ∃ ranges, followers lead = some ranges := by
  simp only [followers, UInt8.le_iff_toNat_le, UInt8.lt_iff_toNat_lt, ← UInt8.toNat_inj,
    UInt8.reduceToNat]
  split
  · exact ⟨_, rfl⟩
  split
  · omega
  repeat' split
  all_goals first | exact ⟨_, rfl⟩ | omega

def Admitted (ranges : List Range) (tail : Bytes) : Prop :=
  List.Forall₂ (fun range byte => range.admits byte = true) ranges tail

theorem val_ofNat {number : Nat}
    (valid : number < 0xd800 ∨ 0xdfff < number ∧ number < 0x110000) :
    (Char.ofNat number).val.toNat = number := by
  rw [Char.ofNat, dif_pos valid]
  rfl

theorem ofNat_eq {number : Nat} (byte : UInt8) (same : number = byte.toNat) :
    UInt8.ofNat number = byte := by
  rw [same, UInt8.ofNat_toNat]

theorem tail_admits {byte : UInt8} :
    (Range.mk 0x80 0xbf).admits byte = true ↔ 0x80 ≤ byte.toNat ∧ byte.toNat ≤ 0xbf := admits_iff

/-- A row of the table spells characters. -/
theorem utf8EncodeChar_character {lead : UInt8} {ranges : List Range} {tail : Bytes}
    (row : Row lead ranges) (admitted : Admitted ranges tail) :
    String.utf8EncodeChar (character lead tail) = lead :: tail := by
  cases row with
  | one high =>
      cases admitted
      change String.utf8EncodeChar (Char.ofNat lead.toNat) = [lead]
      rw [String.utf8EncodeChar, val_ofNat (by omega), if_pos high,
        UInt8.ofNat_toNat]
  | two low high =>
      obtain _ | ⟨fits, _ | _⟩ := admitted
      rename_i byte
      obtain ⟨least, most⟩ := tail_admits.mp fits
      change String.utf8EncodeChar (Char.ofNat (lead.toNat % 32 * 64 + byte.toNat % 64)) = _
      rw [String.utf8EncodeChar, val_ofNat (by omega), if_neg (by omega),
        if_pos (by omega), ofNat_eq lead (by omega), ofNat_eq byte (by omega)]
  | three first low high least most =>
      obtain _ | ⟨firstFits, _ | ⟨fits, _ | _⟩⟩ := admitted
      rename_i second third
      obtain ⟨low₂, high₂⟩ := admits_iff.mp firstFits
      obtain ⟨low₃, high₃⟩ := tail_admits.mp fits
      change String.utf8EncodeChar (Char.ofNat
        ((lead.toNat % 16 * 64 + second.toNat % 64) * 64 + third.toNat % 64)) = _
      split at least <;> split at most <;>
      rw [String.utf8EncodeChar, val_ofNat (by omega), if_neg (by omega),
        if_neg (by omega), if_pos (by omega), ofNat_eq lead (by omega),
        ofNat_eq second (by omega), ofNat_eq third (by omega)]
  | four first low high least most =>
      obtain _ | ⟨firstFits, _ | ⟨thirdFits, _ | ⟨fits, _ | _⟩⟩⟩ := admitted
      rename_i second third fourth
      obtain ⟨low₂, high₂⟩ := admits_iff.mp firstFits
      obtain ⟨low₃, high₃⟩ := tail_admits.mp thirdFits
      obtain ⟨low₄, high₄⟩ := tail_admits.mp fits
      change String.utf8EncodeChar (Char.ofNat
        (((lead.toNat % 8 * 64 + second.toNat % 64) * 64 + third.toNat % 64) * 64 +
          fourth.toNat % 64)) = _
      split at least <;> split at most <;>
      rw [String.utf8EncodeChar, val_ofNat (by omega), if_neg (by omega),
        if_neg (by omega), if_neg (by omega), ofNat_eq lead (by omega),
        ofNat_eq second (by omega), ofNat_eq third (by omega),
        ofNat_eq fourth (by omega)]

theorem followers_of_spelled {letter : Char} {lead : UInt8} {tail : Bytes}
    (spelled : String.utf8EncodeChar letter = lead :: tail) :
    ∃ ranges, followers lead = some ranges ∧ Admitted ranges tail := by
  have valid : letter.val.toNat < 55296 ∨ 57343 < letter.val.toNat ∧ letter.val.toNat < 1114112 :=
    letter.valid
  rw [String.utf8EncodeChar] at spelled
  generalize letter.val.toNat = number at valid spelled
  have byte (part : Nat) (small : part < 256) : (UInt8.ofNat part).toNat = part :=
    UInt8.toNat_ofNat_of_lt' small
  split at spelled
  · next one =>
    cases spelled
    have lead := byte number (by omega)
    obtain ⟨ranges, found⟩ := exists_followers (.ofNat number) (by omega)
    refine ⟨ranges, found, ?_⟩
    cases row_of_followers found with
    | one high => exact .nil
    | _ => omega
  split at spelled
  · next more two =>
    cases spelled
    have lead := byte (number / 64 % 32 + 192) (by omega)
    have second := byte (number % 64 + 128) (by omega)
    obtain ⟨ranges, found⟩ := exists_followers (.ofNat (number / 64 % 32 + 192)) (by omega)
    refine ⟨ranges, found, ?_⟩
    cases row_of_followers found with
    | two low high => exact .cons (tail_admits.mpr (by omega)) .nil
    | _ => omega
  split at spelled
  · next more three =>
    cases spelled
    have lead := byte (number / 4096 % 16 + 224) (by omega)
    have second := byte (number / 64 % 64 + 128) (by omega)
    have third := byte (number % 64 + 128) (by omega)
    obtain ⟨ranges, found⟩ := exists_followers (.ofNat (number / 4096 % 16 + 224)) (by omega)
    refine ⟨ranges, found, ?_⟩
    cases row_of_followers found with
    | three first low high least most =>
        refine .cons (admits_iff.mpr ?_) (.cons (tail_admits.mpr (by omega)) .nil)
        split at least <;> split at most <;> omega
    | _ => omega
  · next more =>
    cases spelled
    have lead := byte (number / 262144 % 8 + 240) (by omega)
    have second := byte (number / 4096 % 64 + 128) (by omega)
    have third := byte (number / 64 % 64 + 128) (by omega)
    have fourth := byte (number % 64 + 128) (by omega)
    obtain ⟨ranges, found⟩ := exists_followers (.ofNat (number / 262144 % 8 + 240)) (by omega)
    refine ⟨ranges, found, ?_⟩
    cases row_of_followers found with
    | four first low high least most =>
        refine .cons (admits_iff.mpr ?_)
          (.cons (tail_admits.mpr (by omega)) (.cons (tail_admits.mpr (by omega)) .nil))
        split at least <;> split at most <;> omega
    | _ => omega

/-! ## Starts of characters -/

def Starts (bytes : Bytes) : Prop := ∃ letter : Char, bytes <+: String.utf8EncodeChar letter

theorem utf8EncodeChar_injective {letter other : Char}
    (same : String.utf8EncodeChar letter = String.utf8EncodeChar other) : letter = other := by
  have first := ByteArray.utf8DecodeChar?_utf8EncodeChar_append (c := letter) (b := .empty)
  have second := ByteArray.utf8DecodeChar?_utf8EncodeChar_append (c := other) (b := .empty)
  rw [same, second] at first
  exact (Option.some.inj first).symm

theorem Row.exists_admits {lead : UInt8} {ranges : List Range} (row : Row lead ranges) :
    ∀ range ∈ ranges, ∃ byte, range.admits byte = true := by
  have tail : ∃ byte, (Range.mk 0x80 0xbf).admits byte = true := ⟨0x80, by decide⟩
  cases row with
  | one high => simp
  | two low high => simpa using tail
  | three first low high least most | four first low high least most =>
      have start : ∃ byte, first.admits byte = true :=
        ⟨first.low, admits_iff.mpr ⟨Nat.le_refl _, by split at least <;> split at most <;> omega⟩⟩
      simpa using ⟨start, tail⟩

theorem fitting_le_length (ranges : List Range) (bytes : Bytes) :
    fitting ranges bytes ≤ bytes.length := by
  fun_induction fitting ranges bytes with
  | case1 range ranges byte rest fits ih => exact Nat.succ_le_succ ih
  | case2 => exact Nat.zero_le _
  | case3 => exact Nat.zero_le _

/-- Bytes fit as far as they can be continued to ones that are admitted. -/
theorem length_le_fitting {ranges : List Range} {start bytes : Bytes}
    (inhabited : ∀ range ∈ ranges, ∃ byte, range.admits byte = true) (inside : start <+: bytes) :
    start.length ≤ fitting ranges bytes ↔ ∃ more, Admitted ranges (start ++ more) := by
  induction start generalizing ranges bytes with
  | nil => exact iff_of_true (Nat.zero_le _) (exists_forall₂.mpr inhabited)
  | cons byte start ih =>
      obtain ⟨rest, rfl⟩ := inside
      cases ranges with
      | nil => simp [fitting, Admitted]
      | cons range ranges =>
          obtain ⟨-, later⟩ := List.forall_mem_cons.mp inhabited
          have more := ih later (List.prefix_append start rest)
          by_cases fits : range.admits byte = true
          · simp [fitting, Admitted, fits, more]
          · simp [fitting, Admitted, fits]

section Lead

variable {lead : UInt8} {ranges : List Range} {start rest : Bytes}

theorem starts_cons_iff (found : followers lead = some ranges) :
    Starts (lead :: start) ↔ ∃ more, Admitted ranges (start ++ more) := by
  constructor
  · rintro ⟨letter, more, spelled⟩
    obtain ⟨others, alsoFound, admitted⟩ := followers_of_spelled spelled.symm
    cases found.symm.trans alsoFound
    exact ⟨more, admitted⟩
  · rintro ⟨more, admitted⟩
    refine ⟨character lead (start ++ more), ?_⟩
    rw [utf8EncodeChar_character (row_of_followers found) admitted]
    exact ⟨more, rfl⟩

theorem not_starts (found : followers lead = none) : ¬ Starts (lead :: start) := by
  rintro ⟨letter, more, spelled⟩
  obtain ⟨ranges, alsoFound, -⟩ := followers_of_spelled spelled.symm
  cases found.symm.trans alsoFound

theorem starts_iff_length_le (found : followers lead = some ranges) (inside : start <+: rest) :
    Starts (lead :: start) ↔ start.length ≤ fitting ranges rest := by
  rw [starts_cons_iff found, length_le_fitting (row_of_followers found).exists_admits inside]

theorem spelled_iff_length (found : followers lead = some ranges)
    (starts : Starts (lead :: start)) :
    (∃ letter, String.utf8EncodeChar letter = lead :: start) ↔ start.length = ranges.length := by
  constructor
  · rintro ⟨letter, spelled⟩
    obtain ⟨others, alsoFound, admitted⟩ := followers_of_spelled spelled
    cases found.symm.trans alsoFound
    exact admitted.length_eq.symm
  · intro enough
    obtain ⟨more, admitted⟩ := (starts_cons_iff found).mp starts
    have none : more = [] := by
      have count := admitted.length_eq
      rw [List.length_append, ← enough] at count
      exact List.eq_nil_of_length_eq_zero (by omega)
    rw [none, List.append_nil] at admitted
    exact ⟨_, utf8EncodeChar_character (row_of_followers found) admitted⟩

theorem fitting_eq_length (found : followers lead = some ranges) (starts : Starts (lead :: start))
    (longest : ∀ next ∈ rest.head?, ¬ Starts (lead :: (start ++ [next]))) :
    fitting ranges (start ++ rest) = start.length := by
  refine Nat.le_antisymm ?_ ((starts_iff_length_le found (List.prefix_append start rest)).mp starts)
  by_contra more
  have bound := fitting_le_length ranges (start ++ rest)
  rw [List.length_append] at bound
  cases rest with
  | nil => exact absurd bound (by simpa using more)
  | cons next later =>
      have inside : start ++ [next] <+: start ++ next :: later := ⟨later, by simp⟩
      refine longest next rfl ((starts_iff_length_le found inside).mpr ?_)
      rw [List.length_append, List.length_singleton]
      omega

end Lead

/-! ## Substitution -/

/-- Whether the characters are the text of the bytes: U+FFFD stands for each byte that starts no
character, and for each start of a character that breaks off, taken as long as it can be. -/
inductive Substituted : Bytes → List Char → Prop
  | nil : Substituted [] []
  | letter (letter : Char) {rest : Bytes} {text : List Char} (later : Substituted rest text) :
    Substituted (String.utf8EncodeChar letter ++ rest) (letter :: text)
  | stray {lead : UInt8} {rest : Bytes} {text : List Char} (strange : ¬ Starts [lead])
    (later : Substituted rest text) : Substituted (lead :: rest) (replacement :: text)
  | broken {part rest : Bytes} {text : List Char} (present : part ≠ []) (start : Starts part)
    (unfinished : ∀ letter, String.utf8EncodeChar letter ≠ part)
    (longest : ∀ next ∈ rest.head?, ¬ Starts (part ++ [next])) (later : Substituted rest text) :
    Substituted (part ++ rest) (replacement :: text)

theorem substitute_of_followers {lead : UInt8} {ranges : List Range} {rest : Bytes}
    (found : followers lead = some ranges) :
    substitute (lead :: rest) =
      (if fitting ranges rest = ranges.length then character lead (rest.take (fitting ranges rest))
        else replacement) :: substitute (rest.drop (fitting ranges rest)) := by
  rw [substitute, found]

theorem substitute_letter (letter : Char) (rest : Bytes) :
    substitute (String.utf8EncodeChar letter ++ rest) = letter :: substitute rest := by
  obtain ⟨lead, tail, spelled⟩ := List.exists_cons_of_ne_nil
    (String.utf8EncodeChar_ne_nil (c := letter))
  obtain ⟨ranges, found, admitted⟩ := followers_of_spelled spelled
  have row := row_of_followers found
  have count : fitting ranges (tail ++ rest) = tail.length := by
    refine fitting_eq_length found ⟨letter, spelled ▸ List.prefix_rfl⟩ ?_
    intro next follows starts
    obtain ⟨more, longer⟩ := (starts_cons_iff found).mp starts
    have counts := admitted.length_eq.symm.trans longer.length_eq
    simp at counts
  have same : character lead tail = letter :=
    utf8EncodeChar_injective ((utf8EncodeChar_character row admitted).trans spelled.symm)
  rw [spelled, List.cons_append, substitute_of_followers found, count,
    if_pos admitted.length_eq.symm, List.take_left, List.drop_left, same]

theorem substitute_stray {lead : UInt8} (strange : ¬ Starts [lead]) (rest : Bytes) :
    substitute (lead :: rest) = replacement :: substitute rest := by
  cases found : followers lead with
  | none => rw [substitute, found]
  | some ranges =>
      have starts := (starts_iff_length_le found (List.nil_prefix (l := rest))).mpr (Nat.zero_le _)
      exact absurd starts strange

theorem substitute_broken {part rest : Bytes} (present : part ≠ []) (starts : Starts part)
    (unfinished : ∀ letter, String.utf8EncodeChar letter ≠ part)
    (longest : ∀ next ∈ rest.head?, ¬ Starts (part ++ [next])) :
    substitute (part ++ rest) = replacement :: substitute rest := by
  obtain ⟨lead, start, rfl⟩ := List.exists_cons_of_ne_nil present
  cases found : followers lead with
  | none => exact absurd starts (not_starts found)
  | some ranges =>
      have count := fitting_eq_length found starts longest
      have short : start.length ≠ ranges.length := fun enough => by
        obtain ⟨letter, spelled⟩ := (spelled_iff_length found starts).mpr enough
        exact unfinished letter spelled
      rw [List.cons_append, substitute_of_followers found, count, if_neg short, List.drop_left]

theorem substituted_substitute (bytes : Bytes) : Substituted bytes (substitute bytes) := by
  fun_induction substitute bytes with
  | case1 => exact .nil
  | case2 lead rest found ih => exact .stray (not_starts found) ih
  | case3 lead rest ranges found count next ih =>
      have starts : Starts (lead :: rest.take count) := by
        refine (starts_iff_length_le found (List.take_prefix count rest)).mpr ?_
        exact List.length_take_le count rest
      have size : (rest.take count).length = count :=
        List.length_take_of_le (fitting_le_length ranges rest)
      have whole : lead :: rest = lead :: rest.take count ++ rest.drop count := by simp
      have spelled := spelled_iff_length found starts
      rw [size] at spelled
      rw [whole]
      by_cases enough : count = ranges.length
      · obtain ⟨letter, same⟩ := spelled.mpr enough
        have read : next = letter := by
          have head := substitute_letter letter (rest.drop count)
          rw [same, ← whole, substitute_of_followers found] at head
          exact (List.cons.inj head).1
        rw [read, ← same]
        exact .letter letter ih
      · have none : next = replacement := if_neg enough
        rw [none]
        refine .broken (List.cons_ne_nil _ _) starts ?_ ?_ ih
        · intro letter same
          exact enough (spelled.mp ⟨letter, same⟩)
        · intro following first longer
          have inside : rest.take count ++ [following] <+: rest := by
            obtain ⟨later, rest_eq⟩ := List.head?_eq_some_iff.mp first
            exact ⟨later, by rw [List.append_assoc, List.singleton_append, ← rest_eq,
              List.take_append_drop]⟩
          have bound := (starts_iff_length_le found inside).mp longer
          rw [List.length_append, size, List.length_singleton] at bound
          exact Nat.not_succ_le_self _ bound

theorem substitute_eq_iff {bytes : Bytes} {text : List Char} :
    substitute bytes = text ↔ Substituted bytes text := by
  constructor
  · rintro rfl
    exact substituted_substitute bytes
  · intro substituted
    induction substituted with
    | nil => rw [substitute]
    | letter letter later ih => rw [substitute_letter, ih]
    | stray strange later ih => rw [substitute_stray strange, ih]
    | broken present start unfinished longest later ih =>
        rw [substitute_broken present start unfinished longest, ih]

theorem encode_eq_flatMap (text : String) :
    encode text = text.toList.flatMap String.utf8EncodeChar := by
  rw [encode, String.toUTF8_eq_toByteArray]
  conv_lhs => rw [← String.ofList_toList (s := text)]
  rw [String.toByteArray_ofList, List.utf8Encode, List.data_toByteArray]

theorem substitute_encode (text : String) : String.ofList (substitute (encode text)) = text := by
  suffices ∀ letters : List Char, substitute (letters.flatMap String.utf8EncodeChar) = letters by
    rw [encode_eq_flatMap, this, String.ofList_toList]
  intro letters
  induction letters with
  | nil => rw [List.flatMap_nil, substitute]
  | cons letter letters ih => rw [List.flatMap_cons, substitute_letter, ih]

/-- The exact reading and the one with substitutions agree where both are there. -/
theorem decodeLossy_eq (bytes : Bytes) : decodeLossy bytes = String.ofList (substitute bytes) := by
  cases decoded : decode? bytes with
  | none => rw [decodeLossy, decoded, Option.getD_none]
  | some text =>
      rw [decodeLossy, decoded, Option.getD_some, ← encode_of_decode? decoded, substitute_encode]

end Utf8

end LogIntake
