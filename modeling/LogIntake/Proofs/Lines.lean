import Mathlib.Data.List.Forall2
import LogIntake.Output.Lines
import LogIntake.Proofs.Printing

/-!
# Lines of output

What splitting the output at its line breaks gives. As long as nothing fails these are the texts of
the entries, one a line (`entries_are_lines`). When writing an entry fails, what the stream took of
it stays and stands in front of the next entry that is written, on the same line
(`failed_writes_join_lines`).
-/
set_option autoImplicit false

namespace LogIntake.Output

/-! ## Texts of entries -/

theorem le_of_mem_entryText {entry : Entry} {byte : UInt8} (member : byte ∈ entryText entry) :
    0x20 ≤ byte.toNat :=
  Utf8.le_of_mem_encode (Json.plain_writeEntry entry) member

theorem lineBreak_notMem_entryText (entry : Entry) : lineBreak ∉ entryText entry := by
  intro member
  have least : 0x20 ≤ lineBreak.toNat := le_of_mem_entryText member
  have below : ¬ 0x20 ≤ lineBreak.toNat := by decide
  exact below least

/-! ## Attempts -/

structure Attempt where
  entry : Entry
  fate : Fate

namespace Attempt

def taken (attempt : Attempt) : Bytes := attempt.fate.taken attempt.entry

/-- Whether writing failed after the stream had taken some of the text. -/
def LeavesScraps (attempt : Attempt) : Prop := attempt.fate ≠ .whole ∧ attempt.taken ≠ []

variable {attempt : Attempt}

theorem taken_of_whole (whole : attempt.fate = .whole) :
    attempt.taken = entryText attempt.entry ++ [lineBreak] := by
  rw [taken, whole, Fate.taken]

theorem lineBreak_notMem_taken (fails : attempt.fate ≠ .whole) : lineBreak ∉ attempt.taken := by
  have free := lineBreak_notMem_entryText attempt.entry
  rw [taken]
  cases fate : attempt.fate with
  | whole => exact absurd fate fails
  | cut bytes => exact fun member => free (List.mem_of_mem_take member)
  | unbroken => exact free

end Attempt

/-- How a batch goes: all its entries are written, or those before one whose writing fails, and the
rest is left out. -/
inductive Course : Batch → List Attempt → Prop
  | through : Course [] []
  | written (entry : Entry) {rest : Batch} {attempts : List Attempt}
    (later : Course rest attempts) : Course (entry :: rest) (⟨entry, .whole⟩ :: attempts)
  | failed (entry : Entry) (rest : Batch) {fate : Fate} (fails : fate ≠ .whole) :
    Course (entry :: rest) [⟨entry, fate⟩]

theorem Course.map_entry {batch : Batch} {attempts : List Attempt} (course : Course batch attempts)
    (whole : ∀ attempt ∈ attempts, attempt.fate = .whole) :
    attempts.map Attempt.entry = batch := by
  induction course with
  | through => rfl
  | written entry later ih =>
      rw [List.map_cons, ih fun attempt member => whole attempt (List.mem_cons_of_mem _ member)]
  | failed entry rest fails => exact absurd (whole _ List.mem_cons_self) fails

theorem map_entry_flatten {batches : List Batch} {parts : List (List Attempt)}
    (courses : List.Forall₂ Course batches parts)
    (whole : ∀ attempt ∈ parts.flatten, attempt.fate = .whole) :
    parts.flatten.map Attempt.entry = batches.flatten := by
  induction courses with
  | nil => rfl
  | cons course courses ih =>
      rw [List.flatten_cons] at whole
      obtain ⟨here, later⟩ := List.forall_mem_append.mp whole
      rw [List.flatten_cons, List.flatten_cons, List.map_append, course.map_entry here, ih later]

def writtenOf (attempts : List Attempt) : List Entry :=
  (attempts.filter fun attempt => attempt.fate = .whole).map Attempt.entry

theorem writtenOf_cons_of_whole {attempt : Attempt} (whole : attempt.fate = .whole)
    (later : List Attempt) : writtenOf (attempt :: later) = attempt.entry :: writtenOf later := by
  simp [writtenOf, whole]

theorem writtenOf_cons_of_fails {attempt : Attempt} (fails : attempt.fate ≠ .whole)
    (later : List Attempt) : writtenOf (attempt :: later) = writtenOf later := by
  simp [writtenOf, fails]

/-- The lines that attempts complete where `scraps` of a line stand already. Each entry that is
written ends one. -/
def completed (scraps : Bytes) : List Attempt → List Bytes
  | [] => []
  | attempt :: later =>
    if attempt.fate = .whole then (scraps ++ entryText attempt.entry) :: completed [] later
    else completed (scraps ++ attempt.taken) later

/-- What stands after the last line break then. -/
def unfinished (scraps : Bytes) : List Attempt → Bytes
  | [] => scraps
  | attempt :: later =>
    if attempt.fate = .whole then unfinished [] later
    else unfinished (scraps ++ attempt.taken) later

theorem splitOn_taken {scraps : Bytes} (attempts : List Attempt) (free : lineBreak ∉ scraps) :
    (scraps ++ attempts.flatMap Attempt.taken).splitOn lineBreak =
      completed scraps attempts ++ [unfinished scraps attempts] := by
  induction attempts generalizing scraps with
  | nil =>
      rw [List.flatMap_nil, List.append_nil, List.splitOn_eq_singleton free]
      rfl
  | cons attempt later ih =>
      rw [List.flatMap_cons, completed, unfinished]
      by_cases whole : attempt.fate = .whole
      · have line : lineBreak ∉ scraps ++ entryText attempt.entry := by
          rw [List.mem_append, not_or]
          exact ⟨free, lineBreak_notMem_entryText attempt.entry⟩
        have bytes : scraps ++ (attempt.taken ++ later.flatMap Attempt.taken) =
            scraps ++ entryText attempt.entry ++ lineBreak :: later.flatMap Attempt.taken := by
          rw [Attempt.taken_of_whole whole]
          simp only [List.append_assoc, List.singleton_append]
        have rest : (later.flatMap Attempt.taken).splitOn lineBreak =
            completed [] later ++ [unfinished [] later] := ih List.not_mem_nil
        rw [if_pos whole, if_pos whole, bytes, List.splitOn_append_cons_self_of_not_mem line, rest,
          List.cons_append]
      · have more : lineBreak ∉ scraps ++ attempt.taken := by
          rw [List.mem_append, not_or]
          exact ⟨free, Attempt.lineBreak_notMem_taken whole⟩
        rw [if_neg whole, if_neg whole, ← List.append_assoc, ih more]

theorem forall₂_completed (scraps : Bytes) (attempts : List Attempt) :
    List.Forall₂ (fun entry line => entryText entry <:+ line) (writtenOf attempts)
      (completed scraps attempts) := by
  induction attempts generalizing scraps with
  | nil => exact .nil
  | cons attempt later ih =>
      rw [completed]
      by_cases whole : attempt.fate = .whole
      · rw [writtenOf_cons_of_whole whole, if_pos whole]
        exact .cons (List.suffix_append scraps _) (ih [])
      · rw [writtenOf_cons_of_fails whole, if_neg whole]
        exact ih _

theorem completed_of_whole {attempts : List Attempt}
    (whole : ∀ attempt ∈ attempts, attempt.fate = .whole) :
    completed [] attempts = (attempts.map Attempt.entry).map entryText ∧
      unfinished [] attempts = [] := by
  induction attempts with
  | nil => exact ⟨rfl, rfl⟩
  | cons attempt later ih =>
      obtain ⟨here, others⟩ := List.forall_mem_cons.mp whole
      obtain ⟨lines, rest⟩ := ih others
      rw [completed, unfinished, if_pos here, if_pos here, lines, rest, List.nil_append,
        List.map_cons, List.map_cons]
      exact ⟨rfl, rfl⟩

theorem completed_eq_iff (scraps : Bytes) (attempts : List Attempt) :
    completed scraps attempts = (writtenOf attempts).map entryText ↔
      (scraps ≠ [] → ∀ attempt ∈ attempts, attempt.fate ≠ .whole) ∧
      attempts.Pairwise fun earlier later => earlier.LeavesScraps → later.fate ≠ .whole := by
  induction attempts generalizing scraps with
  | nil => simp [completed, writtenOf]
  | cons attempt later ih =>
      rw [completed, List.pairwise_cons, List.forall_mem_cons]
      by_cases whole : attempt.fate = .whole
      · have clean : ¬ attempt.LeavesScraps := fun leaves => leaves.1 whole
        rw [writtenOf_cons_of_whole whole, if_pos whole, List.map_cons, List.cons.injEq,
          List.append_left_eq_self, ih]
        constructor
        · rintro ⟨none, -, pairwise⟩
          exact ⟨fun some => absurd none some, fun _ _ leaves => absurd leaves clean, pairwise⟩
        · rintro ⟨alone, -, pairwise⟩
          have none : scraps = [] := by
            by_contra some
            exact (alone some).1 whole
          exact ⟨none, fun some => absurd rfl some, pairwise⟩
      · rw [writtenOf_cons_of_fails whole, if_neg whole, ih]
        constructor
        · rintro ⟨alone, pairwise⟩
          refine ⟨fun some => ⟨whole, ?_⟩, fun other member leaves => ?_, pairwise⟩
          · exact alone (List.append_ne_nil_of_left_ne_nil some _)
          · exact alone (List.append_ne_nil_of_right_ne_nil _ leaves.2) other member
        · rintro ⟨alone, after, pairwise⟩
          refine ⟨fun some other member => ?_, pairwise⟩
          by_cases none : scraps = []
          · rw [none, List.nil_append] at some
            exact after other member ⟨whole, some⟩
          · exact (alone none).2 other member

/-! ## Streams -/

namespace Lines

variable {fates : Nat → Fate} {before middle after : Lines}

/-- Whether a stream goes from `before` to `after` by these attempts. -/
structure Makes (fates : Nat → Fate) (before : Lines) (attempts : List Attempt) (after : Lines) :
    Prop where
  fated : attempts.map Attempt.fate = (List.range' before.begun attempts.length).map fates
  content : after.content = before.content ++ attempts.flatMap Attempt.taken
  begun : after.begun = before.begun + attempts.length

namespace Makes

theorem nil : Makes fates before [] before where
  fated := rfl
  content := (List.append_nil _).symm
  begun := rfl

theorem append {attempts more : List Attempt} (first : Makes fates before attempts middle)
    (second : Makes fates middle more after) : Makes fates before (attempts ++ more) after where
  fated := by
    rw [List.map_append, first.fated, second.fated, first.begun, ← List.map_append,
      List.range'_append_1, List.length_append]
  content := by rw [second.content, first.content, List.flatMap_append, List.append_assoc]
  begun := by rw [second.begun, first.begun, List.length_append, Nat.add_assoc]

theorem write (fates : Nat → Fate) (before : Lines) (entry : Entry) :
    Makes fates before [⟨entry, fates before.begun⟩]
      (before.write (fates before.begun) entry) where
  fated := rfl
  content := by
    rw [content_write, List.flatMap_singleton]
    rfl
  begun := rfl

theorem flush {attempts : List Attempt} (makes : Makes fates before attempts after)
    (flushes : Nat) : Makes fates before attempts { after with flushes := flushes } where
  fated := makes.fated
  content := makes.content
  begun := makes.begun

end Makes

theorem exists_course (fates : Nat → Fate) (lines : Lines) (batch : Batch) :
    ∃ attempts, Course batch attempts ∧
      Makes fates lines attempts (lines.writeEntries fates batch) := by
  induction batch generalizing lines with
  | nil => exact ⟨[], .through, .nil⟩
  | cons entry rest ih =>
      have first := Makes.write fates lines entry
      by_cases whole : fates lines.begun = .whole
      · obtain ⟨attempts, course, makes⟩ := ih (lines.write (fates lines.begun) entry)
        have all := first.append makes
        rw [writeEntries, if_pos whole]
        rw [List.singleton_append] at all
        refine ⟨_, ?_, all⟩
        rw [whole]
        exact .written entry course
      · rw [writeEntries, if_neg whole]
        exact ⟨_, .failed entry rest whole, first⟩

theorem exists_courses (fates : Nat → Fate) (lines : Lines) (batches : List Batch) :
    ∃ parts, List.Forall₂ Course batches parts ∧
      Makes fates lines parts.flatten (lines.writeBatches fates batches) := by
  induction batches generalizing lines with
  | nil => exact ⟨[], .nil, .nil⟩
  | cons batch rest ih =>
      obtain ⟨attempts, course, makes⟩ := exists_course fates lines batch
      have here := makes.flush ((lines.writeEntries fates batch).flushes + 1)
      obtain ⟨parts, courses, later⟩ := ih (lines.writeBatch fates batch)
      exact ⟨attempts :: parts, .cons course courses, here.append later⟩

/-- Whether one stream holds some bytes and then what the other holds, and counts on from there. -/
structure Continues (start : Bytes) (count : Nat) (lines other : Lines) : Prop where
  content : lines.content = start ++ other.content
  begun : lines.begun = count + other.begun

theorem Continues.writeEntries {start : Bytes} {count : Nat} {lines other : Lines}
    (continues : Continues start count lines other) (fates : Nat → Fate) (batch : Batch) :
    Continues start count (lines.writeEntries fates batch)
      (other.writeEntries (fun number => fates (count + number)) batch) := by
  induction batch generalizing lines other with
  | nil => exact continues
  | cons entry rest ih =>
      have next : Continues start count (lines.write (fates lines.begun) entry)
          (other.write (fates lines.begun) entry) := by
        refine ⟨?_, ?_⟩
        · rw [content_write, content_write, continues.content, List.append_assoc]
        · exact congrArg Nat.succ continues.begun
      rw [Lines.writeEntries, Lines.writeEntries, ← continues.begun]
      split
      · exact ih next
      · exact next

theorem Continues.writeBatches {start : Bytes} {count : Nat} {lines other : Lines}
    (continues : Continues start count lines other) (fates : Nat → Fate) (batches : List Batch) :
    Continues start count (lines.writeBatches fates batches)
      (other.writeBatches (fun number => fates (count + number)) batches) := by
  induction batches generalizing lines other with
  | nil => exact continues
  | cons batch rest ih =>
      obtain ⟨content, begun⟩ := continues.writeEntries fates batch
      exact ih ⟨content, begun⟩

theorem content_writeBatches (fates : Nat → Fate) (lines : Lines) (batches : List Batch) :
    (lines.writeBatches fates batches).content = lines.content ++
      (writeBatches (fun number => fates (lines.begun + number)) {} batches).content := by
  have start : Continues lines.content lines.begun lines {} := ⟨(List.append_nil _).symm, rfl⟩
  exact (start.writeBatches fates batches).content

/-- The text of an entry has no byte below 0x20, and as long as nothing fails the output is the
texts of all entries, batch after batch, each on a line, and nothing after the last line break. -/
theorem entries_are_lines :
    (∀ entry, ∀ byte ∈ entryText entry, 0x20 ≤ byte.toNat) ∧
    ∀ batches : List Batch, (writeBatches (fun _ => .whole) {} batches).content.splitOn lineBreak =
      batches.flatten.map entryText ++ [[]] := by
  refine ⟨fun entry byte member => le_of_mem_entryText member, fun batches => ?_⟩
  obtain ⟨parts, courses, makes⟩ := exists_courses (fun _ => .whole) {} batches
  have whole : ∀ attempt ∈ parts.flatten, attempt.fate = .whole := by
    intro attempt member
    have inside := List.mem_map_of_mem (f := Attempt.fate) member
    rw [makes.fated] at inside
    obtain ⟨number, -, same⟩ := List.mem_map.mp inside
    exact same.symm
  have entries := map_entry_flatten courses whole
  have split := splitOn_taken parts.flatten (List.not_mem_nil (a := lineBreak))
  obtain ⟨lines, rest⟩ := completed_of_whole whole
  rw [lines, rest, entries] at split
  rw [makes.content]
  exact split

/-- Line breaks and quotes in a tag, a key and a text stay inside the line. -/
example : entryText ⟨"a\n\"", 7, [("k\n\"", .text "\n\"")]⟩ =
    Utf8.encode ("\x7b\"tag\":\"a\\n\\\"\",\"timestamp\":7," ++
      "\"data\":\x7b\"k\\n\\\"\":\"\\n\\\"\"\x7d\x7d") := by
  decide

/-- What becomes of the lines when writing fails, at whatever entries and after whatever part of
their texts. A batch is written up to the first entry that fails, which costs this entry and those
after it in the batch, and what the batches after it add is what they would make on a new stream.
Every entry that was written ends a line, in order, and no other line is complete. But its text has
the line to itself, for all of them, exactly if nothing is written after an entry that failed when
the stream had taken some of it: the next one that is written stands on the same line. -/
theorem failed_writes_join_lines (fates : Nat → Fate) (batches : List Batch) :
    let content := (writeBatches fates {} batches).content
    (∃ parts, List.Forall₂ Course batches parts ∧
      let attempts := parts.flatten
      attempts.map Attempt.fate = (List.range attempts.length).map fates ∧
      content.splitOn lineBreak = completed [] attempts ++ [unfinished [] attempts] ∧
      List.Forall₂ (fun entry line => entryText entry <:+ line) (writtenOf attempts)
        (completed [] attempts) ∧
      (((writtenOf attempts).map entryText).Sublist (completed [] attempts) ↔
        attempts.Pairwise fun earlier later => earlier.LeavesScraps → later.fate ≠ .whole)) ∧
    ∀ earlier later, batches = earlier ++ later →
      let before := writeBatches fates {} earlier
      content = before.content ++
        (writeBatches (fun number => fates (before.begun + number)) {} later).content := by
  dsimp only
  constructor
  · obtain ⟨parts, courses, makes⟩ := exists_courses fates {} batches
    have split := splitOn_taken parts.flatten (List.not_mem_nil (a := lineBreak))
    have lines := forall₂_completed [] parts.flatten
    have alone := completed_eq_iff [] parts.flatten
    have count : ((writtenOf parts.flatten).map entryText).length =
        (completed [] parts.flatten).length := by
      rw [List.length_map, lines.length_eq]
    refine ⟨parts, courses, ?_, ?_, lines, ?_⟩
    · rw [makes.fated, List.range_eq_range']
    · rw [makes.content]
      exact split
    · calc
        _ ↔ completed [] parts.flatten = (writtenOf parts.flatten).map entryText :=
            ⟨fun inside => (inside.eq_of_length count).symm, fun same => same ▸ List.Sublist.refl _⟩
        _ ↔ _ := by simp [alone]
  · rintro earlier later rfl
    have more := content_writeBatches fates (writeBatches fates {} earlier) later
    rw [← more]
    exact congrArg content (List.foldl_append ..)

/-- The stream fails at the first line break, and the second entry, which is written, has no line of
its own. -/
theorem entry_after_failed_line_break_is_not_alone :
    let fates : Nat → Fate := fun number => if number = 0 then .unbroken else .whole
    let first : Entry := ⟨"a", 1, []⟩
    let second : Entry := ⟨"b", 2, []⟩
    (writeBatches fates {} [[first], [second]]).content.splitOn lineBreak =
        [entryText first ++ entryText second, []] ∧
      entryText second ∉ [entryText first ++ entryText second, []] := by
  decide

end Lines

end LogIntake.Output
