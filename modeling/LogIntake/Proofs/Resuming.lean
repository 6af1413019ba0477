import Mathlib.Data.List.Chain
import Mathlib.Data.List.Forall2
import LogIntake.Proofs.Finality
import LogIntake.Proofs.Settling

/-!
# Resuming a scanner

A scanner that is called again and again on a buffer that grows, as long as it answers that the
frame is incomplete. Each call leaves the scanner, and gives the answer, that a fresh scanner would
(`calls_eq_map`), although it walks only over what the calls before it did not finish. How far the
scanner came is within the buffer (`offset_le_length`) and never less than before
(`offset_le_offset`).
-/
set_option autoImplicit false

namespace LogIntake.Frame.Scanner

def calls (scanner : Scanner) : List Bytes → List (Scanner × Parsed)
  | [] => []
  | buffer :: later => scanner.parse buffer :: calls (scanner.parse buffer).1 later

theorem offset_le_of_walk {scanner after : Scanner} {bytes : Bytes} {met : Scan}
    (run : scanner.walk bytes = (after, met)) : scanner.offset ≤ after.offset := by
  fun_induction walk scanner bytes with
  | case1 scanner bytes done => cases run; exact Nat.le_refl _
  | case2 scanner due => cases run; exact Nat.le_refl _
  | case3 scanner due first rest shape => cases run; exact Nat.le_refl _
  | case4 scanner due first rest layout shape missing => cases run; exact Nat.le_refl _
  | case5 scanner due first rest layout shape extent found pending ih =>
      have further := ih run
      dsimp only at further
      omega

theorem parse_of_decided {scanner : Scanner} {buffer : Bytes}
    (decided : (scanner.parse buffer).2 ≠ .incomplete) : (scanner.parse buffer).1 = {} := by
  rw [Scanner.parse] at decided ⊢
  rcases run : scanner.scan buffer with ⟨after, met⟩
  rw [run] at decided
  cases met with
  | incomplete => exact absurd rfl decided
  | reserved position => rfl
  | complete stop => rfl

theorem offset_le_of_parse {scanner : Scanner} {buffer : Bytes}
    (waits : (scanner.parse buffer).2 = .incomplete) :
    scanner.offset ≤ (scanner.parse buffer).1.offset := by
  rw [Scanner.parse] at waits ⊢
  rcases run : scanner.scan buffer with ⟨after, met⟩
  rw [run] at waits
  cases met with
  | incomplete => exact offset_le_of_walk run
  | reserved position => cases waits
  | complete stop => exact absurd waits (parseItem_ne_incomplete _)

theorem Resumes.of_grown {scanner : Scanner} {start buffer : Bytes}
    (resumes : Resumes scanner start) (grown : start <+: buffer) : Resumes scanner buffer := by
  obtain ⟨piece, rfl⟩ := grown
  exact resumes.append piece

theorem Resumes.offset_le {scanner : Scanner} {buffer : Bytes} (resumes : Resumes scanner buffer) :
    scanner.offset ≤ buffer.length := by
  obtain ⟨walked, left, rfl, offset, -⟩ := resumes
  rw [offset, List.length_append]
  exact Nat.le_add_right _ _

theorem resumes_parse (buffer : Bytes) : Resumes (Scanner.parse {} buffer).1 buffer := by
  obtain ⟨after, run, ⟨-, resumes⟩ | ⟨-, rfl⟩⟩ := parse_cases buffer
  · rw [run]
    exact resumes
  · rw [run]
    exact resumes_fresh buffer

theorem offset_le_length (buffer : Bytes) :
    (Scanner.parse {} buffer).1.offset ≤ buffer.length :=
  (resumes_parse buffer).offset_le

theorem offset_le_offset {start buffer : Bytes} (grown : start <+: buffer)
    (waits : (Scanner.parse {} buffer).2 = .incomplete) :
    (Scanner.parse {} start).1.offset ≤ (Scanner.parse {} buffer).1.offset := by
  have same := ((resumes_parse start).of_grown grown).parse
  rw [← same] at waits ⊢
  exact offset_le_of_parse waits

/-- A scanner that went on after every call answers like a fresh one, and stands where a fresh one
would. -/
theorem calls_eq_map {scanner : Scanner} {start : Bytes} (resumes : Resumes scanner start)
    {buffers : List Bytes} {last : Bytes}
    (grows : (start :: (buffers ++ [last])).IsChain (· <+: ·))
    (waits : ∀ call ∈ calls scanner buffers, call.2 = .incomplete) :
    calls scanner (buffers ++ [last]) = (buffers ++ [last]).map (Scanner.parse {}) := by
  -- For every scanner that resumes, as each call hands such a scanner to the next one.
  induction buffers generalizing scanner start with
  | nil =>
      have same := (resumes.of_grown (List.isChain_cons_cons.mp grows).1).parse
      rw [List.nil_append, calls, calls, same]
      rfl
  | cons buffer later ih =>
      obtain ⟨grown, grows⟩ := List.isChain_cons_cons.mp grows
      have same := (resumes.of_grown grown).parse
      rw [calls, same] at waits
      have rest := ih (resumes_parse buffer) grows fun call member =>
        waits call (List.mem_cons_of_mem _ member)
      rw [List.cons_append, calls, same, rest]
      rfl

/-- A scanner that is called on a buffer again while it grows answers like one that starts over.
It comes as far as that one would, never less far than before, and starts afresh after any answer
but `incomplete`. -/
theorem resuming_equals_starting_over (buffers : List Bytes) (last : Bytes)
    (grows : (buffers ++ [last]).IsChain (· <+: ·))
    (waits : ∀ call ∈ calls {} buffers, call.2 = .incomplete) :
    let all := calls {} (buffers ++ [last])
    all.getLast?.map Prod.snd = some (Frame.parse last) ∧
    all = (buffers ++ [last]).map (Scanner.parse {}) ∧
    List.Forall₂ (fun call buffer => call.1.offset ≤ buffer.length) all (buffers ++ [last]) ∧
    all.Pairwise (fun one other => other.2 = .incomplete → one.1.offset ≤ other.1.offset) ∧
    ∀ (scanner : Scanner) (buffer : Bytes),
      (scanner.parse buffer).2 ≠ .incomplete → (scanner.parse buffer).1 = {} := by
  intro all
  have fresh : all = (buffers ++ [last]).map (Scanner.parse {}) := by
    refine calls_eq_map (resumes_fresh []) ?_ waits
    exact grows.cons fun buffer _ => List.nil_prefix
  rw [fresh]
  refine ⟨?_, rfl, ?_, ?_, fun scanner buffer => parse_of_decided⟩
  · rw [List.map_append, List.map_singleton, List.getLast?_concat]
    rfl
  · rw [List.forall₂_map_left_iff, List.forall₂_same]
    intro buffer _
    exact offset_le_length buffer
  · have extends_trans : Trans (α := Bytes) (· <+: ·) (· <+: ·) (· <+: ·) :=
      ⟨List.IsPrefix.trans⟩
    rw [List.pairwise_map]
    refine grows.pairwise.imp ?_
    intro start buffer grown
    exact offset_le_offset grown

theorem frame_in_three_pieces_resumes :
    ([[0x93, 0xa1], [0x93, 0xa1, 0x74, 0x01, 0x81]] ++
      [[0x93, 0xa1, 0x74, 0x01, 0x81, 0xa1, 0x6b, 0xc0]] : List Bytes).IsChain (· <+: ·) ∧
    (∀ call ∈ calls {} [[0x93, 0xa1], [0x93, 0xa1, 0x74, 0x01, 0x81]], call.2 = .incomplete) ∧
    (calls {} ([[0x93, 0xa1], [0x93, 0xa1, 0x74, 0x01, 0x81]] ++
      [[0x93, 0xa1, 0x74, 0x01, 0x81, 0xa1, 0x6b, 0xc0]])).getLast?.map Prod.snd =
        some (.complete (.message "t" ⟨1, [("k", .nil)]⟩) 8) := by
  have grows : ([[0x93, 0xa1], [0x93, 0xa1, 0x74, 0x01, 0x81]] ++
      [[0x93, 0xa1, 0x74, 0x01, 0x81, 0xa1, 0x6b, 0xc0]] : List Bytes).IsChain (· <+: ·) := by
    decide
  have first : Scanner.parse {} [0x93, 0xa1] = (⟨1, 3⟩, .incomplete) := by
    rw [Scanner.parse, show Scanner.scan {} _ = (⟨1, 3⟩, .incomplete) by decide +kernel]
  have second : Scanner.parse ⟨1, 3⟩ [0x93, 0xa1, 0x74, 0x01, 0x81] = (⟨5, 2⟩, .incomplete) := by
    rw [Scanner.parse, show Scanner.scan ⟨1, 3⟩ _ = (⟨5, 2⟩, .incomplete) by decide +kernel]
  have waits : ∀ call ∈ calls {} [[0x93, 0xa1], [0x93, 0xa1, 0x74, 0x01, 0x81]],
      call.2 = .incomplete := by
    rw [calls, first, calls, second, calls]
    simp
  have whole : Frame.parse [0x93, 0xa1, 0x74, 0x01, 0x81, 0xa1, 0x6b, 0xc0] =
      .complete (.message "t" ⟨1, [("k", .nil)]⟩) 8 :=
    parse_eq_complete.mpr (set_option maxRecDepth 1024 in ⟨_, rfl, rfl⟩)
  have resumed := (resuming_equals_starting_over _ _ grows waits).1
  rw [whole] at resumed
  exact ⟨grows, waits, resumed⟩

end LogIntake.Frame.Scanner
