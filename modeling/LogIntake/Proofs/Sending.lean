import Mathlib.Algebra.Ring.Nat
import LogIntake.Load.Send

/-!
# Sending to the end

A write that is taken, if only in part, or fails for a while, leaves the rest to be sent
(`send_goesOn`). So bytes are sent to the end when enough such writes are made
(`send_of_seenThrough`). Any other write is the last (`send_stops`). What was accepted and what
remains always make up the bytes (`exists_left`), and sending goes on from there
(`send_append_of_pending`).
-/
set_option autoImplicit false

namespace LogIntake.Load

def WriteOutcome.GoesOn : WriteOutcome → Prop
  | accepted count => 0 < count
  | failed cause => cause.severity = .temporary

instance (outcome : WriteOutcome) : Decidable outcome.GoesOn :=
  match outcome with
  | .accepted count => inferInstanceAs (Decidable (0 < count))
  | .failed cause => inferInstanceAs (Decidable (cause.severity = .temporary))

def WriteOutcome.taken : WriteOutcome → Nat
  | accepted count => count
  | failed _ => 0

/-- Whether these outcomes see that many bytes through: before any write fails for good, the stream
has room for all of them. -/
def SeenThrough (count : Nat) (outcomes : List WriteOutcome) : Prop :=
  ∃ used, used <+: outcomes ∧ (∀ outcome ∈ used, outcome.GoesOn) ∧
    count ≤ (used.map WriteOutcome.taken).sum

theorem send_nil (outcomes : List WriteOutcome) : send [] outcomes = ⟨[], .done, outcomes⟩ := by
  cases outcomes <;> simp [send]

theorem send_goesOn {outcome : WriteOutcome} (goes : outcome.GoesOn) {bytes : Bytes}
    (present : bytes ≠ []) (rest : List WriteOutcome) :
    send bytes (outcome :: rest) =
      { send (bytes.drop outcome.taken) rest with
        accepted :=
          bytes.take outcome.taken ++ (send (bytes.drop outcome.taken) rest).accepted } := by
  cases outcome with
  | accepted count =>
      cases count with
      | zero => exact absurd goes (Nat.lt_irrefl 0)
      | succ count =>
          rw [send, if_neg present]
          · rfl
          · exact Nat.succ_ne_zero count
  | failed cause =>
      have temporary : cause.severity = .temporary := goes
      rw [send, if_neg present]
      simp only [temporary, WriteOutcome.taken, List.drop_zero, List.take_zero, List.nil_append]

theorem send_append {used : List WriteOutcome} (goes : ∀ outcome ∈ used, outcome.GoesOn)
    {bytes : Bytes} (enough : bytes.length ≤ (used.map WriteOutcome.taken).sum)
    (unused : List WriteOutcome) :
    (send bytes (used ++ unused)).accepted = bytes ∧
      (send bytes (used ++ unused)).result = .done := by
  induction used generalizing bytes with
  | nil =>
      obtain rfl := List.length_eq_zero_iff.mp (Nat.le_zero.mp enough)
      rw [send_nil]
      exact ⟨rfl, rfl⟩
  | cons outcome rest ih =>
      by_cases present : bytes = []
      · rw [present, send_nil]
        exact ⟨rfl, rfl⟩
      · rw [List.map_cons, List.sum_cons] at enough
        have left : (bytes.drop outcome.taken).length ≤ (rest.map WriteOutcome.taken).sum := by
          rw [List.length_drop]
          omega
        have later := ih (fun other member => goes other (List.mem_cons_of_mem _ member)) left
        rw [List.cons_append, send_goesOn (goes outcome List.mem_cons_self) present, later.1]
        exact ⟨List.take_append_drop _ _, later.2⟩

theorem send_of_seenThrough {bytes : Bytes} {outcomes : List WriteOutcome}
    (through : SeenThrough bytes.length outcomes) :
    (send bytes outcomes).accepted = bytes ∧ (send bytes outcomes).result = .done := by
  obtain ⟨used, ⟨unused, rfl⟩, goes, enough⟩ := through
  exact send_append goes enough unused

/-! ## Where sending stands -/

def WriteOutcome.cause : WriteOutcome → Transport.Failure
  | accepted _ => .writeZero
  | failed cause => cause

theorem send_stops {outcome : WriteOutcome} (stops : ¬ outcome.GoesOn) {bytes : Bytes}
    (present : bytes ≠ []) (rest : List WriteOutcome) :
    send bytes (outcome :: rest) = ⟨[], .failed outcome.cause, rest⟩ := by
  cases outcome with
  | accepted count =>
      obtain rfl : count = 0 := Nat.eq_zero_of_not_pos stops
      simp [send, present, WriteOutcome.cause]
  | failed cause =>
      have lasting : cause.severity ≠ .temporary := stops
      rw [send, if_neg present]
      cases graded : cause.severity with
      | temporary => exact absurd graded lasting
      | endOfStream => rfl
      | fatal => rfl

def Sent.Leaves : Sent → Bytes → Prop
  | done, rest => rest = []
  | failed _, rest => rest ≠ []
  | pending left, rest => left = rest ∧ rest ≠ []

theorem exists_left (bytes : Bytes) (writes : List WriteOutcome) :
    ∃ rest, (send bytes writes).accepted ++ rest = bytes ∧
      (send bytes writes).result.Leaves rest := by
  induction writes generalizing bytes with
  | nil =>
      by_cases present : bytes = []
      · exact ⟨[], by simp [send, present], by simp [send, present, Sent.Leaves]⟩
      · exact ⟨bytes, by simp [send], by simp [send, present, Sent.Leaves]⟩
  | cons outcome later ih =>
      by_cases present : bytes = []
      · rw [present, send_nil]
        exact ⟨[], rfl, rfl⟩
      · by_cases goes : outcome.GoesOn
        · obtain ⟨rest, whole, leaves⟩ := ih (bytes.drop outcome.taken)
          rw [send_goesOn goes present]
          refine ⟨rest, ?_, leaves⟩
          rw [List.append_assoc, whole, List.take_append_drop]
        · rw [send_stops goes present]
          exact ⟨bytes, rfl, present⟩

theorem accepted_append_of_pending {bytes rest : Bytes} {writes : List WriteOutcome}
    (pending : (send bytes writes).result = .pending rest) :
    (send bytes writes).accepted ++ rest = bytes ∧ rest ≠ [] := by
  obtain ⟨left, whole, leaves⟩ := exists_left bytes writes
  rw [pending] at leaves
  obtain ⟨rfl, present⟩ := leaves
  exact ⟨whole, present⟩

theorem result_eq_done_iff (bytes : Bytes) (writes : List WriteOutcome) :
    (send bytes writes).result = .done ↔ (send bytes writes).accepted = bytes := by
  obtain ⟨left, whole, leaves⟩ := exists_left bytes writes
  constructor
  · intro finished
    rw [finished] at leaves
    obtain rfl : left = [] := leaves
    rwa [List.append_nil] at whole
  · intro all
    rw [all, List.append_right_eq_self] at whole
    cases stands : (send bytes writes).result with
    | done => rfl
    | failed cause =>
        rw [stands] at leaves
        exact absurd whole leaves
    | pending rest =>
        rw [stands] at leaves
        exact absurd whole leaves.2

theorem send_append_of_pending {bytes rest : Bytes} {writes : List WriteOutcome}
    (pending : (send bytes writes).result = .pending rest) (later : List WriteOutcome) :
    send bytes (writes ++ later) =
      { send rest later with
        accepted := (send bytes writes).accepted ++ (send rest later).accepted } := by
  induction writes generalizing bytes with
  | nil =>
      by_cases present : bytes = []
      · simp [send, present] at pending
      · obtain rfl : bytes = rest := by simpa [send, present] using pending
        rfl
  | cons outcome others ih =>
      by_cases present : bytes = []
      · rw [present, send_nil] at pending
        cases pending
      · by_cases goes : outcome.GoesOn
        · rw [send_goesOn goes present] at pending
          rw [List.cons_append, send_goesOn goes present, send_goesOn goes present, ih pending]
          simp only [List.append_assoc]
        · rw [send_stops goes present] at pending
          cases pending

theorem send_append_of_ended {bytes : Bytes} {writes : List WriteOutcome}
    (ended : ∀ rest, (send bytes writes).result ≠ .pending rest) (later : List WriteOutcome) :
    send bytes (writes ++ later) =
      { send bytes writes with unused := (send bytes writes).unused ++ later } := by
  induction writes generalizing bytes with
  | nil =>
      by_cases present : bytes = []
      · rw [present, send_nil, send_nil]
      · exact absurd (by simp [send, present]) (ended bytes)
  | cons outcome others ih =>
      by_cases present : bytes = []
      · rw [present, send_nil, send_nil]
      · by_cases goes : outcome.GoesOn
        · rw [send_goesOn goes present] at ended
          rw [List.cons_append, send_goesOn goes present, send_goesOn goes present, ih ended]
        · rw [List.cons_append, send_stops goes present, send_stops goes present]

theorem send_append_of_stops {bytes rest : Bytes} {writes : List WriteOutcome}
    (pending : (send bytes writes).result = .pending rest) {outcome : WriteOutcome}
    (stops : ¬ outcome.GoesOn) (later : List WriteOutcome) :
    send bytes (writes ++ outcome :: later) =
      ⟨(send bytes writes).accepted, .failed outcome.cause, later⟩ := by
  rw [send_append_of_pending pending, send_stops stops (accepted_append_of_pending pending).2,
    List.append_nil]

/-- Sending never loses its place. Nothing is accepted before the first write. After any writes the
stream has accepted a start of the bytes, and all of them if and only if sending is done. While it
is pending, what remains are the bytes after that start: a write that is taken moves the place by as
much, a temporary failure leaves it where it is, and a write that takes nothing or fails for good
ends sending there, with the failure as it was and no further write. Nothing is written once sending
has ended, nor of no bytes at all. -/
theorem sending_keeps_its_place (bytes : Bytes) (writes : List WriteOutcome) :
    (bytes ≠ [] → send bytes [] = ⟨[], .pending bytes, []⟩) ∧
    (send bytes writes).accepted <+: bytes ∧
    ((send bytes writes).result = .done ↔ (send bytes writes).accepted = bytes) ∧
    (∀ rest, (send bytes writes).result = .pending rest →
      (send bytes writes).accepted ++ rest = bytes ∧ rest ≠ [] ∧
      (∀ count, 0 < count →
        (send bytes (writes ++ [.accepted count])).accepted =
          (send bytes writes).accepted ++ rest.take count ∧
        (send bytes (writes ++ [.accepted count])).result =
          if rest.drop count = [] then .done else .pending (rest.drop count)) ∧
      (∀ cause later, cause.severity = .temporary →
        send bytes (writes ++ .failed cause :: later) = send bytes (writes ++ later)) ∧
      (∀ later, send bytes (writes ++ .accepted 0 :: later) =
        ⟨(send bytes writes).accepted, .failed .writeZero, later⟩) ∧
      (∀ cause later, cause.severity ≠ .temporary →
        send bytes (writes ++ .failed cause :: later) =
          ⟨(send bytes writes).accepted, .failed cause, later⟩)) ∧
    ((∀ rest, (send bytes writes).result ≠ .pending rest) → ∀ later,
      send bytes (writes ++ later) =
        { send bytes writes with unused := (send bytes writes).unused ++ later }) ∧
    send [] writes = ⟨[], .done, writes⟩ := by
  refine ⟨?_, ?_, result_eq_done_iff bytes writes, ?_, send_append_of_ended, send_nil writes⟩
  · intro present
    simp [send, present]
  · obtain ⟨rest, whole, -⟩ := exists_left bytes writes
    exact ⟨rest, whole⟩
  · intro rest pending
    obtain ⟨whole, present⟩ := accepted_append_of_pending pending
    refine ⟨whole, present, ?_, ?_, ?_, ?_⟩
    · intro count positive
      have goes : (WriteOutcome.accepted count).GoesOn := positive
      rw [send_append_of_pending pending, send_goesOn goes present]
      simp [send, WriteOutcome.taken]
    · intro cause later temporary
      have goes : (WriteOutcome.failed cause).GoesOn := temporary
      rw [send_append_of_pending pending, send_append_of_pending pending, send_goesOn goes present]
      simp [WriteOutcome.taken]
    · intro later
      have stops : ¬ (WriteOutcome.accepted 0).GoesOn := Nat.lt_irrefl 0
      exact send_append_of_stops pending stops later
    · intro cause later lasting
      have stops : ¬ (WriteOutcome.failed cause).GoesOn := lasting
      exact send_append_of_stops pending stops later

end LogIntake.Load
