import Mathlib.Data.List.Induction
import LogIntake.Proofs.Identifiers

/-!
# Histories of a registry

What a registry holds after any events is told from the events alone (`Follows`): which
registrations are held, and which of them were told to close. One event keeps this
(`Follows.step`), so a run does (`follows_run`).
-/
set_option autoImplicit false

namespace LogIntake.Registry

/-! ## Events -/

inductive Event where
  | register
  | drop (id : ConnectionId)
  | closeAll
  deriving DecidableEq, Repr

def step (registry : Registry) : Event → Registry
  | .register => registry.register.2
  | .drop id => registry.deregister id
  | .closeAll => registry.tellAll.2

def run (events : List Event) : Registry := events.foldl step {}

def handedOut : Registry → List Event → List ConnectionId
  | _, [] => []
  | registry, .register :: events =>
    registry.register.1 :: handedOut (registry.step .register) events
  | registry, event :: events => handedOut (registry.step event) events

def registrations (events : List Event) : Nat := events.count .register

def drops (events : List Event) : Nat :=
  events.countP fun event => event matches .drop _

/-- Whether the identifier was given to a registration that was not dropped since. -/
def Held (events : List Event) (id : ConnectionId) : Prop :=
  ∃ before after, events = before ++ .register :: after ∧ (run before).register.1 = id ∧
    .drop id ∉ after

/-- Whether all connections were told to close at a time when the registration was held. -/
def Told (events : List Event) (id : ConnectionId) : Prop :=
  ∃ before after, events = before ++ .closeAll :: after ∧ Held before id

/-- Whether only registrations that are held are dropped. -/
def Lawful (events : List Event) : Prop :=
  ∀ before id after, events = before ++ .drop id :: after → Held before id

/-! ## One more event -/

variable {events : List Event} {id : ConnectionId}

theorem registrations_le_append (events more : List Event) :
    registrations events ≤ registrations (events ++ more) := by
  rw [registrations, registrations, List.count_append]
  exact Nat.le_add_right _ _

theorem registrations_append_register (events : List Event) :
    registrations (events ++ [.register]) = registrations events + 1 := by
  rw [registrations, List.count_append, List.count_singleton_self]
  rfl

theorem registrations_append_of_ne (events : List Event) (event : Event)
    (other : event ≠ .register) : registrations (events ++ [event]) = registrations events := by
  have apart : .register ∉ [event] := by simpa using other.symm
  rw [registrations, List.count_append, List.count_eq_zero.mpr apart]
  rfl

theorem drops_append_singleton (events : List Event) (event : Event) :
    drops (events ++ [event]) = drops events + drops [event] :=
  List.countP_append

theorem run_append_singleton (events : List Event) (event : Event) :
    run (events ++ [event]) = (run events).step event := by
  rw [run, List.foldl_append]
  rfl

theorem handedOut_append_singleton (registry : Registry) (events : List Event) (event : Event) :
    handedOut registry (events ++ [event]) =
      handedOut registry events ++ handedOut (events.foldl step registry) [event] := by
  induction events generalizing registry with
  | nil => rfl
  | cons first rest ih => cases first <;> simp [handedOut, ih]

theorem exists_split_append_singleton {α : Type} {list : List α} {last mark : α}
    {holds : List α → List α → Prop} :
    (∃ before after, list ++ [last] = before ++ mark :: after ∧ holds before after) ↔
      (∃ before after, list = before ++ mark :: after ∧ holds before (after ++ [last])) ∨
        last = mark ∧ holds list [] := by
  constructor
  · rintro ⟨before, after, same, held⟩
    rcases List.eq_nil_or_concat after with rfl | ⟨after, final, rfl⟩
    · obtain ⟨rfl, rfl⟩ := List.append_singleton_inj.mp same
      exact .inr ⟨rfl, held⟩
    · rw [List.concat_eq_append] at same held
      rw [← List.cons_append, ← List.append_assoc] at same
      obtain ⟨rfl, rfl⟩ := List.append_singleton_inj.mp same
      exact .inl ⟨before, after, rfl, held⟩
  · rintro (⟨before, after, rfl, held⟩ | ⟨rfl, held⟩)
    · exact ⟨before, after ++ [last], by simp, held⟩
    · exact ⟨list, [], rfl, held⟩

theorem held_append_singleton (events : List Event) (event : Event) (id : ConnectionId) :
    Held (events ++ [event]) id ↔
      Held events id ∧ event ≠ .drop id ∨ event = .register ∧ (run events).register.1 = id := by
  rw [Held, exists_split_append_singleton]
  refine or_congr ?_ ?_
  · constructor
    · rintro ⟨before, after, rfl, given, kept⟩
      rw [List.mem_append, List.mem_singleton, not_or] at kept
      exact ⟨⟨before, after, rfl, given, kept.1⟩, Ne.symm kept.2⟩
    · rintro ⟨⟨before, after, rfl, given, kept⟩, other⟩
      refine ⟨before, after, rfl, given, ?_⟩
      rw [List.mem_append, List.mem_singleton, not_or]
      exact ⟨kept, Ne.symm other⟩
  · exact and_congr_right fun _ => and_iff_left List.not_mem_nil

theorem told_append_singleton (events : List Event) (event : Event) (id : ConnectionId) :
    Told (events ++ [event]) id ↔ Told events id ∨ event = .closeAll ∧ Held events id :=
  exists_split_append_singleton

theorem told_append (more : List Event) (told : Told events id) : Told (events ++ more) id := by
  obtain ⟨before, after, rfl, held⟩ := told
  exact ⟨before, after ++ more, by simp, held⟩

theorem lawful_nil : Lawful [] := by
  intro before id after split
  simp at split

theorem lawful_append_singleton {event : Event} :
    Lawful (events ++ [event]) ↔ Lawful events ∧ ∀ id, event = .drop id → Held events id := by
  constructor
  · intro lawful
    constructor
    · rintro before id after rfl
      exact lawful before id (after ++ [event]) (by simp)
    · rintro id rfl
      exact lawful events id [] rfl
  · rintro ⟨lawful, last⟩ before id after same
    have found : ∃ first later, events ++ [event] = first ++ .drop id :: later ∧ first = before :=
      ⟨before, after, same, rfl⟩
    rcases exists_split_append_singleton.mp found with ⟨first, later, split, rfl⟩ | ⟨dropped, rfl⟩
    · exact lawful _ id later split
    · exact last id dropped

theorem isSignalled_tellAll (registry : Registry) (id : ConnectionId) :
    registry.tellAll.2.isSignalled id = true ↔
      registry.isSignalled id = true ∨ id ∈ registry.live := by
  change registry.closeAll.isSignalled id = true ↔ _
  rw [isSignalled_closeAll, Bool.or_eq_true, decide_eq_true_iff]

/-! ## Runs -/

/-- What a registry holds after the events. Each identifier in it was given out. -/
structure Follows (events : List Event) (registry : Registry) : Prop where
  next : registry.next = UInt64.ofNat (registrations events + 1)
  distinct : registry.Distinct
  known : ∀ id, id ∈ registry.live ∨ registry.isSignalled id = true →
    id ∈ issued (registrations events)
  live : ∀ id, id ∈ registry.live ↔ Held events id
  told : ∀ id, registry.isSignalled id = true ↔ Told events id

namespace Follows

variable {registry : Registry}

theorem new (follows : Follows events registry)
    (few : registrations events + 1 < UInt64.size) :
    registry.next ∉ registry.live ∧ registry.isSignalled registry.next = false := by
  have fresh := notMem_issued few
  rw [← follows.next] at fresh
  constructor
  · exact fun live => fresh (follows.known _ (.inl live))
  · exact Bool.eq_false_iff.mpr fun told => fresh (follows.known _ (.inr told))

theorem register (follows : Follows events registry) (same : registry = run events)
    (few : registrations events + 1 < UInt64.size) :
    Follows (events ++ [.register]) (registry.step .register) := by
  have count := registrations_append_register events
  obtain ⟨absent, untold⟩ := follows.new few
  have told (id : ConnectionId) :
      registry.register.2.isSignalled id = registry.isSignalled id := by
    by_cases own : id = registry.next
    · rw [own, isSignalled_register_self follows.distinct, untold]
    · exact isSignalled_register_of_ne own
  refine ⟨?_, distinct_register follows.distinct, ?_, ?_, ?_⟩
  · rw [count, UInt64.ofNat_add, ← follows.next]
    rfl
  · intro id known
    rw [count, issued_succ, ← follows.next, List.mem_append, List.mem_singleton]
    rcases known with live | signalled
    · rcases mem_live_register.mp live with live | rfl
      · exact .inl (follows.known id (.inl live))
      · exact .inr rfl
    · rw [step, told id] at signalled
      exact .inl (follows.known id (.inr signalled))
  · intro id
    rw [step, mem_live_register, held_append_singleton, follows.live, ← same]
    simp [Registry.register, eq_comm]
  · intro id
    rw [step, told, told_append_singleton, follows.told]
    simp

theorem drop (follows : Follows events registry) (other : ConnectionId) :
    Follows (events ++ [.drop other]) (registry.step (.drop other)) := by
  have count := registrations_append_of_ne events (.drop other) nofun
  refine ⟨?_, distinct_deregister follows.distinct other, ?_, ?_, ?_⟩
  · rw [count]
    exact follows.next
  · intro id known
    rw [count]
    exact follows.known id (known.imp_left List.mem_of_mem_erase)
  · intro id
    rw [step, mem_live_deregister follows.distinct, held_append_singleton, follows.live]
    simp [and_comm, eq_comm]
  · intro id
    change registry.isSignalled id = true ↔ _
    rw [told_append_singleton, follows.told]
    simp

theorem closeAll (follows : Follows events registry) :
    Follows (events ++ [.closeAll]) (registry.step .closeAll) := by
  have count := registrations_append_of_ne events .closeAll nofun
  have told : ∀ id, (registry.step .closeAll).isSignalled id = true ↔
      registry.isSignalled id = true ∨ id ∈ registry.live := isSignalled_tellAll registry
  refine ⟨?_, distinct_closeAll follows.distinct, ?_, ?_, ?_⟩
  · rw [count]
    exact follows.next
  · intro id known
    rw [count]
    rcases known with live | signalled
    · exact follows.known id (.inl live)
    · exact follows.known id ((told id).mp signalled).symm
  · intro id
    rw [held_append_singleton, ← follows.live]
    simp [step, tellAll, Registry.closeAll]
  · intro id
    rw [told, told_append_singleton, ← follows.told, ← follows.live]
    simp

theorem step (follows : Follows events (run events)) (event : Event)
    (few : registrations (events ++ [event]) < UInt64.size) :
    Follows (events ++ [event]) (run (events ++ [event])) := by
  rw [run_append_singleton]
  cases event with
  | register =>
      rw [registrations_append_register] at few
      exact follows.register rfl few
  | drop other => exact follows.drop other
  | closeAll => exact follows.closeAll

end Follows

theorem follows_nil : Follows [] (run []) := by
  refine ⟨rfl, ⟨List.nodup_nil, List.nodup_nil⟩, ?_, ?_, ?_⟩
  · rintro id (live | told)
    · cases live
    · cases told
  · intro id
    refine iff_of_false List.not_mem_nil ?_
    rintro ⟨before, after, split, -⟩
    simp at split
  · intro id
    refine iff_of_false Bool.false_ne_true ?_
    rintro ⟨before, after, split, -⟩
    simp at split

/-- After fewer than `2 ^ 64` registrations, a registry is what its history says. -/
theorem follows_run (few : registrations events < UInt64.size) : Follows events (run events) := by
  induction events using List.reverseRecOn with
  | nil => exact follows_nil
  | append_singleton events event ih =>
      have fewer := Nat.lt_of_le_of_lt (registrations_le_append events [event]) few
      exact (ih fewer).step event few

/-! ## Identifiers and counts -/

theorem handedOut_eq_issued (few : registrations events < UInt64.size) :
    handedOut {} events = issued (registrations events) := by
  induction events using List.reverseRecOn with
  | nil => rfl
  | append_singleton events event ih =>
      have fewer := Nat.lt_of_le_of_lt (registrations_le_append events [event]) few
      have next : (run events).next = UInt64.ofNat (registrations events + 1) :=
        (follows_run fewer).next
      rw [handedOut_append_singleton, ih fewer]
      cases event with
      | register =>
          rw [registrations_append_register, issued_succ, ← next]
          rfl
      | drop id =>
          rw [registrations_append_of_ne events (.drop id) nofun]
          exact List.append_nil _
      | closeAll =>
          rw [registrations_append_of_ne events .closeAll nofun]
          exact List.append_nil _

theorem pairwise_issued {count : Nat} (few : count < UInt64.size) :
    (issued count).Pairwise (· < ·) := by
  rw [issued, List.pairwise_map]
  refine List.pairwise_lt_range.imp_of_mem ?_
  intro one other first second before
  have bound := List.mem_range.mp second
  rw [UInt64.lt_iff_toNat_lt, UInt64.toNat_ofNat_of_lt' (by omega),
    UInt64.toNat_ofNat_of_lt' (by omega)]
  omega

theorem size_register {registry : Registry} (absent : registry.next ∉ registry.live) :
    registry.register.2.size = registry.size + 1 := by
  simp [register, size, List.erase_of_not_mem absent]

theorem size_deregister {registry : Registry} (present : id ∈ registry.live) :
    (registry.deregister id).size + 1 = registry.size := by
  rw [size, size, deregister, List.length_erase_of_mem present]
  exact Nat.sub_add_cancel (List.length_pos_of_mem present)

theorem size_add_drops (few : registrations events < UInt64.size) (lawful : Lawful events) :
    (run events).size + drops events = registrations events := by
  induction events using List.reverseRecOn with
  | nil => rfl
  | append_singleton events event ih =>
      have fewer := Nat.lt_of_le_of_lt (registrations_le_append events [event]) few
      have follows := follows_run fewer
      obtain ⟨before, holds⟩ := lawful_append_singleton.mp lawful
      have size := ih fewer before
      rw [run_append_singleton, drops_append_singleton]
      cases event with
      | register =>
          rw [registrations_append_register] at few ⊢
          have more : ((run events).step .register).size = (run events).size + 1 :=
            size_register (follows.new few).1
          rw [more, ← size]
          exact Nat.add_right_comm _ 1 _
      | drop id =>
          have less : ((run events).step (.drop id)).size + 1 = (run events).size :=
            size_deregister ((follows.live id).mpr (holds id rfl))
          have count := registrations_append_of_ne events (.drop id) nofun
          rw [count, ← size, ← less]
          exact Nat.add_right_comm _ _ 1
      | closeAll =>
          have count := registrations_append_of_ne events .closeAll nofun
          rw [count, ← size]
          rfl

/-- Identifiers are given out counting from 1, each once. Registered are just those of registrations
that are held, and if no other is ever dropped they are as many as the registrations without the
drops. Dropping an absent one changes nothing, and dropping one leaves the others. Telling all to
close tells those that are registered, leaves them there and gives their number. A connection has
been told to close if all were told while it was held, and not otherwise; it is not told by being
registered, and once told it stays so. -/
theorem registry_follows_its_history (events : List Event)
    (few : registrations events < UInt64.size) :
    (handedOut {} events = issued (registrations events) ∧
      (handedOut {} events).Pairwise (· < ·)) ∧
    ((run events).live.Nodup ∧ ∀ id, id ∈ (run events).live ↔ Held events id) ∧
    (Lawful events → (run events).size + drops events = registrations events) ∧
    (∀ id, (id ∉ (run events).live → (run events).deregister id = run events) ∧
      ∀ other, other ≠ id →
        (other ∈ ((run events).deregister id).live ↔ other ∈ (run events).live)) ∧
    ((run events).tellAll.1 = (run events).size ∧
      (run events).tellAll.2.live = (run events).live ∧
      ∀ id, (run events).tellAll.2.isSignalled id = true ↔
        (run events).isSignalled id = true ∨ id ∈ (run events).live) ∧
    (∀ id, (run events).isSignalled id = true ↔ Told events id) ∧
    (run events).register.2.isSignalled (run events).register.1 = false ∧
    ∀ more id, registrations (events ++ more) < UInt64.size →
      (run events).isSignalled id = true → (run (events ++ more)).isSignalled id = true := by
  have follows := follows_run few
  refine ⟨⟨handedOut_eq_issued few, ?_⟩, ⟨follows.distinct.live, follows.live⟩, size_add_drops few,
    ?_, ⟨rfl, rfl, ?_⟩, follows.told, isSignalled_register_self follows.distinct, ?_⟩
  · rw [handedOut_eq_issued few]
    exact pairwise_issued few
  · intro id
    constructor
    · intro absent
      rw [deregister, List.erase_of_not_mem absent]
    · intro other different
      exact List.mem_erase_of_ne different
  · exact isSignalled_tellAll (run events)
  · intro more id fewer told
    exact ((follows_run fewer).told id).mpr (told_append more ((follows.told id).mp told))

theorem held_while_all_are_told :
    registrations [.register, .closeAll, .drop 1, .register] < UInt64.size ∧
      Lawful [.register, .closeAll, .drop 1, .register] ∧
      (run [.register, .closeAll, .drop 1, .register]).size +
        drops [.register, .closeAll, .drop 1, .register] =
          registrations [.register, .closeAll, .drop 1, .register] ∧
      Told [.register, .closeAll, .drop 1, .register] 1 ∧
      ¬ Told [.register, .closeAll, .drop 1, .register] 2 := by
  have few : registrations [.register, .closeAll, .drop 1, .register] < UInt64.size := by decide
  have one : Lawful ([] ++ [.register]) := lawful_append_singleton.mpr ⟨lawful_nil, nofun⟩
  have two : Lawful ([.register] ++ [.closeAll]) := lawful_append_singleton.mpr ⟨one, nofun⟩
  have three : Lawful ([.register, .closeAll] ++ [.drop 1]) := by
    refine lawful_append_singleton.mpr ⟨two, ?_⟩
    intro id same
    cases same
    exact ⟨[], [.closeAll], rfl, rfl, by decide⟩
  have lawful : Lawful ([.register, .closeAll, .drop 1] ++ [.register]) :=
    lawful_append_singleton.mpr ⟨three, nofun⟩
  obtain ⟨-, -, size, -, -, told, -⟩ := registry_follows_its_history _ few
  refine ⟨few, lawful, size lawful, (told 1).mp (by decide), fun second => ?_⟩
  exact absurd ((told 2).mpr second) (by decide)

end LogIntake.Registry
