import Mathlib.Data.List.Perm.Subperm
import LogIntake.Proofs.Moves

/-!
# Slots

Every slot is free, with a call, or with a started connection, and every call did with slots what it
should have (`Slots`): it took one at most, and whoever took one still has it, gave it back, or left
it to the connection that it started. Every connection on the registry has a slot, with its call or
by itself (`Lodged`). Both are shown for a move, and then for a run.
-/
set_option autoImplicit false

namespace LogIntake

namespace Listener

theorem countP_set_add {α : Type} {p : α → Bool} {list : List α} {place : Nat} {old : α}
    (found : list[place]? = some old) (new : α) :
    (list.set place new).countP p + (p old).toNat = list.countP p + (p new).toNat := by
  obtain ⟨inside, here⟩ := List.getElem?_eq_some_iff.mp found
  have counted := List.boole_getElem_le_countP (p := p) inside
  rw [here] at counted
  have value (holds : Bool) : holds.toNat = if holds = true then 1 else 0 := by
    cases holds with
    | false => rfl
    | true => rfl
  rw [List.countP_set inside, here, value, value]
  omega

theorem exists_mem_set {α : Type} {p : α → Prop} {list : List α} {place : Nat} {old new : α}
    (found : list[place]? = some old) (kept : p old → p new)
    (exists_before : ∃ entry ∈ list, p entry) :
    ∃ entry ∈ list.set place new, p entry := by
  obtain ⟨entry, member, has⟩ := exists_before
  obtain ⟨other, there⟩ := List.getElem?_of_mem member
  obtain ⟨inside, -⟩ := List.getElem?_eq_some_iff.mp found
  by_cases same : other = place
  · subst same
    obtain rfl : old = entry := Option.some_inj.mp (found.symm.trans there)
    exact ⟨new, List.mem_set inside new, kept has⟩
  · have still : (list.set place new)[other]? = some entry :=
      (List.getElem?_set_ne (Ne.symm same)).trans there
    exact ⟨entry, List.mem_of_getElem? still, has⟩

variable {listener next : Listener} {ledger noted : Ledger} {call : Nat} {old new : Admitting}

def held (listener : Listener) : Nat :=
  listener.admitting.countP Admitting.holds + listener.holders.length

/-- What a call did with slots: how often it took one, gave it back, and left it to a connection
that it started. -/
structure Account where
  taken : Nat
  returned : Nat
  started : Nat

def Ledger.account (ledger : Ledger) (call : Nat) : Account :=
  ⟨ledger.taken.count call, ledger.returned.count call, (ledger.started.map Prod.fst).count call⟩

/-- Whether a call that is here did with slots what it should have. A call that started a connection
never gives a slot back. -/
def Account.Fits (account : Account) : Option Admitting → Prop
  | none | some .entering | some .seeking => account = ⟨0, 0, 0⟩
  | some (.releasing .admitted) => False
  | some (.done .admitted) => account = ⟨1, 0, 1⟩
  | some (.done _) => account = ⟨0, 0, 0⟩ ∨ account = ⟨1, 1, 0⟩
  | some _ => account = ⟨1, 0, 0⟩

def Ledger.starts (ledger : Ledger) (id : ConnectionId) : Nat :=
  (ledger.started.map Prod.snd).count id

structure Slots (capacity : Nat) (listener : Listener) (ledger : Ledger) : Prop where
  sum : listener.free + listener.held = capacity
  calls : ∀ call, (ledger.account call).Fits listener.admitting[call]?
  holders : ∀ id, ledger.starts id = listener.holders.count id + ledger.released.count id

theorem account_note_of_ne {other : Nat} (different : other ≠ call) :
    (ledger.note listener (.proceed call)).account other = ledger.account other := by
  rw [Ledger.note]
  split
  · split
    · rfl
    · simp [Ledger.account, different.symm]
  · rfl
  · simp [Ledger.account, different.symm]
  · rfl
  · simp [Ledger.account, different.symm]
  · rfl

theorem held_set (found : listener.admitting[call]? = some old)
    (admitting : next.admitting = listener.admitting.set call new) :
    next.held + listener.holders.length + old.holds.toNat =
      listener.held + next.holders.length + new.holds.toNat := by
  have counted := countP_set_add (p := Admitting.holds) found new
  rw [held, held, admitting]
  omega

theorem Slots.of_set {capacity : Nat} (slots : Slots capacity listener ledger)
    (found : listener.admitting[call]? = some old)
    (admitting : next.admitting = listener.admitting.set call new)
    (sum : next.free + next.holders.length + new.holds.toNat =
      listener.free + listener.holders.length + old.holds.toNat)
    (own : (noted.account call).Fits (some new))
    (others : ∀ other, other ≠ call → noted.account other = ledger.account other)
    (holders : ∀ id, noted.starts id = next.holders.count id + noted.released.count id) :
    Slots capacity next noted := by
  refine ⟨?_, ?_, holders⟩
  · have held := held_set found admitting
    have before := slots.sum
    omega
  · intro other
    obtain ⟨inside, -⟩ := List.getElem?_eq_some_iff.mp found
    rw [admitting]
    by_cases same : other = call
    · rw [same, List.getElem?_set_self inside]
      exact own
    · rw [List.getElem?_set_ne (Ne.symm same), others other same]
      exact slots.calls other

theorem Slots.of_same {capacity : Nat} (slots : Slots capacity listener ledger)
    (found : listener.admitting[call]? = some old) (holds : new.holds = old.holds)
    (fits : ∀ account : Account, account.Fits (some old) → account.Fits (some new)) :
    Slots capacity (listener.setAdmitting call new) ledger := by
  have own := slots.calls call
  rw [found] at own
  refine slots.of_set found rfl ?_ (fits _ own) (fun _ _ => rfl) slots.holders
  rw [holds]
  rfl

theorem fits_append (fits : ∀ call, (ledger.account call).Fits listener.admitting[call]?)
    (call : Nat) :
    (ledger.account call).Fits (listener.admitting ++ [.entering])[call]? := by
  have before := fits call
  rcases Nat.lt_trichotomy call listener.admitting.length with old | rfl | beyond
  · rw [List.getElem?_append_left old]
    exact before
  · rw [List.getElem?_eq_none (Nat.le_refl _)] at before
    rw [List.getElem?_concat_length]
    exact before
  · rw [List.getElem?_eq_none (Nat.le_of_lt beyond)] at before
    rw [List.getElem?_eq_none (by rw [List.length_append]; exact beyond)]
    exact before

theorem account_taken (ledger : Ledger) (call : Nat) :
    { ledger with taken := ledger.taken ++ [call] }.account call =
      { ledger.account call with taken := (ledger.account call).taken + 1 } := by
  simp [Ledger.account]

theorem account_returned (ledger : Ledger) (call : Nat) :
    { ledger with returned := ledger.returned ++ [call] }.account call =
      { ledger.account call with returned := (ledger.account call).returned + 1 } := by
  simp [Ledger.account]

theorem account_started (ledger : Ledger) (call : Nat) (id : ConnectionId) :
    { ledger with started := ledger.started ++ [(call, id)] }.account call =
      { ledger.account call with started := (ledger.account call).started + 1 } := by
  simp [Ledger.account]

theorem Slots.proceed {capacity : Nat} (slots : Slots capacity listener ledger)
    (move : Move listener (.proceed call) next) :
    Slots capacity next (ledger.note listener (.proceed call)) := by
  have own := slots.calls call
  have others (other : Nat) (different : other ≠ call) :
      (ledger.note listener (.proceed call)).account other = ledger.account other :=
    account_note_of_ne different
  cases move with
  | look found =>
      rw [note_look found]
      cases listener.present with
      | false => exact slots.of_same found rfl fun _ fits => .inl fits
      | true => exact slots.of_same found rfl fun _ fits => fits
  | @take _ free found available =>
      rw [found] at own
      have sum : free + listener.holders.length + 1 = listener.free + listener.holders.length := by
        omega
      refine slots.of_set found rfl sum ?_ others ?_
      · rw [note_take found (by omega), account_taken, own]
        rfl
      · rw [note_take found (by omega)]
        exact slots.holders
  | register found =>
      rw [found] at own
      rw [note_register found]
      exact slots.of_set found rfl rfl own (fun _ _ => rfl) slots.holders
  | check found =>
      rw [note_check found]
      cases listener.stopped with
      | false => exact slots.of_same found rfl fun _ fits => fits
      | true => exact slots.of_same found rfl fun _ fits => fits
  | @start _ id found =>
      rw [found] at own
      have sum : listener.free + (listener.holders ++ [id]).length + 0 =
          listener.free + listener.holders.length + 1 := by
        rw [List.length_append]
        rfl
      refine slots.of_set found rfl sum ?_ others ?_
      · rw [note_start found, account_started, own]
        rfl
      · intro other
        have before := slots.holders other
        rw [note_start found]
        simp only [Ledger.starts, setAdmitting, List.map_append, List.count_append] at before ⊢
        simp only [List.map_singleton]
        omega
  | @withdraw _ id found =>
      rw [found] at own
      rw [note_withdraw found]
      exact slots.of_set found rfl rfl own (fun _ _ => rfl) slots.holders
  | @giveBack _ result found =>
      rw [found] at own
      have sum : listener.free + 1 + listener.holders.length + 0 =
          listener.free + listener.holders.length + 1 := by omega
      refine slots.of_set found rfl sum ?_ others ?_
      · rw [note_giveBack found, account_returned]
        cases result with
        | admitted => exact own.elim
        | stopped => exact .inr (by rw [own])
        | failed cause => exact .inr (by rw [own])
      · rw [note_giveBack found]
        exact slots.holders

theorem Slots.move {capacity : Nat} (slots : Slots capacity listener ledger) {event : Event}
    (move : Move listener event next) : Slots capacity next (ledger.note listener event) := by
  cases move with
  | call =>
      refine ⟨?_, fits_append slots.calls, slots.holders⟩
      have sum := slots.sum
      rw [held] at sum ⊢
      rw [List.countP_append]
      exact sum
  | look found => exact slots.proceed (.look found)
  | take found available => exact slots.proceed (.take found available)
  | register found => exact slots.proceed (.register found)
  | check found => exact slots.proceed (.check found)
  | start found => exact slots.proceed (.start found)
  | withdraw found => exact slots.proceed (.withdraw found)
  | giveBack found => exact slots.proceed (.giveBack found)
  | accept found => exact slots.of_same found rfl fun _ fits => fits
  | fail found cause => exact slots.of_same found rfl fun _ fits => fits
  | leave found stopped => exact slots.of_same found rfl fun _ fits => .inl fits
  | giveUp found stopped => exact slots.of_same found rfl fun _ fits => fits
  | work id =>
      rw [Ledger.note]
      split
      · exact ⟨slots.sum, slots.calls, slots.holders⟩
      · exact ⟨slots.sum, slots.calls, slots.holders⟩
  | @release id exit gone member =>
      rw [note_release gone member]
      refine ⟨?_, slots.calls, ?_⟩
      · have sum := slots.sum
        have shorter := List.length_erase_add_one member
        rw [held] at sum ⊢
        dsimp only
        omega
      · intro other
        have before := slots.holders other
        have counted := (List.perm_cons_erase member).count_eq other
        rw [List.count_cons] at counted
        simp only [List.count_append, List.count_singleton]
        rw [Ledger.starts] at before ⊢
        dsimp only
        omega
  | _ => exact ⟨slots.sum, slots.calls, slots.holders⟩

theorem Slots.step {capacity : Nat} (slots : Slots capacity listener ledger) (event : Event) :
    Slots capacity (listener.step event) (ledger.note listener event) := by
  rcases step_cases listener event with ⟨idle, unnoted⟩ | move
  · rw [idle, unnoted]
    exact slots
  · exact slots.move move

theorem Slots.run {capacity : Nat} (slots : Slots capacity listener ledger) (events : List Event) :
    Slots capacity (listener.run events) (record listener ledger events) := by
  induction events generalizing listener ledger with
  | nil => exact slots
  | cons event later ih => exact ih (slots.step event)

theorem slots_start (capacity limit : Nat) : Slots capacity { capacity, limit } {} :=
  ⟨rfl, fun _ => rfl, fun _ => rfl⟩

/-! ## Slots of the registered connections -/

def InProgress (listener : Listener) (id : ConnectionId) : Prop :=
  ∃ state ∈ listener.admitting, state.id? = some id

/-- Whether a connection was started, holds a slot and has not ended. -/
def Running (listener : Listener) (id : ConnectionId) : Prop :=
  id ∈ listener.holders ∧ ∃ phase, listener.hub.phase? id = some phase ∧ phase.ended = false

/-- Whether every connection on the registry has a slot, with its call or by itself. -/
structure Lodged (listener : Listener) : Prop where
  distinct : listener.hub.registry.Distinct
  lodged : ∀ id ∈ listener.hub.registry.live, listener.InProgress id ∨ listener.Running id

namespace Lodged

variable {id : ConnectionId}

theorem start_empty (capacity limit : Nat) : Lodged { capacity, limit } := by
  refine ⟨⟨List.nodup_nil, List.nodup_nil⟩, ?_⟩
  intro id member
  cases member

theorem of_fewer (lodged : Lodged listener) (distinct : next.hub.registry.Distinct)
    (live : ∀ id ∈ next.hub.registry.live, id ∈ listener.hub.registry.live)
    (progress : ∀ id ∈ next.hub.registry.live, listener.InProgress id →
      next.InProgress id ∨ next.Running id)
    (running : ∀ id ∈ next.hub.registry.live, listener.Running id →
      next.InProgress id ∨ next.Running id) : Lodged next := by
  refine ⟨distinct, ?_⟩
  intro id member
  rcases lodged.lodged id (live id member) with waits | runs
  · exact progress id member waits
  · exact running id member runs

theorem of_set (lodged : Lodged listener) (found : listener.admitting[call]? = some old)
    (admitting : next.admitting = listener.admitting.set call new) (same : new.id? = old.id?)
    (hub : next.hub = listener.hub) (holders : next.holders = listener.holders) : Lodged next := by
  apply lodged.of_fewer
  · rw [hub]
    exact lodged.distinct
  · rw [hub]
    exact fun _ member => member
  · intro id _ progress
    left
    rw [InProgress, admitting]
    apply exists_mem_set found _ progress
    rw [same]
    exact fun has => has
  · intro id _ running
    right
    rw [Running, hub, holders]
    exact running

theorem register (lodged : Lodged listener) (found : listener.admitting[call]? = some .accepted) :
    Lodged ({ listener with hub := listener.hub.register.2 }.setAdmitting call
      (.registered listener.hub.registry.next)) := by
  refine ⟨Registry.distinct_register lodged.distinct, ?_⟩
  intro id member
  rcases Registry.mem_live_register.mp member with old | rfl
  · rcases lodged.lodged id old with progress | running
    · exact .inl (exists_mem_set found nofun progress)
    · exact .inr running
  · obtain ⟨inside, -⟩ := List.getElem?_eq_some_iff.mp found
    exact .inl ⟨_, List.mem_set inside _, rfl⟩

theorem start (lodged : Lodged listener)
    (found : listener.admitting[call]? = some (.starting id)) :
    Lodged ({ listener with
      hub := listener.hub.start id listener.limit
      holders := listener.holders ++ [id] }.setAdmitting call (.done .admitted)) := by
  have started : ({ listener with
      hub := listener.hub.start id listener.limit
      holders := listener.holders ++ [id] }.setAdmitting call (.done .admitted)).Running id :=
    ⟨List.mem_append_right _ (List.mem_singleton_self id), _,
      Hub.phase?_start listener.hub id listener.limit, rfl⟩
  apply lodged.of_fewer
  · exact lodged.distinct
  · exact fun _ member => member
  · intro other _ progress
    by_cases own : other = id
    · rw [own]
      exact .inr started
    · left
      refine exists_mem_set found ?_ progress
      intro same
      exact absurd (Option.some_inj.mp same).symm own
  · rintro other - ⟨held, phase, there, runs⟩
    right
    by_cases own : other = id
    · rw [own]
      exact started
    · refine ⟨List.mem_append_left _ held, phase, ?_, runs⟩
      exact (Hub.phase?_start_of_ne (Ne.symm own) listener.limit).trans there

theorem withdraw (lodged : Lodged listener)
    (found : listener.admitting[call]? = some (.withdrawing id)) :
    Lodged ({ listener with hub := listener.hub.deregister id }.setAdmitting call
      (.releasing .stopped)) := by
  apply lodged.of_fewer
  · exact Registry.distinct_deregister lodged.distinct id
  · intro other member
    exact ((Registry.mem_live_deregister lodged.distinct).mp member).2
  · intro other member progress
    have different := ((Registry.mem_live_deregister lodged.distinct).mp member).1
    left
    refine exists_mem_set found ?_ progress
    intro same
    exact absurd (Option.some_inj.mp same).symm different
  · exact fun _ _ running => .inr running

theorem arrive (lodged : Lodged listener) (id : ConnectionId) (arrival : Arrival) :
    Lodged { listener with hub := listener.hub.step (.arrived id arrival) } := by
  apply lodged.of_fewer
  · exact lodged.distinct
  · exact fun _ member => member
  · exact fun _ _ progress => .inl progress
  · rintro other - ⟨held, phase, there, runs⟩
    right
    by_cases own : other = id
    · subst own
      have after := Phase.ended_meet (listener.hub.registry.isSignalled other) arrival phase
      refine ⟨held, _, ?_, after.trans runs⟩
      exact (Hub.phase?_arrived listener.hub other arrival).trans (by rw [there]; rfl)
    · refine ⟨held, phase, ?_, runs⟩
      exact (Hub.phase?_changePhase_of_ne (Ne.symm own) _).trans there

theorem work (lodged : Lodged listener) (id : ConnectionId) :
    Lodged { listener with hub := listener.hub.step (.stepped id) } := by
  have distinct := Hub.distinct_step lodged.distinct (.stepped id)
  cases found : listener.hub.phase? id with
  | none =>
      rw [Hub.step_stepped_of_none found]
      exact lodged
  | some phase =>
      have registry : (listener.hub.step (.stepped id)).registry =
          if phase.leaves then listener.hub.registry.deregister id
          else listener.hub.registry := by
        rw [Hub.step_stepped found]
      -- The step after which a connection has ended is the one that takes it off the registry.
      refine lodged.of_fewer distinct ?_ (fun _ _ progress => .inl progress) ?_
      · intro other member
        rw [registry] at member
        split at member
        · exact List.mem_of_mem_erase member
        · exact member
      · rintro other member ⟨held, earlier, there, runs⟩
        right
        by_cases own : other = id
        · subst own
          obtain rfl : phase = earlier := Option.some_inj.mp (found.symm.trans there)
          have stays : phase.leaves = false := by
            cases leaves : phase.leaves with
            | false => rfl
            | true =>
                rw [registry, if_pos leaves] at member
                exact absurd rfl ((Registry.mem_live_deregister lodged.distinct).mp member).1
          refine ⟨held, phase.next, Hub.phase?_stepped found, ?_⟩
          rw [Phase.ended_next, runs, stays]
          rfl
        · refine ⟨held, earlier, ?_, runs⟩
          exact (Hub.phase?_stepped_of_ne (Ne.symm own)).trans there

theorem release (lodged : Lodged listener) {exit : Exit}
    (gone : listener.hub.phase? id = some (.gone exit)) :
    Lodged { listener with holders := listener.holders.erase id, free := listener.free + 1 } := by
  apply lodged.of_fewer
  · exact lodged.distinct
  · exact fun _ member => member
  · exact fun _ _ progress => .inl progress
  · rintro other - ⟨held, phase, there, runs⟩
    right
    have different : other ≠ id := by
      rintro rfl
      rw [gone] at there
      obtain rfl := Option.some_inj.mp there
      cases runs
    exact ⟨(List.mem_erase_of_ne different).mpr held, phase, there, runs⟩

theorem move (lodged : Lodged listener) {event : Event} (move : Move listener event next) :
    Lodged next := by
  cases move with
  | call =>
      refine ⟨lodged.distinct, ?_⟩
      intro id member
      rcases lodged.lodged id member with ⟨state, there, has⟩ | running
      · exact .inl ⟨state, List.mem_append_left _ there, has⟩
      · exact .inr running
  | look found =>
      refine lodged.of_set found rfl ?_ rfl rfl
      split
      · rfl
      · rfl
  | take found slots => exact lodged.of_set found rfl rfl rfl rfl
  | register found => exact lodged.register found
  | check found =>
      refine lodged.of_set found rfl ?_ rfl rfl
      split
      · rfl
      · rfl
  | start found => exact lodged.start found
  | withdraw found => exact lodged.withdraw found
  | giveBack found => exact lodged.of_set found rfl rfl rfl rfl
  | accept found => exact lodged.of_set found rfl rfl rfl rfl
  | fail found cause => exact lodged.of_set found rfl rfl rfl rfl
  | leave found stopped => exact lodged.of_set found rfl rfl rfl rfl
  | giveUp found stopped => exact lodged.of_set found rfl rfl rfl rfl
  | tell found => exact ⟨Registry.distinct_closeAll lodged.distinct, lodged.lodged⟩
  | arrive id arrival => exact lodged.arrive id arrival
  | work id => exact lodged.work id
  | release gone held => exact lodged.release gone
  | _ => exact ⟨lodged.distinct, lodged.lodged⟩

theorem step (lodged : Lodged listener) (event : Event) : Lodged (listener.step event) := by
  rcases step_cases listener event with ⟨idle, -⟩ | move
  · rw [idle]
    exact lodged
  · exact lodged.move move

theorem run (lodged : Lodged listener) (events : List Event) : Lodged (listener.run events) := by
  induction events generalizing listener with
  | nil => exact lodged
  | cons event later ih => exact ih (lodged.step event)

theorem size_le_held (lodged : Lodged listener) : listener.hub.registry.size ≤ listener.held := by
  -- Each connection on the registry is found once more, with its call or among the holders.
  have subset : listener.hub.registry.live ⊆
      listener.admitting.filterMap Admitting.id? ++ listener.holders := by
    intro id member
    rw [List.mem_append]
    rcases lodged.lodged id member with ⟨state, inside, has⟩ | ⟨held, -⟩
    · exact .inl (List.mem_filterMap.mpr ⟨state, inside, has⟩)
    · exact .inr held
  have few := (List.subperm_of_subset lodged.distinct.live subset).length_le
  have calls : (listener.admitting.filterMap Admitting.id?).length ≤
      listener.admitting.countP Admitting.holds := by
    rw [List.length_filterMap_eq_countP]
    apply List.countP_mono_left
    intro state _ has
    cases state with
    | registered id | starting id | withdrawing id => rfl
    | _ => cases has
  rw [List.length_append] at few
  rw [Registry.size, held]
  omega

end Lodged

end Listener

end LogIntake
