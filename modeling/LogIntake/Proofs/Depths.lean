import LogIntake.Json.Writer
import LogIntake.Proofs.Canonical
import LogIntake.Proofs.Recognition
import LogIntake.Proofs.RoundTrip
import LogIntake.Proofs.Rounds
import LogIntake.Proofs.Views

/-!
# Depths of records

The decoder counts the containers that it goes into, and a frame is made of what it gives, so no
record that goes downstream is deep, whatever bytes it came from (`shallow_of_parse`). A function
that makes something of a container from what it made of the parts calls itself no deeper than the
containers stand (`Assembly.within_eq`). Main statement: `delivered_records_are_shallow`.
-/
set_option autoImplicit false

namespace LogIntake

open LogIntake.Frame (ofStream)

/-! ## Calls inside one another -/

namespace Value

/-- What becomes of a container, given what became of its parts. -/
structure Assembly (α : Type) where
  array : List α → α
  map : List (String × α) → α

structure Assembly.Makes {α : Type} (assembly : Assembly α) (f : Value → α) : Prop where
  array : ∀ items, f (.array items) = assembly.array (items.map f)
  map : ∀ fields, f (.map fields) = assembly.map (fields.map fun field => (field.1, f field.2))

/-- What becomes of a value when no more than `limit` calls for containers stand inside one another;
nothing when that takes more of them. -/
def Assembly.within {α : Type} (assembly : Assembly α) (f : Value → α) : Nat → Value → Option α
  | 0, .array _ | 0, .map _ => none
  | limit + 1, .array items => (items.mapM (assembly.within f limit)).map assembly.array
  | limit + 1, .map fields =>
    (fields.mapM fun field => (assembly.within f limit field.2).map (field.1, ·)).map assembly.map
  | _, leaf => some (f leaf)

theorem mapM_ite {α β : Type} {p : α → Prop} [DecidablePred p] (f : α → β) (things : List α) :
    (things.mapM fun thing => if p thing then some (f thing) else none) =
      if ∀ thing ∈ things, p thing then some (things.map f) else none := by
  induction things with
  | nil => simp
  | cons thing rest ih =>
      rw [List.mapM_cons, ih]
      by_cases first : p thing
      · by_cases later : ∀ other ∈ rest, p other
        · simp [first, if_pos later]
        · simp [first, if_neg later]
      · simp [first]

/-- As many calls as containers stand inside one another are enough, and no fewer. -/
theorem Assembly.within_eq {α : Type} {assembly : Assembly α} {f : Value → α}
    (makes : assembly.Makes f) (limit : Nat) (value : Value) :
    assembly.within f limit value = if value.depth ≤ limit then some (f value) else none := by
  induction limit generalizing value with
  | zero => cases value <;> simp [within, depth]
  | succ limit ih =>
      have parts : assembly.within f limit = fun value =>
          if value.depth ≤ limit then some (f value) else none := funext ih
      cases value with
      | array items =>
          rw [within, parts, mapM_ite, makes.array, depth]
          simp only [Nat.add_le_add_iff_right, itemsDepth_le_iff]
          split <;> rfl
      | map fields =>
          rw [within, makes.map, depth]
          simp only [parts, Nat.add_le_add_iff_right, fieldsDepth_le_iff, apply_ite,
            Option.map_some, Option.map_none]
          rw [mapM_ite]
          split <;> rfl
      | _ => simp [within, depth]

theorem makes_normalize : Assembly.Makes ⟨.array, .map⟩ normalize where
  array items := by rw [normalize, normalizeItems_eq_map]
  map fields := by rw [normalize, normalizeFields_eq_map]

theorem makes_visit : Assembly.Makes ⟨fun _ => (), fun _ => ()⟩ fun _ => () :=
  ⟨fun _ => rfl, fun _ => rfl⟩

mutual

theorem depth_normalize : ∀ value : Value, value.normalize.depth = value.depth
  | .array items => by rw [normalize, depth, depth, itemsDepth_normalize items]
  | .map fields => by rw [normalize, depth, depth, fieldsDepth_normalize fields]
  | .nil | .bool _ | .uint _ | .int _ | .float _ | .text _ | .binary _ => rfl

theorem itemsDepth_normalize : ∀ items : List Value,
    itemsDepth (normalizeItems items) = itemsDepth items
  | [] => rfl
  | item :: rest => by
      rw [normalizeItems, itemsDepth, itemsDepth, depth_normalize item, itemsDepth_normalize rest]

theorem fieldsDepth_normalize : ∀ fields : List (String × Value),
    fieldsDepth (normalizeFields fields) = fieldsDepth fields
  | [] => rfl
  | (key, value) :: rest => by
      rw [normalizeFields, fieldsDepth, fieldsDepth, depth_normalize value,
        fieldsDepth_normalize rest]

end

end Value

theorem Record.depth_normalize (record : Record) : record.normalize.depth = record.depth :=
  Value.depth_normalize (.map record)

namespace Json

def textOf : Value.Assembly (List Char) where
  array texts := '[' :: (commas texts ++ [']'])
  map fields :=
    '{' :: (commas (fields.map fun field => writeString field.1 ++ ':' :: field.2) ++ ['}'])

theorem makes_write : textOf.Makes write where
  array items := by
    have texts : writeItems items = items.map write := by
      induction items with
      | nil => rfl
      | cons item rest ih => rw [writeItems, ih, List.map_cons]
    rw [write, texts, textOf]
  map fields := by
    have texts : writeFields fields =
        fields.map fun field => writeString field.1 ++ ':' :: write field.2 := by
      induction fields with
      | nil => rfl
      | cons field rest ih => rw [writeFields, ih, List.map_cons]
    simp only [write, texts, textOf, List.map_map]
    rfl

end Json

/-! ## Frames -/

namespace Frame

theorem IsPair.depth_lt {value : Value} {stamped : Stamped} (pair : IsPair value stamped) :
    stamped.record.depth < value.depth := by
  obtain ⟨times, record⟩ := pair
  simp only [Value.depth, Value.itemsDepth, Record.depth]
  omega

theorem exists_isPair {pairs : List Value} {content : List Stamped}
    (each : List.Forall₂ IsPair pairs content) {stamped : Stamped} (member : stamped ∈ content) :
    ∃ pair ∈ pairs, IsPair pair stamped := by
  induction each with
  | nil => cases member
  | cons first later ih =>
      rcases List.mem_cons.mp member with rfl | member
      · exact ⟨_, List.mem_cons_self, first⟩
      · obtain ⟨pair, inside, found⟩ := ih member
        exact ⟨pair, List.mem_cons_of_mem _ inside, found⟩

theorem Fills.depth_le {values : List Value} {blob : Bytes} (fills : Fills values blob) :
    ∀ value ∈ values, value.depth ≤ 1023 := by
  induction fills with
  | nil => exact fun value member => absurd member List.not_mem_nil
  | cons first later ih =>
      intro value member
      rcases List.mem_cons.mp member with rfl | member
      · exact (MessagePack.Legible.of_decode first).shallow
      · exact ih value member

/-- How deep a pair is that stands in a payload, or with it. The decoder starts its count anew in a
blob, so a pair there may be deeper than one in an array, which is inside the frame. -/
theorem Carries.depth_le {payload : Value} {third : Option Value} {shape : Shape}
    {pairs : List Value} (carries : Carries payload third shape pairs)
    (shallow : ∀ item ∈ payload :: third.toList, item.depth ≤ 1022) :
    ∀ pair ∈ pairs, pair.depth ≤ shape.recordLimit + 1 := by
  intro pair member
  cases carries with
  | message times data =>
      obtain rfl := List.mem_singleton.mp member
      refine Nat.succ_le_succ (Value.itemsDepth_le_iff.mpr ?_)
      simpa [Shape.recordLimit] using shallow
  | forward pairs third =>
      have inside : Value.itemsDepth pairs + 1 ≤ 1022 := shallow _ List.mem_cons_self
      exact Value.itemsDepth_le_iff.mp (Nat.le_of_succ_le_succ inside) pair member
  | packed fills unwraps third =>
      rcases unwraps with ⟨rfl, -⟩ | ⟨rfl, -⟩
      · exact fills.depth_le pair member
      · have inside : Value.itemsDepth pairs + 1 ≤ 1023 :=
          fills.depth_le _ List.mem_cons_self
        have deep := Value.itemsDepth_le_iff.mp (Nat.le_of_succ_le_succ inside) pair member
        exact Nat.le_succ_of_le deep

theorem shallow_of_ofValue {value : Value} {frame : Frame} (found : ofValue value = .ok frame)
    (shallow : value.depth ≤ 1023) : frame.Shallow := by
  obtain ⟨tag, payload, third, pairs, rfl, -, carries, each⟩ := ofValue_eq_ok.mp found
  have inside := Value.itemsDepth_le_iff.mp (Nat.le_of_succ_le_succ shallow)
  intro stamped member
  obtain ⟨pair, among, isPair⟩ := exists_isPair each member
  have bound := carries.depth_le (fun item later => inside item (List.mem_cons_of_mem _ later))
    pair among
  have deeper := isPair.depth_lt
  omega

theorem shallow_of_parseItem {bytes : Bytes} {frame : Frame} {consumed : Nat}
    (found : parseItem bytes = .complete frame consumed) : frame.Shallow := by
  unfold parseItem at found
  split at found
  · cases found
  · cases found
  · next decoded =>
    split at found
    · cases found
    · next recognised =>
      cases found
      exact shallow_of_ofValue recognised (MessagePack.Legible.of_decode decoded).shallow

theorem shallow_of_parse {scanner : Scanner} {buffer : Bytes} {frame : Frame} {consumed : Nat}
    (found : (scanner.parse buffer).2 = .complete frame consumed) : frame.Shallow := by
  unfold Scanner.parse at found
  split at found
  · cases found
  · cases found
  · exact shallow_of_parseItem found

theorem shallow_of_mem_ofStream (stream : Bytes) :
    ∀ frame ∈ (ofStream stream).1, frame.Shallow := by
  fun_induction ofStream stream with
  | case1 stream frame consumed look frames remainder run ih =>
      rw [run] at ih
      intro other member
      rcases List.mem_cons.mp member with rfl | member
      · exact shallow_of_parse look
      · exact ih other member
  | case2 stream look => exact fun frame member => absurd member List.not_mem_nil
  | case3 stream fault look => exact fun frame member => absurd member List.not_mem_nil

end Frame

/-! ## What goes downstream -/

/-- Whether a record that the connection is about to hand on is no deeper than it may be. -/
def Phase.Shallow : Phase → Prop
  | .counting frame _ => frame.Shallow
  | .handing batch _ => ∀ entry ∈ batch, entry.data.depth ≤ 1022
  | _ => True

theorem Frame.Shallow.depth_le {frame : Frame} (shallow : frame.Shallow) {entry : Entry}
    (member : entry ∈ frame.entries) :
    entry.data.depth ≤ 1022 ∧ (frame.shape = .forward → entry.data.depth ≤ 1020) := by
  obtain ⟨stamped, inside, rfl⟩ := List.mem_map.mp member
  have bound := shallow stamped inside
  change stamped.record.depth ≤ 1022 ∧ (frame.shape = .forward → stamped.record.depth ≤ 1020)
  constructor
  · cases shape : frame.shape <;> rw [shape, Shape.recordLimit] at bound <;> omega
  · intro shape
    rwa [shape] at bound

theorem Frame.Shallow.delivery {frame : Frame} (shallow : frame.Shallow) :
    ∀ batch ∈ frame.delivery, ∀ entry ∈ batch, entry.data.depth ≤ 1022 := by
  intro batch member entry inside
  rw [Frame.delivery] at member
  split at member
  · cases member
  · obtain rfl := List.mem_singleton.mp member
    obtain ⟨original, among, rfl⟩ := List.mem_map.mp inside
    rw [Entry.normalize, Record.depth_normalize]
    exact (shallow.depth_le among).1

namespace Phase.Shallow

theorem next {phase : Phase} (shallow : phase.Shallow) : phase.next.Shallow := by
  cases phase with
  | examining connection =>
      rw [Phase.next]
      split
      · next look =>
          obtain ⟨count, round⟩ := frameRound_of_examine look
          exact Frame.shallow_of_parse (congrArg Prod.snd round.parsed)
      · trivial
      · trivial
  | counting frame after =>
      rw [Phase.next]
      split
      · trivial
      · next batch rest one =>
          exact Frame.Shallow.delivery shallow batch (by rw [one]; exact List.mem_cons_self)
  | _ => trivial

theorem handed {phase : Phase} (shallow : phase.Shallow) :
    ∀ batch ∈ phase.handed, ∀ entry ∈ batch, entry.data.depth ≤ 1022 := by
  intro batch member
  cases phase with
  | handing other after =>
      obtain rfl := List.mem_singleton.mp member
      exact shallow
  | _ => cases member

theorem meet {phase : Phase} (shallow : phase.Shallow) (told : Bool) (arrival : Arrival) :
    (phase.meet told arrival).Shallow := by
  cases phase with
  | waiting connection =>
      rw [Phase.meet]
      split
      · trivial
      · split <;> trivial
  | _ => exact shallow

end Phase.Shallow

namespace Hub

structure Shallow (hub : Hub) : Prop where
  phases : ∀ entry ∈ hub.phases, entry.2.Shallow
  delivered : ∀ sent ∈ hub.delivered, ∀ entry ∈ sent.2, entry.data.depth ≤ 1022

namespace Shallow

variable {hub : Hub}

theorem phase? (shallow : hub.Shallow) {id : ConnectionId} {phase : Phase}
    (found : hub.phase? id = some phase) : phase.Shallow := by
  obtain ⟨before, after, split, -⟩ := List.lookup_eq_some_iff.mp found
  exact shallow.phases (id, phase) (by rw [split]; simp)

theorem changePhase (shallow : hub.Shallow) (id : ConnectionId) {change : Phase → Phase}
    (keeps : ∀ phase : Phase, phase.Shallow → (change phase).Shallow) :
    (hub.changePhase id change).Shallow := by
  refine ⟨?_, shallow.delivered⟩
  intro entry member
  obtain ⟨old, inside, rfl⟩ := List.mem_map.mp member
  have present := shallow.phases old inside
  split
  · exact keeps old.2 present
  · exact present

theorem step (shallow : hub.Shallow) (event : Event) : (hub.step event).Shallow := by
  cases event with
  | opened limit =>
      refine ⟨?_, shallow.delivered⟩
      intro entry member
      rcases List.mem_append.mp member with old | new
      · exact shallow.phases entry (List.mem_filter.mp old).1
      · obtain rfl := List.mem_singleton.mp new
        trivial
  | arrived id arrival =>
      exact shallow.changePhase id fun phase present => present.meet _ arrival
  | stepped id =>
      cases found : hub.phase? id with
      | none =>
          rw [step_stepped_of_none found]
          exact shallow
      | some phase =>
          have here := shallow.phase? found
          rw [step_stepped found]
          refine ⟨(shallow.changePhase id fun _ _ => here.next).phases, ?_⟩
          intro sent member
          rcases List.mem_append.mp member with old | new
          · exact shallow.delivered sent old
          · obtain ⟨batch, handed, rfl⟩ := List.mem_map.mp new
            exact here.handed batch handed
  | closedAll => exact ⟨shallow.phases, shallow.delivered⟩
  | discarded id =>
      exact ⟨fun entry member => shallow.phases entry (List.mem_filter.mp member).1,
        shallow.delivered⟩

theorem run (shallow : hub.Shallow) (events : List Event) : (hub.run events).Shallow := by
  induction events generalizing hub with
  | nil => exact shallow
  | cons event later ih => exact ih (shallow.step event)

end Shallow

end Hub

/-! ## Main statement -/

/-- Whether no function over values calls itself more than `limit` deep for the containers in a
record. -/
def Record.StaysWithin (limit : Nat) (record : Record) : Prop :=
  ∀ (α : Type) (assembly : Value.Assembly α) (f : Value → α), assembly.Makes f →
    assembly.within f limit (.map record) = some (f (.map record))

theorem Record.staysWithin_iff {limit : Nat} {record : Record} :
    record.StaysWithin limit ↔ record.depth ≤ limit := by
  constructor
  · intro stays
    have visited := stays Unit ⟨fun _ => (), fun _ => ()⟩ (fun _ => ()) Value.makes_visit
    rw [Value.Assembly.within_eq Value.makes_visit] at visited
    change (Value.map record).depth ≤ limit
    by_contra deep
    rw [if_neg deep] at visited
    cases visited
  · intro shallow α assembly f makes
    rw [Value.Assembly.within_eq makes, if_pos]
    exact shallow

/-- Records that go downstream are shallow. Whatever bytes a connection meets, in whatever pieces,
it hands on the batches of the frames in them, and no record of a frame is deeper than 1022
containers, itself included, nor deeper than 1020 in a forward frame; normalizing keeps the depth.
The same holds at any moment for connections that move side by side, of the frames that they have
taken and of all that went downstream. What is done with such a record container by container, as
normalizing it, writing it and discarding it are, calls itself no deeper than that. -/
theorem delivered_records_are_shallow :
    (∀ (before : Hub) (limit : Nat) (script : List Happening),
      let frames := (ofStream (streamOf (before.heard limit script))).1
      (before.serve limit script).delivered = before.delivered ++
          (frames.flatMap Frame.delivery).map (before.registry.next, ·) ∧
        ∀ frame ∈ frames, ∀ entry ∈ frame.entries,
          entry.data.depth ≤ 1022 ∧ (frame.shape = .forward → entry.data.depth ≤ 1020) ∧
          entry.normalize.data.depth = entry.data.depth) ∧
    (∀ events : List Hub.Event,
      let hub := ({} : Hub).run events
      (∀ id frame after, hub.phase? id = some (.counting frame after) →
        ∀ entry ∈ frame.entries, entry.data.depth ≤ 1022 ∧
          (frame.shape = .forward → entry.data.depth ≤ 1020)) ∧
      ∀ sent ∈ hub.delivered, ∀ entry ∈ sent.2, entry.data.depth ≤ 1022) ∧
    (∀ (limit : Nat) (record : Record), record.StaysWithin limit ↔ record.depth ≤ limit) ∧
    Value.Assembly.Makes ⟨.array, .map⟩ Value.normalize ∧ Json.textOf.Makes Json.write ∧
    Value.Assembly.Makes ⟨fun _ => (), fun _ => ()⟩ fun _ => () := by
  refine ⟨?_, ?_, fun limit record => Record.staysWithin_iff, Value.makes_normalize,
    Json.makes_write, Value.makes_visit⟩
  · intro before limit script frames
    refine ⟨(Hub.served_serve before limit script).delivered, ?_⟩
    intro frame member entry inside
    have shallow := Frame.shallow_of_mem_ofStream _ frame member
    have bounds := shallow.depth_le inside
    exact ⟨bounds.1, bounds.2, Record.depth_normalize entry.data⟩
  · intro events hub
    have start : ({} : Hub).Shallow :=
      ⟨fun entry member => absurd member List.not_mem_nil,
        fun sent member => absurd member List.not_mem_nil⟩
    have shallow := start.run events
    refine ⟨?_, shallow.delivered⟩
    intro id frame after found entry inside
    have taken : frame.Shallow := shallow.phase? found
    exact taken.depth_le inside

end LogIntake
