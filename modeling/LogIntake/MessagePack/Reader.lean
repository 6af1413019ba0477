import LogIntake.MessagePack.Marker
import LogIntake.MessagePack.Refusal
import LogIntake.Value.Basic

/-!
# Values from MessagePack

`read` takes one value off the front of some bytes. It stops early in two ways, which callers treat
differently: the bytes end before the value does, or they can be no value whatever follows. Main
statement: a value that is read takes at least one byte and leaves an unchanged rest, so reading
again and again comes to an end.
-/
set_option autoImplicit false

namespace LogIntake.MessagePack

inductive Stop where
  | short
  /-- The bytes are no value, whatever follows them. -/
  | refused (cause : Refusal)
  deriving DecidableEq, Repr

abbrev Reader (α : Type) := StateT Bytes (Except Stop) α

namespace Reader

def refuse {α : Type} (cause : Refusal) : Reader α := throw (.refused cause)

def byte : Reader UInt8
  | [] => .error .short
  | first :: rest => .ok (first, rest)

def bytes (count : Nat) : Reader Bytes := fun input =>
  match Bytes.drop? count input with
  | none => .error .short
  | some rest => .ok (input.take count, rest)

def nat (width : Nat) : Reader Nat := Bytes.toNat <$> bytes width

def int (width : Nat) : Reader Int := Bytes.toInt <$> bytes width

private def manyOnto {α : Type} (item : Reader α) : (count : Nat) → List α → Reader (List α)
  | 0, done, input => .ok (done.reverse, input)
  | count + 1, done, input =>
    match item input with
    | .error stop => .error stop
    | .ok (next, rest) => manyOnto item count (next :: done) rest

def many {α : Type} (item : Reader α) (count : Nat) : Reader (List α) := manyOnto item count []

end Reader

/-- An item up to the values nested in it: a complete value without any, or the announcement of a
container. -/
inductive Head where
  | leaf (value : Value)
  | array (items : Nat)
  | map (fields : Nat)
  | extension
  deriving Repr

open Reader in
/-- Reads the fields that belong to a marker. Strings of either sort are read whole. -/
def readFields : Marker → Reader Head
  | .smallUInt number => return .leaf (.uint (UInt64.ofNat number.val))
  | .smallMap fields => return .map fields.val
  | .smallArray items => return .array items.val
  | .smallStr length => return .leaf (.ofStringBytes (← bytes length.val))
  | .nil => return .leaf .nil
  | .reserved => refuse .reservedMarker
  | .bool truth => return .leaf (.bool truth)
  | .bin width => return .leaf (.binary (← bytes (← nat width.bytes)))
  | .ext width => do
    let _ ← nat width.bytes
    return .extension
  | .float32 => return .leaf (.float (Binary64.ofBinary32Bits (UInt32.ofNat (← nat 4))))
  | .float64 => return .leaf (.float ⟨UInt64.ofNat (← nat 8)⟩)
  | .uint width => return .leaf (.uint (UInt64.ofNat (← nat width.bytes)))
  | .int width => return .leaf (.ofInt64 (Int64.ofInt (← int width.bytes)))
  | .fixedExt _ => return .extension
  | .str width => return .leaf (.ofStringBytes (← bytes (← nat width.bytes)))
  | .array width => return .array (← nat width.bytes)
  | .map width => return .map (← nat width.bytes)
  | .smallInt index => return .leaf (.ofInt64 (Int64.ofInt ((index.val : Int) - 32)))

def readHead : Reader Head := do readFields (Marker.ofByte (← Reader.byte))

/-- The key of a map that starts with this head: text, or the bytes of a binary string as text. -/
def Head.key (deeper : Bool) : Head → Except Refusal String
  | .leaf (.text content) => .ok content
  | .leaf (.binary content) => .ok (Utf8.decodeLossy content)
  | .leaf (.uint number) => .error (.key (.integer number.toNat))
  | .leaf (.int number) => .error (.key (.integer number.toInt))
  | .leaf (.bool truth) => .error (.key (.boolean truth))
  | .leaf (.float number) => .error (.key (.float number))
  | .leaf .nil => .error (.key .nil)
  | .leaf (.array _) | .array _ => .error (if deeper then .key .sequence else .tooDeep)
  | .leaf (.map _) | .map _ => .error (if deeper then .key .map else .tooDeep)
  | .extension => .error (if deeper then .key .extension else .tooDeep)

def readKey (deeper : Bool) : Reader String := do
  match (← readHead).key deeper with
  | .ok key => return key
  | .error cause => Reader.refuse cause

/-- Reads a value in which at most `depth` containers stand one inside the other. A container past
the limit is refused as soon as its length is read. -/
def readWithin : (depth : Nat) → Reader Value
  | 0 => do
    match ← readHead with
    | .leaf value => return value
    | _ => Reader.refuse .tooDeep
  | depth + 1 => do
    match ← readHead with
    | .leaf value => return value
    | .array items => return .array (← Reader.many (readWithin depth) items)
    | .map fields =>
      let field := do return (← readKey (depth ≠ 0), ← readWithin depth)
      return .map (Record.ofFields (← Reader.many field fields))
    | .extension => Reader.refuse .extension

def depthLimit : Nat := 1023

def read : Reader Value := readWithin depthLimit

/-- The value at the front of a buffer, with the count of bytes that it takes up; none when the
buffer ends before the value does. -/
def decode (buffer : Bytes) : Except Refusal (Option (Value × Nat)) :=
  match read buffer with
  | .ok (value, rest) => .ok (some (value, buffer.length - rest.length))
  | .error .short => .ok none
  | .error (.refused cause) => .error cause

/-! ## Runs -/

namespace Reader

theorem bind_of_ok {α β : Type} {lead : Reader α} (next : α → Reader β) {input rest : Bytes}
    {value : α} (run : lead input = .ok (value, rest)) :
    (lead >>= next) input = next value rest := by
  change Except.bind (lead input) (fun step => next step.1 step.2) = _
  rw [run]
  rfl

theorem bind_of_error {α β : Type} {lead : Reader α} (next : α → Reader β) {input : Bytes}
    {stop : Stop} (run : lead input = .error stop) : (lead >>= next) input = .error stop := by
  change Except.bind (lead input) (fun step => next step.1 step.2) = _
  rw [run]
  rfl

theorem bind_eq_ok {α β : Type} {lead : Reader α} {next : α → Reader β} {input rest : Bytes}
    {result : β} (run : (lead >>= next) input = .ok (result, rest)) :
    ∃ value middle, lead input = .ok (value, middle) ∧ next value middle = .ok (result, rest) := by
  cases outcome : lead input with
  | error stop => rw [bind_of_error next outcome] at run; cases run
  | ok step => rw [bind_of_ok next outcome] at run; exact ⟨step.1, step.2, rfl, run⟩

theorem map_of_ok {α β : Type} {reader : Reader α} (f : α → β) {input rest : Bytes} {value : α}
    (run : reader input = .ok (value, rest)) : (f <$> reader) input = .ok (f value, rest) :=
  bind_of_ok (fun value => pure (f value)) run

theorem map_eq_ok {α β : Type} {reader : Reader α} {f : α → β} {input rest : Bytes} {result : β}
    (run : (f <$> reader) input = .ok (result, rest)) :
    ∃ value, reader input = .ok (value, rest) ∧ f value = result := by
  change (reader >>= fun value => pure (f value)) input = _ at run
  obtain ⟨value, middle, first, last⟩ := bind_eq_ok run
  cases last
  exact ⟨value, first, rfl⟩

theorem many_zero {α : Type} (item : Reader α) : many item 0 = pure [] := rfl

private theorem manyOnto_eq {α : Type} (item : Reader α) (count : Nat) (done : List α) :
    manyOnto item count done = (done.reverse ++ ·) <$> many item count := by
  funext input
  change _ = Except.bind (many item count input) fun step => .ok (done.reverse ++ step.1, step.2)
  induction count generalizing done input with
  | zero => simp [manyOnto, many, Except.bind]
  | succ count ih =>
    simp only [manyOnto, many]
    cases item input with
    | error stop => rfl
    | ok step =>
      simp only
      rw [ih, ih [step.1]]
      cases many item count step.2 with
      | error stop => rfl
      | ok more => simp [Except.bind]

theorem many_succ {α : Type} (item : Reader α) (count : Nat) :
    many item (count + 1) = do return (← item) :: (← many item count) := by
  funext input
  cases outcome : item input with
  | error stop => rw [bind_of_error _ outcome]; simp [many, manyOnto, outcome]
  | ok step =>
    rw [bind_of_ok _ outcome]
    simp only [many, manyOnto, outcome]
    rw [manyOnto_eq]
    rfl

end Reader

/-! ## Progress -/

/-- Whatever the reader gives, it took at least `least` bytes for it off the front of its input. -/
def Reader.Takes {α : Type} (reader : Reader α) (least : Nat) : Prop :=
  ∀ input result rest, reader input = .ok (result, rest) →
    ∃ taken : Bytes, least ≤ taken.length ∧ input = taken ++ rest

namespace Reader.Takes

theorem pure {α : Type} (value : α) : Takes (Pure.pure value) 0 := by
  intro input result rest h
  cases h
  exact ⟨[], Nat.le_refl 0, rfl⟩

theorem refuse {α : Type} (cause : Refusal) (least : Nat) :
    Takes (Reader.refuse cause : Reader α) least := by
  intro input result rest h
  cases h

theorem mono {α : Type} {reader : Reader α} {least fewer : Nat} (takes : Takes reader least)
    (h : fewer ≤ least) : Takes reader fewer := by
  intro input result rest run
  obtain ⟨taken, enough, split⟩ := takes _ _ _ run
  exact ⟨taken, Nat.le_trans h enough, split⟩

theorem bind {α β : Type} {lead : Reader α} {next : α → Reader β} {least : Nat}
    (takes : Takes lead least) (follow : ∀ value, Takes (next value) 0) :
    Takes (lead >>= next) least := by
  intro input result rest run
  change Except.bind (lead input) (fun step => next step.1 step.2) = _ at run
  cases outcome : lead input with
  | error stop => rw [outcome] at run; cases run
  | ok step =>
    rw [outcome] at run
    obtain ⟨value, middle⟩ := step
    obtain ⟨front, enough, rfl⟩ := takes _ _ _ outcome
    obtain ⟨back, -, rfl⟩ := follow value _ _ _ run
    exact ⟨front ++ back, by simp only [List.length_append]; omega, by simp⟩

theorem map {α β : Type} {reader : Reader α} {least : Nat} (takes : Takes reader least)
    (f : α → β) : Takes (f <$> reader) least :=
  bind takes fun value => pure (f value)

theorem byte : Takes Reader.byte 1 := by
  intro input result rest run
  cases input with
  | nil => cases run
  | cons first tail => cases run; exact ⟨[_], Nat.le_refl 1, rfl⟩

theorem bytes (count : Nat) : Takes (Reader.bytes count) 0 := by
  intro input result rest run
  simp only [Reader.bytes, Bytes.drop?_eq] at run
  split at run
  · cases run
  · next found =>
    split at found
    · cases found
      cases run
      exact ⟨input.take count, Nat.zero_le _, (List.take_append_drop count input).symm⟩
    · cases found

theorem nat (width : Nat) : Takes (Reader.nat width) 0 := map (bytes width) Bytes.toNat

theorem int (width : Nat) : Takes (Reader.int width) 0 := map (bytes width) Bytes.toInt

theorem manyOnto {α : Type} {item : Reader α} (takes : Takes item 0) (count : Nat)
    (done : List α) : Takes (Reader.manyOnto item count done) 0 := by
  induction count generalizing done with
  | zero =>
    intro input result rest run
    cases run
    exact ⟨[], Nat.le_refl 0, rfl⟩
  | succ count ih =>
    intro input result rest run
    simp only [Reader.manyOnto] at run
    split at run
    · cases run
    · next outcome =>
      obtain ⟨front, -, rfl⟩ := takes _ _ _ outcome
      obtain ⟨back, -, rfl⟩ := ih _ _ _ _ run
      exact ⟨front ++ back, Nat.zero_le _, by simp⟩

theorem many {α : Type} {item : Reader α} (takes : Takes item 0) (count : Nat) :
    Takes (Reader.many item count) 0 := manyOnto takes count []

end Reader.Takes

open Reader in
theorem takes_readFields (marker : Marker) : Takes (readFields marker) 0 := by
  unfold readFields
  split
  all_goals
    first
    | exact Takes.pure _
    | exact Takes.refuse _ _
    | exact Takes.bind (Takes.bytes _) fun _ => Takes.pure _
    | exact Takes.bind (Takes.nat _) fun _ => Takes.pure _
    | exact Takes.bind (Takes.int _) fun _ => Takes.pure _
    | exact Takes.bind (Takes.nat _) fun _ => Takes.bind (Takes.bytes _) fun _ => Takes.pure _

theorem takes_readHead : Reader.Takes readHead 1 :=
  Reader.Takes.bind Reader.Takes.byte fun first => takes_readFields (Marker.ofByte first)

open Reader in
theorem takes_readKey (deeper : Bool) : Takes (readKey deeper) 1 := by
  refine Takes.bind takes_readHead fun head => ?_
  split
  · exact Takes.pure _
  · exact Takes.refuse _ _

open Reader in
theorem takes_readWithin (depth : Nat) : Takes (readWithin depth) 1 := by
  induction depth with
  | zero =>
    unfold readWithin
    refine Takes.bind takes_readHead fun head => ?_
    split
    · exact Takes.pure _
    · exact Takes.refuse _ _
  | succ depth ih =>
    unfold readWithin
    have field : Takes (do return (← readKey (depth ≠ 0), ← readWithin depth)) 0 :=
      Takes.bind ((takes_readKey _).mono (Nat.zero_le 1)) fun _ =>
        Takes.bind (ih.mono (Nat.zero_le 1)) fun _ => Takes.pure _
    refine Takes.bind takes_readHead fun head => ?_
    split
    · exact Takes.pure _
    · exact Takes.bind (Takes.many (ih.mono (Nat.zero_le 1)) _) fun _ => Takes.pure _
    · exact Takes.bind (Takes.many field _) fun _ => Takes.pure _
    · exact Takes.refuse _ _

theorem takes_read : Reader.Takes read 1 := takes_readWithin depthLimit

theorem length_rest_lt {input rest : Bytes} {value : Value} (run : read input = .ok (value, rest)) :
    rest.length < input.length := by
  obtain ⟨taken, enough, rfl⟩ := takes_read _ _ _ run
  simp only [List.length_append]
  omega

theorem decode_eq_some {buffer : Bytes} {value : Value} {consumed : Nat} :
    decode buffer = .ok (some (value, consumed)) ↔
      consumed ≤ buffer.length ∧ read buffer = .ok (value, buffer.drop consumed) := by
  unfold decode
  split
  · next other rest run =>
    obtain ⟨taken, -, rfl⟩ := takes_read _ _ _ run
    rw [run]
    constructor
    · intro h
      cases h
      refine ⟨by simp, ?_⟩
      rw [List.length_append, Nat.add_sub_cancel, List.drop_left]
    · rintro ⟨enough, h⟩
      simp only [Except.ok.injEq, Prod.mk.injEq] at h
      have length := congrArg List.length h.2
      rw [List.length_drop] at length
      rw [h.1, show (taken ++ rest).length - rest.length = consumed by omega]
  · next run => simp [run]
  · next run => simp [run]

theorem decode_eq_error {buffer : Bytes} {cause : Refusal} :
    decode buffer = .error cause ↔ read buffer = .error (.refused cause) := by
  unfold decode
  split <;> simp_all

theorem decode_eq_none {buffer : Bytes} :
    decode buffer = .ok none ↔ read buffer = .error .short := by
  unfold decode
  split <;> simp_all

theorem consumed_of_decode {buffer : Bytes} {value : Value} {consumed : Nat}
    (h : decode buffer = .ok (some (value, consumed))) :
    0 < consumed ∧ consumed ≤ buffer.length := by
  obtain ⟨enough, run⟩ := decode_eq_some.mp h
  have shorter := length_rest_lt run
  rw [List.length_drop] at shorter
  omega

end LogIntake.MessagePack
