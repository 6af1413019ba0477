import LogIntake.CommandLine
import LogIntake.Proofs.Grammar

/-!
# Options on a command line

How a line of arguments gives words to options, told without the reader: an option takes its word
from the same argument or from the next one, by its name or by its letter (`Spelled`), and a line is
one such option after the other (`Line`). A program that knows nothing but options with a value
accepts just these lines, if none is given twice and every word is accepted, and its settings are
what the options make of the defaults one by one (`read_eq_ok_iff`).
-/
set_option autoImplicit false

namespace LogIntake.CommandLine

open MessagePack (ok_of_bind)

variable {σ : Type}

/-! ## Lines -/

/-- An option that was given, with what it does and the word for it. -/
structure Given (σ : Type) where
  name : String
  set : Setter σ
  word : String

/-- Whether a word can be the value of the option before it: it does not look like an option. -/
def Plain (word : String) : Prop := ∀ letter rest, word.toList ≠ '-' :: letter :: rest

/-- Whether these arguments give an option a word. -/
inductive Spelled (parameters : List (Parameter σ)) (parameter : Parameter σ) (word : String) :
    List String → Prop
  | named (known : parameters.find? (·.name = parameter.name) = some parameter)
    (plain : Plain word) : Spelled parameters parameter word ["--" ++ parameter.name, word]
  | namedJoined (known : parameters.find? (·.name = parameter.name) = some parameter) :
    Spelled parameters parameter word ["--" ++ parameter.name ++ "=" ++ word]
  | lettered {letter : Char} (known : parameters.find? (·.letter = some letter) = some parameter)
    (plain : Plain word) : Spelled parameters parameter word [String.ofList ['-', letter], word]
  | letteredJoined {letter first : Char} {rest : List Char}
    (known : parameters.find? (·.letter = some letter) = some parameter)
    (split : word.toList = first :: rest) (unlike : first ≠ '=') :
    Spelled parameters parameter word [String.ofList ('-' :: letter :: word.toList)]
  | letteredEquals {letter : Char}
    (known : parameters.find? (·.letter = some letter) = some parameter) :
    Spelled parameters parameter word [String.ofList ('-' :: letter :: '=' :: word.toList)]

/-- Whether a line gives these options, in this order. Nothing may follow two hyphens that stand
alone, since operands would. -/
inductive Line (parameters : List (Parameter σ)) : List String → List (Given σ) → Prop
  | nothing : Line parameters [] []
  | hyphens : Line parameters ["--"] []
  | option {parameter : Parameter σ} {set : Setter σ} {word : String}
    {arguments later : List String} {given : List (Given σ)}
    (valued : parameter.action = .value set)
    (spelled : Spelled parameters parameter word arguments) (rest : Line parameters later given) :
    Line parameters (arguments ++ later) (⟨parameter.name, set, word⟩ :: given)

/-- What is asked of an option: it can be told apart from values and from two hyphens, and where it
takes no value it ends the reading. -/
structure Parameter.Regular (parameter : Parameter σ) : Prop where
  named : parameter.name ≠ ""
  plain : '=' ∉ parameter.name.toList
  lettered : parameter.letter ≠ some '-'
  valued : ∀ set, parameter.action ≠ .flag set

def Regular (parameters : List (Parameter σ)) : Prop := ∀ parameter ∈ parameters, parameter.Regular

namespace Progress

def judge (progress : Progress σ) (given : Given σ) : Except Refusal (Progress σ) :=
  progress.put given.name (given.set given.word)

def run (parameters : List (Parameter σ)) (progress : Progress σ) (arguments : List String) :
    Except Refusal σ := do
  (← arguments.foldlM (take parameters) progress).finish

/-- Whether the reading goes on before options: no operand is known, and no two hyphens were met. -/
structure Open (progress : Progress σ) : Prop where
  literal : progress.literal = false
  operands : progress.operands = []

structure Clear (progress : Progress σ) : Prop extends Open progress where
  pending : progress.pending = none

variable {parameters : List (Parameter σ)} {progress after : Progress σ}

theorem Open.put (opened : progress.Open) {name : String} {set : σ → Except Refusal σ}
    (run : progress.put name set = .ok after) :
    after.Open ∧ after.pending = progress.pending := by
  unfold Progress.put at run
  split at run
  · cases run
  · cases found : set progress.settings with
    | error refusal => rw [found] at run; cases run
    | ok settings =>
        rw [found] at run
        cases run
        exact ⟨⟨opened.literal, opened.operands⟩, rfl⟩

theorem Open.resolve (opened : progress.Open) (run : progress.resolve = .ok after) :
    after.Clear := by
  unfold Progress.resolve at run
  split at run
  · next nothing =>
      cases run
      exact ⟨opened, nothing⟩
  · cases run
  · have unburdened : Open { progress with pending := none } := ⟨opened.literal, opened.operands⟩
    obtain ⟨still, nothing⟩ := unburdened.put run
    exact ⟨still, nothing⟩

theorem Clear.resolve (clear : progress.Clear) : progress.resolve = .ok progress := by
  rw [Progress.resolve, clear.pending]

/-! ## Single arguments -/

theorem option_some {parameter : Parameter σ} {set : Setter σ}
    (valued : parameter.action = .value set) (word : String) :
    progress.option parameter (some word) =
      progress.resolve >>= fun next => next.judge ⟨parameter.name, set, word⟩ := by
  unfold option
  rw [valued]
  rfl

theorem option_none {parameter : Parameter σ} {set : Setter σ}
    (valued : parameter.action = .value set) :
    progress.option parameter none = progress.resolve >>= fun next =>
      .ok { next with pending := some ⟨parameter.name, set, none⟩ } := by
  unfold option
  rw [valued]
  rfl

theorem takeWhile_name {name : List Char} (plain : '=' ∉ name) {rest : List Char}
    (ends : rest = [] ∨ ∃ value, rest = '=' :: value) :
    (name ++ rest).takeWhile (· ≠ '=') = name := by
  have inside : ∀ letter ∈ name, decide (letter ≠ '=') = true := by
    intro letter member
    rw [decide_eq_true_eq]
    rintro rfl
    exact plain member
  rw [List.takeWhile_append_of_pos inside]
  rcases ends with rfl | ⟨value, rfl⟩
  · simp
  · simp

theorem take_of_name (opened : progress.Open) {name : String} (present : name ≠ "")
    (rest : List Char) :
    progress.take parameters (String.ofList ('-' :: '-' :: (name.toList ++ rest))) =
      named parameters progress (name.toList ++ rest) := by
  obtain ⟨first, others, split⟩ :=
    List.exists_cons_of_ne_nil (mt String.toList_eq_nil_iff.mp present)
  rw [take, opened.literal, String.toList_ofList, split, List.cons_append]
  rfl

theorem spelling_alone (name : String) :
    "--" ++ name = String.ofList ('-' :: '-' :: name.toList) := by
  rw [← String.toList_inj]
  simp

theorem spelling_joined (name word : String) :
    "--" ++ name ++ "=" ++ word =
      String.ofList ('-' :: '-' :: (name.toList ++ '=' :: word.toList)) := by
  rw [← String.toList_inj]
  simp

theorem take_named (opened : progress.Open) {parameter : Parameter σ}
    (present : parameter.name ≠ "") (plain : '=' ∉ parameter.name.toList)
    (known : parameters.find? (·.name = parameter.name) = some parameter) :
    progress.take parameters ("--" ++ parameter.name) = progress.option parameter none := by
  have whole := takeWhile_name plain (.inl rfl)
  have taken := @take_of_name _ parameters _ opened _ present []
  rw [List.append_nil] at whole taken
  rw [spelling_alone, taken, named]
  simp only [whole, String.ofList_toList, known, List.drop_length]

theorem take_namedJoined (opened : progress.Open) {parameter : Parameter σ}
    (present : parameter.name ≠ "") (plain : '=' ∉ parameter.name.toList)
    (known : parameters.find? (·.name = parameter.name) = some parameter) (word : String) :
    progress.take parameters ("--" ++ parameter.name ++ "=" ++ word) =
      progress.option parameter (some word) := by
  rw [spelling_joined, take_of_name opened present, named]
  simp only [takeWhile_name plain (.inr ⟨_, rfl⟩), String.ofList_toList, known, List.drop_left]

theorem take_of_letter (opened : progress.Open) {letter : Char} (unlike : letter ≠ '-')
    (rest : List Char) :
    progress.take parameters (String.ofList ('-' :: letter :: rest)) =
      letters parameters progress (letter :: rest) := by
  rw [take, opened.literal, String.toList_ofList]
  simp only [Bool.false_eq_true, if_false]
  split
  · next same => cases same; exact absurd rfl unlike
  · next same => cases same; exact absurd rfl unlike
  · next same => cases same; rfl
  · next others => exact (others _ _ rfl).elim
  · next others _ => exact (others _ _ rfl).elim

theorem take_plain {name : String} {set : Setter σ} {word : String} (opened : progress.Open)
    (waits : progress.pending = some ⟨name, set, none⟩) (plain : Plain word) :
    progress.take parameters word =
      .ok { progress with pending := some ⟨name, set, some word⟩ } := by
  rw [take, opened.literal, waits]
  simp only [Bool.false_eq_true, if_false]
  split
  · next same => exact absurd same (plain _ _)
  · next same => exact absurd same (plain _ _)
  · next same => exact absurd same (plain _ _)
  · next same _ _ _ => cases same; rfl
  · next others => exact (others _ _ rfl).elim

def attachedWord : List Char → Option String
  | [] => none
  | '=' :: value => some (String.ofList value)
  | value => some (String.ofList value)

theorem attachedWord_of_ne {first : Char} (unlike : first ≠ '=') (rest : List Char) :
    attachedWord (first :: rest) = some (String.ofList (first :: rest)) := by
  simp [attachedWord, unlike]

theorem letters_of_value {parameter : Parameter σ} {set : Setter σ} {letter : Char}
    (known : parameters.find? (·.letter = some letter) = some parameter)
    (valued : parameter.action = .value set) (rest : List Char) :
    letters parameters progress (letter :: rest) =
      progress.option parameter (attachedWord rest) := by
  rw [letters, known]
  dsimp only
  rw [valued]
  cases rest with
  | nil => rfl
  | cons first others =>
      by_cases equals : first = '='
      · subst equals
        rfl
      · rw [attachedWord_of_ne equals]
        simp [equals]

theorem unlike_hyphen (regular : Regular parameters) {parameter : Parameter σ} {letter : Char}
    (known : parameters.find? (·.letter = some letter) = some parameter) : letter ≠ '-' := by
  have named := List.find?_some known
  rw [decide_eq_true_eq] at named
  rintro rfl
  exact (regular parameter (List.mem_of_find?_eq_some known)).lettered named

/-- An argument of an option makes of any progress what the option does with its word, or leaves the
option waiting for the next argument. -/
theorem take_spelled (regular : Regular parameters) {parameter : Parameter σ} {set : Setter σ}
    (valued : parameter.action = .value set) {word : String} {arguments : List String}
    (spelled : Spelled parameters parameter word arguments) :
    ∃ argument, (arguments = [argument] ∧ ∀ progress : Progress σ, progress.Open →
        progress.take parameters argument = progress.option parameter (some word)) ∨
      arguments = [argument, word] ∧ Plain word ∧ ∀ progress : Progress σ, progress.Open →
        progress.take parameters argument = progress.option parameter none := by
  cases spelled with
  | named known plain =>
      have usual := regular parameter (List.mem_of_find?_eq_some known)
      refine ⟨_, .inr ⟨rfl, plain, fun progress opened => ?_⟩⟩
      exact take_named opened usual.named usual.plain known
  | namedJoined known =>
      have usual := regular parameter (List.mem_of_find?_eq_some known)
      refine ⟨_, .inl ⟨rfl, fun progress opened => ?_⟩⟩
      exact take_namedJoined opened usual.named usual.plain known word
  | @lettered letter known plain =>
      have unlike := unlike_hyphen regular known
      refine ⟨_, .inr ⟨rfl, plain, fun progress opened => ?_⟩⟩
      rw [take_of_letter opened unlike, letters_of_value known valued, attachedWord]
  | @letteredJoined letter first rest known split unlike =>
      have other := unlike_hyphen regular known
      have whole : String.ofList (first :: rest) = word := by rw [← split, String.ofList_toList]
      refine ⟨_, .inl ⟨rfl, fun progress opened => ?_⟩⟩
      rw [take_of_letter opened other, letters_of_value known valued, split,
        attachedWord_of_ne unlike, whole]
  | @letteredEquals letter known =>
      have unlike := unlike_hyphen regular known
      refine ⟨_, .inl ⟨rfl, fun progress opened => ?_⟩⟩
      rw [take_of_letter opened unlike, letters_of_value known valued, attachedWord,
        String.ofList_toList]

/-! ## Whole lines -/

theorem run_cons (progress : Progress σ) (argument : String) (later : List String) :
    run parameters progress (argument :: later) =
      progress.take parameters argument >>= fun next => run parameters next later := by
  rw [run, List.foldlM_cons, bind_assoc]
  rfl

theorem Open.finish (opened : progress.Open) :
    progress.finish = progress.resolve >>= fun last => .ok last.settings := by
  rw [Progress.finish]
  cases run : progress.resolve with
  | error refusal => rfl
  | ok last =>
      have none := (opened.resolve run).operands
      change (if last.operands.isEmpty then _ else _) = _
      rw [none]
      rfl

theorem resolve_literal (progress : Progress σ) :
    ({ progress with literal := true } : Progress σ).resolve =
      progress.resolve >>= fun next => .ok { next with literal := true } := by
  rcases progress with ⟨settings, given, pending, operands, literal⟩
  cases pending with
  | none => rfl
  | some waiting =>
      rcases waiting with ⟨name, set, _ | word⟩
      · rfl
      · simp only [resolve, put]
        split
        · rfl
        · cases set word settings <;> rfl

theorem Open.finish_literal (opened : progress.Open) :
    ({ progress with literal := true } : Progress σ).finish =
      progress.resolve >>= fun last => .ok last.settings := by
  rw [Progress.finish, resolve_literal]
  cases run : progress.resolve with
  | error refusal => rfl
  | ok last =>
      have none := (opened.resolve run).operands
      change (if last.operands.isEmpty then _ else _) = _
      rw [none]
      rfl

theorem Clear.resolve_waiting (clear : progress.Clear) (name : String) (set : Setter σ)
    (word : String) :
    ({ progress with pending := some ⟨name, set, some word⟩ } : Progress σ).resolve =
      progress.judge ⟨name, set, word⟩ := by
  rcases progress with ⟨settings, given, pending, operands, literal⟩
  obtain rfl : pending = none := clear.pending
  rfl

theorem Clear.judge (clear : progress.Clear) {given : Given σ}
    (run : progress.judge given = .ok after) : after.Clear := by
  obtain ⟨still, same⟩ := clear.put run
  exact ⟨still, same.trans clear.pending⟩

theorem run_of_spelled (regular : Regular parameters) {parameter : Parameter σ} {set : Setter σ}
    (valued : parameter.action = .value set) {word : String} {arguments later : List String}
    (spelled : Spelled parameters parameter word arguments) {goOn : Progress σ → Except Refusal σ}
    (reads : ∀ {after : Progress σ}, after.Open →
      run parameters after later = after.resolve >>= goOn)
    (opened : progress.Open) : run parameters progress (arguments ++ later) =
      progress.resolve >>= fun next => next.judge ⟨parameter.name, set, word⟩ >>= goOn := by
  obtain ⟨argument, ⟨rfl, taken⟩ | ⟨rfl, plain, taken⟩⟩ := take_spelled regular valued spelled
  · rw [List.singleton_append, run_cons, taken progress opened, option_some valued, bind_assoc]
    cases found : progress.resolve with
    | error refusal => rfl
    | ok next =>
        change (next.judge _ >>= fun after => run parameters after later) = next.judge _ >>= goOn
        cases judged : next.judge ⟨parameter.name, set, word⟩ with
        | error refusal => rfl
        | ok after =>
            have clear := (opened.resolve found).judge judged
            change run parameters after later = goOn after
            rw [reads clear.toOpen, clear.resolve]
            rfl
  · rw [List.cons_append, run_cons, taken progress opened, option_none valued]
    cases found : progress.resolve with
    | error refusal => rfl
    | ok next =>
        have clear := opened.resolve found
        have waiting : Open { next with pending := some ⟨parameter.name, set, none⟩ } :=
          ⟨clear.literal, clear.operands⟩
        have supplied : Open { next with pending := some ⟨parameter.name, set, some word⟩ } :=
          ⟨clear.literal, clear.operands⟩
        change run parameters _ (word :: later) = next.judge _ >>= goOn
        rw [run_cons, take_plain waiting rfl plain]
        change run parameters _ later = next.judge _ >>= goOn
        rw [reads supplied, clear.resolve_waiting]

theorem run_of_line (regular : Regular parameters) {arguments : List String}
    {given : List (Given σ)} (line : Line parameters arguments given)
    (opened : progress.Open) : run parameters progress arguments = progress.resolve >>=
      fun next => given.foldlM judge next >>= fun last => .ok last.settings := by
  induction line generalizing progress with
  | nothing => exact opened.finish
  | hyphens =>
      have taken : progress.take parameters "--" = .ok { progress with literal := true } := by
        rw [take, opened.literal]
        rfl
      rw [run_cons, taken]
      exact opened.finish_literal
  | option valued spelled rest ih =>
      rw [run_of_spelled regular valued spelled ih opened]
      refine bind_congr fun next => ?_
      rw [List.foldlM_cons, bind_assoc]

/-! ## Accepted lines -/

theorem option_eq_ok (regular : Regular parameters) {parameter : Parameter σ}
    (among : parameter ∈ parameters) {attached : Option String}
    (run : progress.option parameter attached = .ok after) :
    ∃ set before, parameter.action = .value set ∧ progress.resolve = .ok before ∧
      match attached with
      | some word => before.judge ⟨parameter.name, set, word⟩ = .ok after
      | none => after = { before with pending := some ⟨parameter.name, set, none⟩ } := by
  unfold option at run
  cases acts : parameter.action with
  | flag set => exact absurd acts ((regular parameter among).valued set)
  | stop refusal =>
      rw [acts] at run
      cases attached with
      | some word => cases run
      | none =>
          obtain ⟨before, -, rest⟩ := ok_of_bind run
          cases rest
  | value set =>
      rw [acts] at run
      cases attached with
      | some word =>
          obtain ⟨before, found, judged⟩ := ok_of_bind run
          exact ⟨set, before, rfl, found, judged⟩
      | none =>
          obtain ⟨before, found, rest⟩ := ok_of_bind run
          cases rest
          exact ⟨set, before, rfl, found, rfl⟩

theorem named_eq_ok {argument : List Char} (run : named parameters progress argument = .ok after) :
    ∃ parameter ∈ parameters, parameters.find? (·.name = parameter.name) = some parameter ∧
      (argument = parameter.name.toList ∧ progress.option parameter none = .ok after ∨
        ∃ word : String, argument = parameter.name.toList ++ '=' :: word.toList ∧
          progress.option parameter (some word) = .ok after) := by
  unfold named at run
  dsimp only at run
  split at run
  · cases run
  · next parameter known =>
      have among := List.mem_of_find?_eq_some known
      have name : parameter.name.toList = argument.takeWhile (· ≠ '=') := by
        have same := List.find?_some known
        rw [decide_eq_true_eq] at same
        rw [same, String.toList_ofList]
      rw [← name] at run
      rw [← name, String.ofList_toList] at known
      have whole := List.takeWhile_append_dropWhile (p := (· ≠ '=')) (l := argument)
      have ends := List.head?_dropWhile_not (· ≠ '=') argument
      rw [← name] at whole
      generalize argument.dropWhile (· ≠ '=') = rest at whole ends
      subst whole
      rw [List.drop_left] at run
      refine ⟨parameter, among, known, ?_⟩
      cases rest with
      | nil => exact .inl ⟨List.append_nil _, run⟩
      | cons first value =>
          obtain rfl : first = '=' := by simpa using ends
          exact .inr ⟨String.ofList value, by rw [String.toList_ofList], run⟩

theorem letters_eq_ok (regular : Regular parameters) {letter : Char} {rest : List Char}
    (run : letters parameters progress (letter :: rest) = .ok after) :
    ∃ parameter ∈ parameters, parameters.find? (·.letter = some letter) = some parameter ∧
      (rest = [] ∧ progress.option parameter none = .ok after ∨
        ∃ word : String, progress.option parameter (some word) = .ok after ∧
          (rest = '=' :: word.toList ∨
            rest = word.toList ∧ ∃ first others, word.toList = first :: others ∧ first ≠ '=')) := by
  cases known : parameters.find? (·.letter = some letter) with
  | none =>
      rw [letters, known] at run
      cases run
  | some parameter =>
      have among := List.mem_of_find?_eq_some known
      refine ⟨parameter, among, rfl, ?_⟩
      cases acts : parameter.action with
      | flag set => exact absurd acts ((regular parameter among).valued set)
      | stop refusal =>
          -- the reading ends at this letter, whatever follows it
          have ends : ∀ next, progress.option parameter none ≠ .ok next := by
            intro next goes
            obtain ⟨set, before, valued, -⟩ := option_eq_ok regular among goes
            rw [acts] at valued
            cases valued
          rw [letters, known] at run
          dsimp only at run
          rw [acts] at run
          obtain ⟨next, goes, -⟩ := ok_of_bind run
          exact absurd goes (ends next)
      | value set =>
          rw [letters_of_value known acts] at run
          cases rest with
          | nil => exact .inl ⟨rfl, run⟩
          | cons first others =>
              by_cases equals : first = '='
              · subst equals
                exact .inr ⟨String.ofList others, run, .inl (by rw [String.toList_ofList])⟩
              · rw [attachedWord_of_ne equals] at run
                refine .inr ⟨String.ofList (first :: others), run, .inr ?_⟩
                rw [String.toList_ofList]
                exact ⟨rfl, first, others, rfl, equals⟩

/-- What the reading of an argument leaves that was accepted where no option waited for a word. -/
inductive Accepted (parameters : List (Parameter σ)) (argument : String) (progress : Progress σ) :
    Progress σ → Prop
  | hyphens (alone : argument = "--") :
    Accepted parameters argument progress { progress with literal := true }
  | whole {parameter : Parameter σ} {set : Setter σ} {word : String} {after : Progress σ}
    (valued : parameter.action = .value set)
    (spelled : Spelled parameters parameter word [argument]) (clear : after.Clear) :
    Accepted parameters argument progress after
  | waits {parameter : Parameter σ} {set : Setter σ} {after : Progress σ}
    (valued : parameter.action = .value set)
    (spelled : ∀ word, Plain word → Spelled parameters parameter word [argument, word])
    (opened : after.Open) (pending : after.pending = some ⟨parameter.name, set, none⟩) :
    Accepted parameters argument progress after

theorem accepted_of_attached (regular : Regular parameters) (opened : progress.Open)
    {parameter : Parameter σ} (among : parameter ∈ parameters) {argument word : String}
    (run : progress.option parameter (some word) = .ok after)
    (spelled : Spelled parameters parameter word [argument]) :
    Accepted parameters argument progress after := by
  obtain ⟨set, before, valued, found, judged⟩ := option_eq_ok regular among run
  exact .whole valued spelled ((opened.resolve found).judge judged)

theorem accepted_of_alone (regular : Regular parameters) (opened : progress.Open)
    {parameter : Parameter σ} (among : parameter ∈ parameters) {argument : String}
    (run : progress.option parameter none = .ok after)
    (spelled : ∀ word, Plain word → Spelled parameters parameter word [argument, word]) :
    Accepted parameters argument progress after := by
  obtain ⟨set, before, valued, found, same⟩ := option_eq_ok regular among run
  dsimp only at same
  subst same
  have clear := opened.resolve found
  exact .waits valued spelled ⟨clear.literal, clear.operands⟩ rfl

theorem operand_ne_ok (opened : progress.Open) (argument : String) :
    progress.operand argument ≠ .ok after := by
  rw [operand, opened.operands]
  intro run
  cases run

def Ready (progress : Progress σ) : Prop :=
  ∀ name set, progress.pending ≠ some ⟨name, set, none⟩

theorem accepted_of_take (regular : Regular parameters) (opened : progress.Open)
    (ready : progress.Ready) {argument : String}
    (run : progress.take parameters argument = .ok after) :
    Accepted parameters argument progress after := by
  have written := @String.ofList_toList argument
  rw [take, opened.literal] at run
  simp only [Bool.false_eq_true, if_false] at run
  split at run
  · next same =>
      rw [same] at written
      cases run
      exact .hyphens written.symm
  · next same =>
      rw [same] at written
      obtain ⟨parameter, among, known, ⟨rfl, alone⟩ | ⟨word, rfl, attached⟩⟩ := named_eq_ok run
      · refine accepted_of_alone regular opened among alone fun word plain => ?_
        rw [← written, ← spelling_alone]
        exact .named known plain
      · refine accepted_of_attached regular opened among attached ?_
        rw [← written, ← spelling_joined]
        exact .namedJoined known
  · next same =>
      rw [same] at written
      obtain ⟨parameter, among, known, ⟨rfl, alone⟩ | ⟨word, attached, rfl | ⟨rfl, shape⟩⟩⟩ :=
        letters_eq_ok regular run
      · refine accepted_of_alone regular opened among alone fun word plain => ?_
        rw [← written]
        exact .lettered known plain
      · refine accepted_of_attached regular opened among attached ?_
        rw [← written]
        exact .letteredEquals known
      · refine accepted_of_attached regular opened among attached ?_
        obtain ⟨first, others, split, unlike⟩ := shape
        rw [← written]
        exact .letteredJoined known split unlike
  · next waits _ _ _ => exact absurd waits (ready _ _)
  · exact absurd run (operand_ne_ok opened argument)

/-- What was accepted where an option waits is its word, or two hyphens that stand alone. -/
theorem plain_of_take (regular : Regular parameters) (opened : progress.Open) {name : String}
    {set : Setter σ} (waits : progress.pending = some ⟨name, set, none⟩) {argument : String}
    (run : progress.take parameters argument = .ok after) :
    argument = "--" ∧ after = { progress with literal := true } ∨
      Plain argument ∧ after.Open ∧ after.pending = some ⟨name, set, some argument⟩ := by
  -- an option cannot come next, since the one that waits would be judged first
  have stuck : ∀ parameter ∈ parameters, ∀ attached next,
      progress.option parameter attached ≠ .ok next := by
    intro parameter among attached next goes
    obtain ⟨_, before, -, found, -⟩ := option_eq_ok regular among goes
    rw [resolve, waits] at found
    cases found
  have written := @String.ofList_toList argument
  rw [take, opened.literal, waits] at run
  simp only [Bool.false_eq_true, if_false] at run
  split at run
  · next same =>
      rw [same] at written
      cases run
      exact .inl ⟨written.symm, by rw [waits]⟩
  · obtain ⟨parameter, among, -, ⟨-, goes⟩ | ⟨word, -, goes⟩⟩ := named_eq_ok run
    · exact absurd goes (stuck parameter among _ _)
    · exact absurd goes (stuck parameter among _ _)
  · obtain ⟨parameter, among, -, ⟨-, goes⟩ | ⟨word, goes, -⟩⟩ := letters_eq_ok regular run
    · exact absurd goes (stuck parameter among _ _)
    · exact absurd goes (stuck parameter among _ _)
  · next same _ _ plain =>
      cases same
      cases run
      exact .inr ⟨fun letter rest => plain letter rest, ⟨rfl, opened.operands⟩, rfl⟩
  · next others => exact (others _ _ rfl).elim

theorem eq_nil_of_literal {settings : σ} {arguments : List String}
    (operands : progress.operands = [])
    (accepted : run parameters { progress with literal := true } arguments = .ok settings) :
    arguments = [] := by
  cases arguments with
  | nil => rfl
  | cons argument later =>
      rw [run_cons, take, if_pos rfl, operand, operands] at accepted
      cases accepted

theorem exists_line (regular : Regular parameters) {settings : σ} (arguments : List String)
    {progress : Progress σ} (opened : progress.Open) (ready : progress.Ready)
    (accepted : run parameters progress arguments = .ok settings) :
    ∃ given, Line parameters arguments given := by
  match arguments with
  | [] => exact ⟨[], .nothing⟩
  | argument :: later =>
      rw [run_cons] at accepted
      obtain ⟨next, taken, rest⟩ := ok_of_bind accepted
      cases accepted_of_take regular opened ready taken with
      | hyphens alone =>
          obtain rfl := eq_nil_of_literal opened.operands rest
          exact ⟨[], alone ▸ .hyphens⟩
      | whole valued spelled clear =>
          have waitsNot : next.Ready := fun name set => by rw [clear.pending]; simp
          obtain ⟨given, line⟩ := exists_line regular later clear.toOpen waitsNot rest
          exact ⟨_, .option valued spelled line⟩
      | waits valued spelled still pending =>
          match later with
          | [] =>
              rw [run, List.foldlM_nil] at rest
              change next.finish = .ok settings at rest
              rw [still.finish, resolve, pending] at rest
              cases rest
          | word :: later =>
              rw [run_cons] at rest
              obtain ⟨last, supplied, rest⟩ := ok_of_bind rest
              rcases plain_of_take regular still pending supplied with
                ⟨-, rfl⟩ | ⟨plain, opened, filled⟩
              · -- two hyphens end the options, and the option still waits
                obtain rfl := eq_nil_of_literal still.operands rest
                change Progress.finish _ = _ at rest
                rw [still.finish_literal, resolve, pending] at rest
                cases rest
              · have waitsNot : last.Ready := fun name set => by rw [filled]; simp
                obtain ⟨given, line⟩ := exists_line regular later opened waitsNot rest
                exact ⟨_, .option valued (spelled word plain) line⟩

/-- Options that are judged one by one are accepted if each comes once and is accepted by itself. -/
theorem foldlM_judge {given : List (Given σ)} {settings : σ} :
    (given.foldlM judge progress >>= fun last => .ok last.settings) = .ok settings ↔
      (∀ entry ∈ given, entry.name ∉ progress.given) ∧ (given.map Given.name).Nodup ∧
        given.foldlM (fun settings entry => entry.set entry.word settings) progress.settings =
          .ok settings := by
  induction given generalizing progress with
  | nil =>
      rw [List.foldlM_nil, List.foldlM_nil]
      simp [pure, Except.pure, bind, Except.bind]
  | cons entry later ih =>
      rw [List.foldlM_cons, List.foldlM_cons, bind_assoc, judge, put]
      by_cases twice : entry.name ∈ progress.given
      · rw [if_pos twice]
        constructor
        · intro run
          cases run
        · rintro ⟨once, -⟩
          exact absurd twice (once entry List.mem_cons_self)
      · rw [if_neg twice]
        cases found : entry.set entry.word progress.settings with
        | error refusal =>
            constructor
            · intro run
              cases run
            · rintro ⟨-, -, run⟩
              cases run
        | ok next =>
            change (later.foldlM judge _ >>= _) = _ ↔ _
            rw [ih]
            have apart : (∀ other ∈ later, other.name ∉ entry.name :: progress.given) ↔
                entry.name ∉ later.map Given.name ∧
                  ∀ other ∈ later, other.name ∉ progress.given := by
              simp only [List.mem_cons, not_or, List.mem_map, not_exists, not_and, forall_and]
            rw [apart, List.forall_mem_cons, List.map_cons, List.nodup_cons]
            change _ ∧ _ ∧ later.foldlM _ next = _ ↔ _ ∧ _ ∧ later.foldlM _ next = _
            simp only [twice, not_false_eq_true, true_and]
            tauto

end Progress

/-! ## Programs that know nothing but options with a value -/

section

variable {grammar : Grammar σ} {defaults settings : σ} {arguments : List String}

theorem read_of_line (regular : Regular (grammar.parameters ++ commonParameters))
    (operands : grammar.operands = []) {given : List (Given σ)}
    (line : Line (grammar.parameters ++ commonParameters) arguments given) :
    grammar.read defaults arguments = .ok settings ↔ (given.map Given.name).Nodup ∧
      given.foldlM (fun settings entry => entry.set entry.word settings) defaults =
        .ok settings := by
  have opened :
      Progress.Open ({ settings := defaults, operands := grammar.operands } : Progress σ) :=
    ⟨rfl, operands⟩
  change Progress.run _ { settings := defaults, operands := grammar.operands } arguments = _ ↔ _
  rw [Progress.run_of_line regular line opened]
  change (given.foldlM Progress.judge _ >>= _) = _ ↔ _
  rw [Progress.foldlM_judge]
  simp

theorem read_eq_ok_iff (regular : Regular (grammar.parameters ++ commonParameters))
    (operands : grammar.operands = []) :
    grammar.read defaults arguments = .ok settings ↔
      ∃ given, Line (grammar.parameters ++ commonParameters) arguments given ∧
        (given.map Given.name).Nodup ∧
        given.foldlM (fun settings entry => entry.set entry.word settings) defaults =
          .ok settings := by
  constructor
  · intro accepted
    have opened :
        Progress.Open ({ settings := defaults, operands := grammar.operands } : Progress σ) :=
      ⟨rfl, operands⟩
    obtain ⟨given, line⟩ :=
      Progress.exists_line regular arguments opened (by simp [Progress.Ready]) accepted
    exact ⟨given, line, (read_of_line regular operands line).mp accepted⟩
  · rintro ⟨given, line, accepted⟩
    exact (read_of_line regular operands line).mpr accepted

end

end LogIntake.CommandLine
