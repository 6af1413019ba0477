/-!
# Command lines

A command line is read argument by argument against a `Grammar`, which lists the options and
operands and says what each of them does to the settings. A value is judged only when the next
option or operand comes or the line ends; until then it is pending. So of two faults the one that is
found first counts, and an unknown name is found at once.
-/
set_option autoImplicit false

namespace LogIntake.CommandLine

inductive Refusal where
  | unknownArgument
  /-- An option without the value that it needs, or with one that it does not offer. -/
  | invalidValue
  /-- A value that does not read as what the option takes. -/
  | valueValidation
  /-- An option given twice. -/
  | argumentConflict
  | tooManyValues
  | missingRequired
  | displayHelp
  | displayVersion
  deriving DecidableEq, Repr

abbrev Setter (σ : Type) := String → σ → Except Refusal σ

inductive Action (σ : Type) where
  | flag (set : σ → σ)
  | value (set : Setter σ)
  | stop (refusal : Refusal)

/-- An option, given as `--name` or by a letter as `-n`. -/
structure Parameter (σ : Type) where
  name : String
  letter : Option Char := none
  action : Action σ

structure Operand (σ : Type) where
  name : String
  set : Setter σ

/-- The options and operands of a program. All operands are required. -/
structure Grammar (σ : Type) where
  parameters : List (Parameter σ)
  operands : List (Operand σ) := []

def commonParameters {σ : Type} : List (Parameter σ) :=
  [{ name := "help", letter := some 'h', action := .stop .displayHelp },
    { name := "version", letter := some 'V', action := .stop .displayVersion }]

/-- An option or operand whose value is not yet judged, or not yet there. -/
structure Pending (σ : Type) where
  name : String
  set : Setter σ
  value : Option String

structure Progress (σ : Type) where
  settings : σ
  given : List String := []
  pending : Option (Pending σ) := none
  operands : List (Operand σ) := []
  /-- Whether the rest of the line is operands, whatever it looks like. -/
  literal : Bool := false

namespace Progress

variable {σ : Type}

/-- Takes note of an option or operand. None may come twice. -/
def put (progress : Progress σ) (name : String) (set : σ → Except Refusal σ) :
    Except Refusal (Progress σ) :=
  if name ∈ progress.given then .error .argumentConflict
  else
    (set progress.settings).map fun settings =>
      { progress with settings, given := name :: progress.given }

def resolve (progress : Progress σ) : Except Refusal (Progress σ) :=
  match progress.pending with
  | none => .ok progress
  | some ⟨_, _, none⟩ => .error .invalidValue
  | some ⟨name, set, some value⟩ => put { progress with pending := none } name (set value)

def option (progress : Progress σ) (parameter : Parameter σ) (attached : Option String) :
    Except Refusal (Progress σ) :=
  match parameter.action, attached with
  | .value set, some value => do (← progress.resolve).put parameter.name (set value)
  | .value set, none => do
    return { ← progress.resolve with pending := some ⟨parameter.name, set, none⟩ }
  | _, some _ => .error .tooManyValues
  | .flag set, none => do (← progress.resolve).put parameter.name (.ok ∘ set)
  | .stop refusal, none => do
    let _ ← progress.resolve
    throw refusal

/-- Takes options given by letters in one argument. What follows the letter of an option that takes
a value is that value, with or without an equals sign before it. -/
def letters (parameters : List (Parameter σ)) (progress : Progress σ) :
    List Char → Except Refusal (Progress σ)
  | [] => .ok progress
  | letter :: rest =>
    match parameters.find? (·.letter = some letter) with
    | none => .error .unknownArgument
    | some parameter =>
      match parameter.action, rest with
      | .value _, [] => progress.option parameter none
      | .value _, '=' :: value => progress.option parameter (some (String.ofList value))
      | .value _, value => progress.option parameter (some (String.ofList value))
      | _, _ => do letters parameters (← progress.option parameter none) rest

def named (parameters : List (Parameter σ)) (progress : Progress σ) (argument : List Char) :
    Except Refusal (Progress σ) :=
  let name := argument.takeWhile (· ≠ '=')
  match parameters.find? (·.name = String.ofList name) with
  | none => .error .unknownArgument
  | some parameter =>
    match argument.drop name.length with
    | [] => progress.option parameter none
    | _ :: value => progress.option parameter (some (String.ofList value))

def operand (progress : Progress σ) (argument : String) : Except Refusal (Progress σ) :=
  match progress.operands with
  | [] => .error .unknownArgument
  | ⟨name, set⟩ :: operands => do
    return { ← progress.resolve with pending := some ⟨name, set, some argument⟩, operands }

def take (parameters : List (Parameter σ)) (progress : Progress σ) (argument : String) :
    Except Refusal (Progress σ) :=
  if progress.literal then progress.operand argument
  else
    match argument.toList, progress.pending with
    | ['-', '-'], _ => .ok { progress with literal := true }
    | '-' :: '-' :: rest, _ => named parameters progress rest
    | '-' :: letter :: rest, _ => letters parameters progress (letter :: rest)
    | _, some ⟨name, set, none⟩ => .ok { progress with pending := some ⟨name, set, some argument⟩ }
    | _, _ => progress.operand argument

def finish (progress : Progress σ) : Except Refusal σ := do
  let progress ← progress.resolve
  if progress.operands.isEmpty then return progress.settings else throw .missingRequired

end Progress

def Grammar.read {σ : Type} (grammar : Grammar σ) (defaults : σ) (arguments : List String) :
    Except Refusal σ := do
  let start : Progress σ := { settings := defaults, operands := grammar.operands }
  (← arguments.foldlM (Progress.take (grammar.parameters ++ commonParameters)) start).finish

/-! ## Values of options -/

def word {σ : Type} (set : String → σ → σ) : Setter σ := fun value settings =>
  .ok (set value settings)

def path {σ : Type} (set : String → σ → σ) : Setter σ := fun value settings =>
  if value.isEmpty then .error .invalidValue else .ok (set value settings)

def reading {σ α : Type} (read : String → Option α) (set : α → σ → σ) : Setter σ :=
  fun value settings =>
    match read value with
    | some found => .ok (set found settings)
    | none => .error .valueValidation

def choice {σ α : Type} (words : List (String × α)) (set : α → σ → σ) : Setter σ :=
  fun value settings =>
    match words.lookup value with
    | some found => .ok (set found settings)
    | none => .error .invalidValue

end LogIntake.CommandLine
