import LogIntake.Proofs.Options
import LogIntake.Settings.Resolve

/-!
# Which setting counts

A setting has its word on the command line, its value in the settings file and its default, and the
first of these that is there counts. The settings that are resolved are told by that alone
(`settings_follow_precedence`), but for one of them: the log level that is the default does not
count when it is given as a word, so the file overrules it (`explicit_info_yields_to_file`).
-/
set_option autoImplicit false

namespace LogIntake

open CommandLine
open MessagePack (ok_of_bind)

namespace CommandLine

variable {σ : Type}

section

variable {word : String} {before after : σ}

theorem word_eq_ok {set : String → σ → σ} :
    CommandLine.word set word before = .ok after ↔
      ∃ found, some word = some found ∧ after = set found before := by
  rw [CommandLine.word]
  simp [eq_comm]

def path? (word : String) : Option String := if word = "" then none else some word

theorem path_eq_ok {set : String → σ → σ} :
    path set word before = .ok after ↔
      ∃ found, path? word = some found ∧ after = set found before := by
  rw [path, path?]
  by_cases empty : word = ""
  · simp [empty]
  · rw [if_neg empty, if_neg (mt String.isEmpty_iff.mp empty)]
    simp [eq_comm]

theorem reading_eq_ok {α : Type} {read : String → Option α} {set : α → σ → σ} :
    reading read set word before = .ok after ↔
      ∃ found, read word = some found ∧ after = set found before := by
  rw [reading]
  cases read word <;> simp [eq_comm]

theorem choice_eq_ok {α : Type} {words : List (String × α)} {set : α → σ → σ} :
    choice words set word before = .ok after ↔
      ∃ found, words.lookup word = some found ∧ after = set found before := by
  rw [choice]
  cases words.lookup word <;> simp [eq_comm]

end

def Given.wordOf (given : List (Given σ)) (name : String) : Option String :=
  (given.find? (·.name = name)).map Given.word

theorem Given.wordOf_cons (entry : Given σ) (later : List (Given σ)) (name : String) :
    Given.wordOf (entry :: later) name =
      if name = entry.name then some entry.word else Given.wordOf later name := by
  rw [wordOf, List.find?_cons]
  by_cases same : entry.name = name
  · simp [same]
  · simp [same, Ne.symm same, wordOf]

theorem Given.wordOf_eq_none {given : List (Given σ)} {name : String}
    (absent : name ∉ given.map Given.name) : Given.wordOf given name = none := by
  rw [wordOf, Option.map_eq_none_iff, List.find?_eq_none]
  intro entry member same
  rw [decide_eq_true_eq] at same
  exact absent (same ▸ List.mem_map_of_mem member)

theorem Line.exists_parameter {parameters : List (Parameter σ)} {arguments : List String}
    {given : List (Given σ)} (line : Line parameters arguments given) :
    ∀ entry ∈ given, ∃ parameter ∈ parameters,
      parameter.name = entry.name ∧ parameter.action = .value entry.set := by
  induction line with
  | nothing => exact fun entry member => absurd member List.not_mem_nil
  | hyphens => exact fun entry member => absurd member List.not_mem_nil
  | @option parameter set word arguments later given valued spelled rest ih =>
      intro entry member
      rcases List.mem_cons.mp member with rfl | member
      · refine ⟨parameter, ?_, rfl, valued⟩
        cases spelled with
        | named known => exact List.mem_of_find?_eq_some known
        | namedJoined known => exact List.mem_of_find?_eq_some known
        | lettered known => exact List.mem_of_find?_eq_some known
        | letteredJoined known => exact List.mem_of_find?_eq_some known
        | letteredEquals known => exact List.mem_of_find?_eq_some known
      · exact ih entry member

end CommandLine

namespace Overrides

def options : List (Parameter Overrides) := grammar.parameters ++ commonParameters

theorem regular_options : Regular options := by
  intro parameter member
  simp only [options, grammar, commonParameters, List.cons_append, List.nil_append,
    List.mem_cons, List.not_mem_nil, or_false] at member
  rcases member with rfl | rfl | rfl | rfl | rfl | rfl | rfl | rfl | rfl | rfl <;>
    exact ⟨by decide, by decide, by decide, by simp⟩

/-- A field of `Overrides`, so that what holds of every field is proved of all at once. -/
inductive Place where
  | file | host | port | maxConnections | maxFrameSize | output | metricsInterval | logLevel

namespace Place

def Kind : Place → Type
  | file | host | logLevel => String
  | port => UInt16
  | output => Output
  | maxConnections | maxFrameSize | metricsInterval => UInt64

def name : Place → String
  | file => "config"
  | host => "host"
  | port => "port"
  | maxConnections => "max-connections"
  | maxFrameSize => "max-frame-size"
  | output => "output"
  | metricsInterval => "metrics-interval"
  | logLevel => "log-level"

def read : (place : Place) → String → Option place.Kind
  | file => path?
  | host | logLevel => some
  | port => Digits.uint16?
  | output => fun word => Output.words.lookup word
  | maxConnections | maxFrameSize | metricsInterval => Digits.uint64?

def get : (place : Place) → Overrides → Option place.Kind
  | file => Overrides.file
  | host => Overrides.host
  | port => Overrides.port
  | maxConnections => Overrides.maxConnections
  | maxFrameSize => Overrides.maxFrameSize
  | output => Overrides.output
  | metricsInterval => Overrides.metricsInterval
  | logLevel => fun overrides => some overrides.logLevel

def put : (place : Place) → place.Kind → Overrides → Overrides
  | file, value, overrides => { overrides with file := some value }
  | host, value, overrides => { overrides with host := some value }
  | port, value, overrides => { overrides with port := some value }
  | maxConnections, value, overrides => { overrides with maxConnections := some value }
  | maxFrameSize, value, overrides => { overrides with maxFrameSize := some value }
  | output, value, overrides => { overrides with output := some value }
  | metricsInterval, value, overrides => { overrides with metricsInterval := some value }
  | logLevel, value, overrides => { overrides with logLevel := value }

theorem get_put_self (place : Place) (value : place.Kind) (overrides : Overrides) :
    place.get (place.put value overrides) = some value := by
  cases place <;> rfl

theorem get_put_of_ne {place other : Place} (different : other ≠ place) (value : place.Kind)
    (overrides : Overrides) : other.get (place.put value overrides) = other.get overrides := by
  cases place <;> cases other <;> first | rfl | exact absurd rfl different

theorem name_inj {place other : Place} (same : other.name = place.name) : other = place := by
  revert same
  cases place <;> cases other <;> simp [name]

theorem ext_get {one other : Overrides} (same : ∀ place : Place, place.get one = place.get other) :
    one = other := by
  cases one
  cases other
  obtain rfl := same .file
  obtain rfl := same .host
  obtain rfl := same .port
  obtain rfl := same .maxConnections
  obtain rfl := same .maxFrameSize
  obtain rfl := same .output
  obtain rfl := same .metricsInterval
  obtain rfl := Option.some.inj (same .logLevel)
  rfl

/-- An option puts what its word is read as in its place, if it is read as anything. -/
theorem exists_of_option {parameter : Parameter Overrides} (among : parameter ∈ options)
    {set : Setter Overrides} (valued : parameter.action = .value set) :
    ∃ place : Place, place.name = parameter.name ∧ ∀ {word : String} {before after : Overrides},
      set word before = .ok after ↔
        ∃ found, place.read word = some found ∧ after = place.put found before := by
  simp only [options, grammar, commonParameters, List.cons_append, List.nil_append,
    List.mem_cons, List.not_mem_nil, or_false] at among
  rcases among with rfl | rfl | rfl | rfl | rfl | rfl | rfl | rfl | rfl | rfl <;> cases valued
  · exact ⟨.file, rfl, path_eq_ok⟩
  · exact ⟨.host, rfl, word_eq_ok⟩
  · exact ⟨.port, rfl, reading_eq_ok⟩
  · exact ⟨.maxConnections, rfl, reading_eq_ok⟩
  · exact ⟨.maxFrameSize, rfl, reading_eq_ok⟩
  · exact ⟨.output, rfl, choice_eq_ok⟩
  · exact ⟨.metricsInterval, rfl, reading_eq_ok⟩
  · exact ⟨.logLevel, rfl, word_eq_ok⟩

end Place

/-- Whether a place holds what is read from a word, or what it held before if there is no word. -/
def Placed {α : Type} (word : Option String) (read : String → Option α)
    (before after : Option α) : Prop :=
  match word with
  | some word => ∃ found, read word = some found ∧ after = some found
  | none => after = before

def Overlay (word : String → Option String) (before after : Overrides) : Prop :=
  ∀ place : Place, Placed (word place.name) place.read (place.get before) (place.get after)

theorem overlay_none {before after : Overrides} :
    Overlay (fun _ => none) before after ↔ after = before := by
  constructor
  · exact Place.ext_get
  · rintro rfl place
    rfl

/-- A word for a place that no later word fills. -/
theorem overlay_put {place : Place} {word : String → Option String} (fresh : word place.name = none)
    (first : String) {before after : Overrides} :
    Overlay (fun name => if name = place.name then some first else word name) before after ↔
      ∃ found, place.read first = some found ∧ Overlay word (place.put found before) after := by
  -- at its own place it alone counts, and at any other place the later words do
  have own (found : place.Kind) : Placed (word place.name) place.read
      (place.get (place.put found before)) (place.get after) ↔ place.get after = some found := by
    rw [fresh, Place.get_put_self]
    rfl
  have others {other : Place} (different : other ≠ place) (found : place.Kind) :
      Placed (if other.name = place.name then some first else word other.name) other.read
        (other.get before) (other.get after) ↔
      Placed (word other.name) other.read (other.get (place.put found before))
        (other.get after) := by
    rw [if_neg fun same => different (Place.name_inj same), Place.get_put_of_ne different]
  constructor
  · intro laid
    have here : Placed (if place.name = place.name then _ else _) _ _ _ := laid place
    rw [if_pos rfl] at here
    obtain ⟨found, reads, filled⟩ := here
    refine ⟨found, reads, fun other => ?_⟩
    by_cases same : other = place
    · subst same
      exact (own found).mpr filled
    · exact (others same found).mp (laid other)
  · rintro ⟨found, reads, laid⟩ other
    by_cases same : other = place
    · subst same
      change Placed (if other.name = other.name then _ else _) _ _ _
      rw [if_pos rfl]
      exact ⟨found, reads, (own found).mp (laid other)⟩
    · exact (others same found).mpr (laid other)

/-- Words for different options are put in their places together, whatever their order. -/
theorem foldlM_set_eq_ok {given : List (Given Overrides)}
    (valued : ∀ entry ∈ given, ∃ parameter ∈ options,
      parameter.name = entry.name ∧ parameter.action = .value entry.set)
    (once : (given.map Given.name).Nodup) {before after : Overrides} :
    given.foldlM (fun overrides entry => entry.set entry.word overrides) before = .ok after ↔
      Overlay (Given.wordOf given) before after := by
  induction given generalizing before with
  | nil =>
      rw [List.foldlM_nil]
      change Except.ok before = .ok after ↔ Overlay (fun _ => none) before after
      rw [overlay_none, Except.ok.injEq, eq_comm]
  | cons entry later ih =>
      rw [List.map_cons, List.nodup_cons] at once
      obtain ⟨fresh, once⟩ := once
      obtain ⟨parameter, among, known, acts⟩ := valued entry List.mem_cons_self
      obtain ⟨place, named, puts⟩ := Place.exists_of_option among acts
      have same : place.name = entry.name := named.trans known
      have rest {middle : Overrides} := @ih (fun other member =>
        valued other (List.mem_cons_of_mem _ member)) once middle
      have words : Given.wordOf (entry :: later) = fun name =>
          if name = place.name then some entry.word else Given.wordOf later name := by
        rw [same]
        exact funext (Given.wordOf_cons entry later)
      rw [List.foldlM_cons, words, overlay_put (same ▸ Given.wordOf_eq_none fresh)]
      constructor
      · intro run
        obtain ⟨middle, first, run⟩ := ok_of_bind run
        obtain ⟨found, reads, rfl⟩ := puts.mp first
        exact ⟨found, reads, rest.mp run⟩
      · rintro ⟨found, reads, laid⟩
        rw [puts.mpr ⟨found, reads, rfl⟩]
        exact rest.mpr laid

theorem read_eq_ok_of_line {arguments : List String} {given : List (Given Overrides)}
    (line : Line options arguments given) {overrides : Overrides} :
    read arguments = .ok overrides ↔
      (given.map Given.name).Nodup ∧ Overlay (Given.wordOf given) {} overrides := by
  rw [read, read_of_line regular_options rfl line]
  exact and_congr_right fun once => foldlM_set_eq_ok line.exists_parameter once

end Overrides

namespace Settings

variable {α β : Type}

/-- Whether a setting is what a source reads as, or something other where there is no source. -/
def Taken (source : Option β) (read : β → Option α) (otherwise setting : α) : Prop :=
  match source with
  | some found => read found = some setting
  | none => setting = otherwise

/-- Whether a setting is what its word reads as; without a word, what its value in the file reads
as; and without either, the default. A value that is there has to read as something even so. -/
def Precedence (word : Option String) (readWord : String → Option α) (value : Option Toml)
    (readValue : Toml → Option α) (default setting : α) : Prop :=
  ∃ filed, Taken value readValue default filed ∧ Taken word readWord filed setting

theorem taken_iff_placed {word : Option String} {read : String → Option α}
    {filed setting : α} :
    Taken word read filed setting ↔
      ∃ said, Overrides.Placed word read none said ∧ setting = said.getD filed := by
  cases word with
  | none => simp [Taken, Overrides.Placed]
  | some word =>
      constructor
      · intro reads
        exact ⟨some setting, ⟨setting, reads, rfl⟩, rfl⟩
      · rintro ⟨_, ⟨found, reads, rfl⟩, rfl⟩
        exact reads

/-! ## The file -/

def port? (value : Toml) : Option UInt16 := (number? 16 value).map UInt16.ofNat

def count? (value : Toml) : Option UInt64 := (number? 64 value).map UInt64.ofNat

structure Sections (fields : Toml.Fields) where
  server : Toml.Fields
  output : Toml.Fields
  metrics : Toml.Fields
  logging : Toml.Fields
  isServer : sectionOf fields "server" ["host", "port", "max_connections", "max_frame_size"] =
    some server
  isOutput : sectionOf fields "output" ["kind"] = some output
  isMetrics : sectionOf fields "metrics" ["interval"] = some metrics
  isLogging : sectionOf fields "logging" ["level"] = some logging

/-- Whether settings follow the words on the command line first, the sections of the file next, and
the defaults last, with `level` the word for the log level. -/
structure Follow (word : String → Option String) (level : Option String) {fields : Toml.Fields}
    (sections : Sections fields) (settings : Settings) : Prop where
  host : Precedence (word "host") some (sections.server.lookup "host") text? "0.0.0.0"
    settings.host
  port : Precedence (word "port") Digits.uint16? (sections.server.lookup "port") port? 24224
    settings.port
  maxConnections : Precedence (word "max-connections") Digits.uint64?
    (sections.server.lookup "max_connections") count? 10000 settings.maxConnections
  maxFrameSize : Precedence (word "max-frame-size") Digits.uint64?
    (sections.server.lookup "max_frame_size") count? 16777216 settings.maxFrameSize
  output : Precedence (word "output") (fun word => Output.words.lookup word)
    (sections.output.lookup "kind") output? .lines settings.output
  metricsInterval : Precedence (word "metrics-interval") Digits.uint64?
    (sections.metrics.lookup "interval") count? 60 settings.metricsInterval
  logLevel : Precedence level some (sections.logging.lookup "level") text? "info" settings.logLevel

theorem precedence_none {readWord : String → Option α} {value : Option Toml}
    {readValue : Toml → Option α} {default setting : α} :
    Precedence none readWord value readValue default setting ↔
      Taken value readValue default setting := by
  constructor
  · rintro ⟨filed, taken, rfl⟩
    exact taken
  · intro taken
    exact ⟨setting, taken, rfl⟩

theorem setting_eq_some {fields : Toml.Fields} {name : String} {readWord : String → Option α}
    {read : Toml → Option α} {default filed : α} :
    setting fields name read default = some filed ↔
      Precedence none readWord (fields.lookup name) read default filed := by
  rw [precedence_none]
  unfold setting Taken
  cases fields.lookup name with
  | none => rw [Option.some.injEq, eq_comm]
  | some value => rfl

theorem number_eq_some {fields : Toml.Fields} {name : String} {bits : Nat}
    {readWord : String → Option α} (make : Nat → α) {least : Nat} {default filed : α}
    (same : make least = default) :
    (∃ number, setting fields name (number? bits) least = some number ∧ make number = filed) ↔
      Precedence none readWord (fields.lookup name) (fun value => (number? bits value).map make)
        default filed := by
  rw [precedence_none]
  unfold setting Taken
  cases fields.lookup name with
  | none =>
      rw [← same]
      simp [eq_comm]
  | some value => simp

theorem ofToml_eq_some {fields : Toml.Fields} {filed : Settings} :
    ofToml fields = some filed ↔
      ∃ sections : Sections fields, Follow (fun _ => none) none sections filed := by
  simp only [ofToml, bind, Option.bind_eq_some_iff, pure, Option.some.injEq]
  constructor
  · rintro ⟨server, isServer, output, isOutput, metrics, isMetrics, logging, isLogging,
      host, hosts, port, ports, connections, counts, size, sizes, kind, kinds, interval, intervals,
      level, levels, rfl⟩
    exact ⟨⟨server, output, metrics, logging, isServer, isOutput, isMetrics, isLogging⟩,
      setting_eq_some.mp hosts, (number_eq_some UInt16.ofNat rfl).mp ⟨port, ports, rfl⟩,
      (number_eq_some UInt64.ofNat rfl).mp ⟨connections, counts, rfl⟩,
      (number_eq_some UInt64.ofNat rfl).mp ⟨size, sizes, rfl⟩, setting_eq_some.mp kinds,
      (number_eq_some UInt64.ofNat rfl).mp ⟨interval, intervals, rfl⟩, setting_eq_some.mp levels⟩
  · rintro ⟨⟨server, output, metrics, logging, isServer, isOutput, isMetrics, isLogging⟩, follow⟩
    obtain ⟨port, ports, samePort⟩ := (number_eq_some UInt16.ofNat rfl).mpr follow.port
    obtain ⟨connections, counts, sameConnections⟩ :=
      (number_eq_some UInt64.ofNat rfl).mpr follow.maxConnections
    obtain ⟨size, sizes, sameSize⟩ := (number_eq_some UInt64.ofNat rfl).mpr follow.maxFrameSize
    obtain ⟨interval, intervals, sameInterval⟩ :=
      (number_eq_some UInt64.ofNat rfl).mpr follow.metricsInterval
    refine ⟨server, isServer, output, isOutput, metrics, isMetrics, logging, isLogging,
      _, setting_eq_some.mpr follow.host, port, ports, connections, counts, size, sizes,
      _, setting_eq_some.mpr follow.output, interval, intervals,
      _, setting_eq_some.mpr follow.logLevel, ?_⟩
    rw [samePort, sameConnections, sameSize, sameInterval]

/-- What the file at a path holds; without a path, nothing is held. -/
def Held (contents : String → Except Transport.Failure Bytes) (path : Option String)
    (fields : Toml.Fields) : Prop :=
  match path with
  | some path =>
    ∃ bytes text, contents path = .ok bytes ∧ Utf8.decode? bytes = some text ∧
      Toml.read? text = some fields
  | none => fields = []

theorem ofFile_eq_ok {contents : String → Except Transport.Failure Bytes} {path : String}
    {filed : Settings} :
    ofFile contents path = .ok filed ↔
      ∃ fields, Held contents (some path) fields ∧ ofToml fields = some filed := by
  rw [ofFile]
  constructor
  · intro run
    split at run
    · cases run
    · next bytes held =>
        split at run
        · cases run
        · next text decoded =>
            split at run
            · next settings read =>
                cases run
                obtain ⟨fields, read, made⟩ := Option.bind_eq_some_iff.mp read
                exact ⟨fields, ⟨bytes, text, held, decoded, read⟩, made⟩
            · cases run
  · rintro ⟨fields, ⟨bytes, text, held, decoded, read⟩, made⟩
    simp only [held, decoded, read, Option.bind_some, made]

/-! ## The command line over the file -/

theorem precedence_iff {word : Option String} {readWord : String → Option α} {value : Option Toml}
    {readValue : Toml → Option α} {default setting : α} :
    Precedence word readWord value readValue default setting ↔
      ∃ filed said, Precedence none readWord value readValue default filed ∧
        Overrides.Placed word readWord none said ∧ setting = said.getD filed := by
  simp only [precedence_none]
  constructor
  · rintro ⟨filed, taken, counts⟩
    obtain ⟨said, placed, same⟩ := taken_iff_placed.mp counts
    exact ⟨filed, said, taken, placed, same⟩
  · rintro ⟨filed, said, taken, placed, same⟩
    exact ⟨filed, taken, taken_iff_placed.mpr ⟨said, placed, same⟩⟩

/-- Where a word that is the default counts as none, it can stand for none. -/
theorem precedence_level_iff {word : Option String} {value : Option Toml}
    {readValue : Toml → Option String} {default usual setting : String} :
    Precedence (word.filter (· ≠ usual)) some value readValue default setting ↔
      ∃ filed, Precedence none some value readValue default filed ∧
        setting = if word.getD usual ≠ usual then word.getD usual else filed := by
  simp only [precedence_none]
  refine exists_congr fun filed => and_congr_right fun _ => ?_
  cases word with
  | none => simp [Taken]
  | some level =>
      by_cases same : level = usual
      · simp [Taken, Option.filter, same]
      · simp [Taken, Option.filter, same, eq_comm]

theorem placed_path_iff {word after : Option String} :
    Overrides.Placed word path? none after ↔ word ≠ some "" ∧ after = word := by
  cases word with
  | none => simp [Overrides.Placed]
  | some path =>
      by_cases empty : path = ""
      · simp [Overrides.Placed, path?, empty]
      · simp [Overrides.Placed, path?, empty]

theorem placed_level_iff {word : Option String} {before after : String} :
    Overrides.Placed word some (some before) (some after) ↔ after = word.getD before := by
  cases word with
  | none => simp [Overrides.Placed]
  | some level => simp [Overrides.Placed]

section

variable {word : String → Option String} {fields : Toml.Fields} {sections : Sections fields}
  {settings filed : Settings} {said : Overrides}

/-- The word for the log level that counts: not that of the default. -/
def countedLevel (word : String → Option String) : Option String :=
  (word "log-level").filter (· ≠ "info")

theorem countedLevel_eq_iff :
    countedLevel word = word "log-level" ↔ word "log-level" ≠ some "info" := by
  rw [countedLevel]
  cases word "log-level" with
  | none => simp
  | some level => simp

theorem file_of_overlay (laid : Overrides.Overlay word {} said) :
    word "config" ≠ some "" ∧ said.file = word "config" :=
  placed_path_iff.mp (laid .file)

theorem logLevel_of_overlay (laid : Overrides.Overlay word {} said) :
    said.logLevel = (word "log-level").getD "info" :=
  placed_level_iff.mp (laid .logLevel)

theorem follow_applyTo (follow : Follow (fun _ => none) none sections filed)
    (laid : Overrides.Overlay word {} said) :
    Follow word (countedLevel word) sections (said.applyTo filed) where
  host := precedence_iff.mpr ⟨_, _, follow.host, laid .host, rfl⟩
  port := precedence_iff.mpr ⟨_, _, follow.port, laid .port, rfl⟩
  maxConnections := precedence_iff.mpr ⟨_, _, follow.maxConnections, laid .maxConnections, rfl⟩
  maxFrameSize := precedence_iff.mpr ⟨_, _, follow.maxFrameSize, laid .maxFrameSize, rfl⟩
  output := precedence_iff.mpr ⟨_, _, follow.output, laid .output, rfl⟩
  metricsInterval := precedence_iff.mpr ⟨_, _, follow.metricsInterval, laid .metricsInterval, rfl⟩
  logLevel := precedence_level_iff.mpr
    ⟨_, follow.logLevel, by rw [← logLevel_of_overlay laid]; rfl⟩

theorem exists_applyTo (present : word "config" ≠ some "")
    (follow : Follow word (countedLevel word) sections settings) :
    ∃ filed said, Follow (fun _ => none) none sections filed ∧
      Overrides.Overlay word {} said ∧ settings = said.applyTo filed := by
  obtain ⟨host, saidHost, fromHost, placedHost, sameHost⟩ := precedence_iff.mp follow.host
  obtain ⟨port, saidPort, fromPort, placedPort, samePort⟩ := precedence_iff.mp follow.port
  obtain ⟨connections, saidConnections, fromConnections, placedConnections, sameConnections⟩ :=
    precedence_iff.mp follow.maxConnections
  obtain ⟨size, saidSize, fromSize, placedSize, sameSize⟩ := precedence_iff.mp follow.maxFrameSize
  obtain ⟨output, saidOutput, fromOutput, placedOutput, sameOutput⟩ :=
    precedence_iff.mp follow.output
  obtain ⟨interval, saidInterval, fromInterval, placedInterval, sameInterval⟩ :=
    precedence_iff.mp follow.metricsInterval
  obtain ⟨level, fromLevel, sameLevel⟩ := precedence_level_iff.mp follow.logLevel
  refine ⟨⟨host, port, connections, size, output, interval, level⟩,
    ⟨word "config", saidHost, saidPort, saidConnections, saidSize, saidOutput, saidInterval,
      (word "log-level").getD "info"⟩,
    ⟨fromHost, fromPort, fromConnections, fromSize, fromOutput, fromInterval, fromLevel⟩,
    ?_, ?_⟩
  · intro place
    cases place with
    | file => exact placed_path_iff.mpr ⟨present, rfl⟩
    | host => exact placedHost
    | port => exact placedPort
    | maxConnections => exact placedConnections
    | maxFrameSize => exact placedSize
    | output => exact placedOutput
    | metricsInterval => exact placedInterval
    | logLevel => exact placed_level_iff.mpr rfl
  · cases settings
    simp only at sameHost samePort sameConnections sameSize sameOutput sameInterval sameLevel
    rw [sameHost, samePort, sameConnections, sameSize, sameOutput, sameInterval, sameLevel]
    rfl

end

theorem ofToml_nil : ofToml [] = some {} := rfl

section

variable {contents : String → Except Transport.Failure Bytes} {arguments : List String}

theorem resolve_eq_ok {settings : Settings} :
    resolve contents arguments = .ok settings ↔
      ∃ said filed fields, Overrides.read arguments = .ok said ∧ Held contents said.file fields ∧
        ofToml fields = some filed ∧ settings = said.applyTo filed := by
  constructor
  · intro run
    unfold resolve at run
    split at run
    · cases run
    · next said read =>
        split at run
        · next file =>
            cases run
            exact ⟨said, {}, [], read, by rw [file]; rfl, ofToml_nil, rfl⟩
        · next path file =>
            cases found : ofFile contents path with
            | error fault =>
                rw [found] at run
                cases run
            | ok filed =>
                rw [found] at run
                cases run
                obtain ⟨fields, held, made⟩ := ofFile_eq_ok.mp found
                exact ⟨said, filed, fields, read, file ▸ held, made, rfl⟩
  · rintro ⟨said, filed, fields, read, held, made, rfl⟩
    rw [resolve, read]
    cases file : said.file with
    | none =>
        rw [file] at held
        obtain rfl : fields = [] := held
        obtain rfl : {} = filed := Option.some.inj (ofToml_nil.symm.trans made)
        simp only [file]
    | some path =>
        rw [file] at held
        simp only [file, ofFile_eq_ok.mpr ⟨fields, held, made⟩]
        rfl

theorem resolve_eq_ok_of_line {given : List (Given Overrides)}
    (line : Line Overrides.options arguments given) {settings : Settings} :
    resolve contents arguments = .ok settings ↔
      (given.map Given.name).Nodup ∧ Given.wordOf given "config" ≠ some "" ∧
        ∃ fields, Held contents (Given.wordOf given "config") fields ∧
          ∃ sections : Sections fields,
            Follow (Given.wordOf given) (countedLevel (Given.wordOf given)) sections settings := by
  rw [resolve_eq_ok]
  constructor
  · rintro ⟨said, filed, fields, read, held, made, rfl⟩
    obtain ⟨once, laid⟩ := (Overrides.read_eq_ok_of_line line).mp read
    obtain ⟨present, path⟩ := file_of_overlay laid
    obtain ⟨sections, follow⟩ := ofToml_eq_some.mp made
    exact ⟨once, present, fields, path ▸ held, sections, follow_applyTo follow laid⟩
  · rintro ⟨once, present, fields, held, sections, follow⟩
    obtain ⟨filed, said, filing, laid, rfl⟩ := exists_applyTo present follow
    have path := (file_of_overlay laid).2
    exact ⟨said, filed, fields, (Overrides.read_eq_ok_of_line line).mpr ⟨once, laid⟩, path ▸ held,
      ofToml_eq_some.mpr ⟨sections, filing⟩, rfl⟩

end

/-- A command line that is accepted, with a file that is valid if it names one, is a line of options
and resolves. The settings that a line of options resolves to are those that follow the words that
were given, then the file, then the defaults; only a word for the log level that is the default's
counts for nothing. -/
theorem settings_follow_precedence (contents : String → Except Transport.Failure Bytes)
    (arguments : List String) :
    (∀ said, Overrides.read arguments = .ok said →
      (∀ path, said.file = some path → ∃ filed, ofFile contents path = .ok filed) →
      ∃ given settings, Line Overrides.options arguments given ∧
        resolve contents arguments = .ok settings) ∧
    (∀ given, Line Overrides.options arguments given →
      ∀ settings, resolve contents arguments = .ok settings ↔
        (given.map Given.name).Nodup ∧ Given.wordOf given "config" ≠ some "" ∧
        ∃ fields, Held contents (Given.wordOf given "config") fields ∧
          ∃ sections : Sections fields,
            Follow (Given.wordOf given) (countedLevel (Given.wordOf given)) sections settings) ∧
    ∀ word, countedLevel word = word "log-level" ↔ word "log-level" ≠ some "info" := by
  refine ⟨?_, ?_, fun word => countedLevel_eq_iff⟩
  · intro said read valid
    obtain ⟨given, line, -⟩ := (read_eq_ok_iff Overrides.regular_options rfl).mp read
    cases file : said.file with
    | none =>
        refine ⟨given, said.applyTo {}, line, ?_⟩
        rw [resolve, read]
        simp only [file]
    | some path =>
        obtain ⟨filed, found⟩ := valid path file
        refine ⟨given, said.applyTo filed, line, ?_⟩
        rw [resolve, read]
        simp only [file, found]
        rfl
  · intro given line settings
    exact resolve_eq_ok_of_line line

/-- The log level that is the default, given as a word, yields to another one in the file, whatever
the sections of the file are. -/
theorem explicit_info_yields_to_file :
    ∃ given, Line Overrides.options ["--config", "f", "--log-level", "info"] given ∧
      Given.wordOf given "log-level" = some "info" ∧
      resolve (fun _ => .ok (Utf8.encode "[logging]\nlevel = 'debug'\n"))
        ["--config", "f", "--log-level", "info"] = .ok { logLevel := "debug" } ∧
      ∀ fields, ∀ sections : Sections fields,
        ¬ Follow (Given.wordOf given) (Given.wordOf given "log-level") sections
          { logLevel := "debug" } := by
  have plain (word : String) (unlike : word.toList.head? ≠ some '-') :
      CommandLine.Plain word := by
    intro letter rest same
    rw [same] at unlike
    exact unlike rfl
  have named : Spelled Overrides.options (Overrides.options.get ⟨0, by decide⟩) "f"
      ["--config", "f"] := .named rfl (plain _ (by decide))
  have levelled : Spelled Overrides.options (Overrides.options.get ⟨7, by decide⟩) "info"
      ["--log-level", "info"] := .named rfl (plain _ (by decide))
  refine ⟨_, .option rfl named (.option rfl levelled .nothing), rfl, rfl, ?_⟩
  intro fields sections follow
  obtain ⟨filed, -, counts⟩ := follow.logLevel
  have same : "info" = "debug" := Option.some.inj counts
  exact absurd same (by decide)

end Settings

end LogIntake
