import TerminalFeed.Config

/-!
Configuration layer by layer. Each number is that of the highest layer which has one, and
the source is the highest layer that has any. A configuration is refused for the first of
its numbers that is zero. Overrides that are refused stay set: they are in force until
later ones replace them.
-/

namespace TerminalFeed

/-- The numbers of a configuration, in the order in which they are checked. -/
inductive ConfigField where
  | bufferDepth
  | envelope
  | output
  deriving DecidableEq, Repr

namespace ConfigField

def all : List ConfigField := [.bufferDepth, .envelope, .output]

theorem mem_all (field : ConfigField) : field ∈ all := by
  cases field <;> decide

def fault : ConfigField → ConfigError
  | .bufferDepth => .noSlots
  | .envelope => .noEnvelope
  | .output => .noOutput

def variableName : ConfigField → String
  | .bufferDepth => "CONDUCTOR_BUFFER_DEPTH"
  | .envelope => "CONDUCTOR_MAX_ENVELOPE"
  | .output => "CONDUCTOR_MAX_OUTPUT"

def inEnvironment? (env : String → Option String) (field : ConfigField) : Option Nat :=
  (env field.variableName).bind fun value => Decimal.size? value.toList

end ConfigField

namespace ConfigLayer

def get? (layer : ConfigLayer) : ConfigField → Option Nat
  | .bufferDepth => layer.bufferDepth
  | .envelope => layer.envelope
  | .output => layer.output

theorem get?_ofEnvironment (env : String → Option String) (field : ConfigField) :
    (ofEnvironment env).get? field = field.inEnvironment? env := by
  cases field <;> rfl

theorem isEmpty_eq (layer : ConfigLayer) :
    layer.isEmpty = !ConfigField.all.any fun field => (layer.get? field).isSome := by
  simp [isEmpty, ConfigField.all, get?, Bool.and_assoc]

theorem isEmpty_iff {layer : ConfigLayer} :
    layer.isEmpty ↔ ∀ field, layer.get? field = none := by
  rw [isEmpty_eq, Bool.not_eq_true', List.any_eq_false]
  exact ⟨fun every field => Option.not_isSome_iff_eq_none.mp (every field field.mem_all),
    fun none field _ => Option.not_isSome_iff_eq_none.mpr (none field)⟩

end ConfigLayer

namespace Config

variable {c d : Config} {layer : ConfigLayer} {field : ConfigField}

def number (c : Config) : ConfigField → Nat
  | .bufferDepth => c.bufferDepth
  | .envelope => c.limits.envelope
  | .output => c.limits.output

theorem eq_of_number (numbers : ∀ field, c.number field = d.number field)
    (threadName : c.threadName = d.threadName) (filePath : c.filePath = d.filePath)
    (source : c.source = d.source) : c = d := by
  obtain ⟨_, _, ⟨_, _⟩, _, _⟩ := c
  obtain ⟨_, _, ⟨_, _⟩, _, _⟩ := d
  have first := numbers .bufferDepth
  have second := numbers .envelope
  have third := numbers .output
  simp_all [number]

theorem fault?_eq (c : Config) :
    c.fault? = (ConfigField.all.find? fun field => c.number field = 0).map ConfigField.fault := by
  by_cases slots : c.bufferDepth = 0
  · simp [fault?, ConfigField.all, number, ConfigField.fault, slots]
  · by_cases envelope : c.limits.envelope = 0
    · simp [fault?, ConfigField.all, number, ConfigField.fault, slots, envelope]
    · by_cases output : c.limits.output = 0
      · simp [fault?, ConfigField.all, number, ConfigField.fault, slots, envelope, output]
      · simp [fault?, ConfigField.all, number, slots, envelope, output]

theorem fault?_eq_none : c.fault? = none ↔ ∀ field, 0 < c.number field := by
  rw [fault?_eq, Option.map_eq_none_iff, List.find?_eq_none]
  constructor
  · intro none field
    have positive := none field field.mem_all
    rw [decide_eq_true_iff] at positive
    omega
  · intro positive field _
    rw [decide_eq_true_iff]
    exact Nat.ne_of_gt (positive field)

theorem eq_fault_of_fault? {e : ConfigError} (refused : c.fault? = some e) :
    ∃ field, e = field.fault ∧ c.number field = 0 := by
  rw [fault?_eq, Option.map_eq_some_iff] at refused
  obtain ⟨field, found, rfl⟩ := refused
  exact ⟨field, rfl, by simpa using List.find?_some found⟩

theorem fault?_congr (zeros : ∀ field, c.number field = 0 ↔ d.number field = 0) :
    c.fault? = d.fault? := by
  simp only [fault?_eq, zeros]

theorem checked_eq_ok_iff : c.checked = .ok d ↔ c.fault? = none ∧ d = c := by
  rw [checked]
  cases c.fault? with
  | none => simp [eq_comm]
  | some e => simp

theorem checked_eq_error_iff {e : ConfigError} : c.checked = .error e ↔ c.fault? = some e := by
  rw [checked]
  cases c.fault? with
  | none => simp
  | some e => simp

/-- What comes through of layers that lie over a configuration, the highest first. -/
def under (c : Config) (layers : List ConfigLayer) (field : ConfigField) : Nat :=
  (layers.findSome? (·.get? field)).getD (c.number field)

theorem under_cons (c : Config) (layer : ConfigLayer) (layers : List ConfigLayer)
    (field : ConfigField) :
    c.under (layer :: layers) field = (layer.get? field).getD (c.under layers field) := by
  rw [under, List.findSome?_cons]
  cases layer.get? field <;> rfl

theorem number_overlay (c : Config) (layer : ConfigLayer) (field : ConfigField) :
    (c.overlay layer).number field = (layer.get? field).getD (c.number field) := by
  cases field <;> rfl

theorem number_overlayFrom (c : Config) (source : ConfigSource) (layer : ConfigLayer)
    (field : ConfigField) :
    (c.overlayFrom source layer).number field = (layer.get? field).getD (c.number field) := by
  rw [overlayFrom]
  split
  · rename_i empty
    rw [ConfigLayer.isEmpty_iff.mp empty field]
    rfl
  · exact number_overlay c layer field

theorem threadName_overlayFrom (c : Config) (source : ConfigSource) (layer : ConfigLayer) :
    (c.overlayFrom source layer).threadName = c.threadName := by
  rw [overlayFrom]
  split <;> rfl

theorem filePath_overlayFrom (c : Config) (source : ConfigSource) (layer : ConfigLayer) :
    (c.overlayFrom source layer).filePath = c.filePath := by
  rw [overlayFrom]
  split <;> rfl

theorem source_overlayFrom (c : Config) (source : ConfigSource) (layer : ConfigLayer) :
    (c.overlayFrom source layer).source = if layer.isEmpty then c.source else source := by
  rw [overlayFrom]
  split <;> rfl

end Config

namespace ConfigFile

/-- What a file sets, its numbers and the thread's name. A file that is absent sets
nothing. -/
def settings? : ConfigFile → Option (ConfigLayer × Option String)
  | .absent => some (⟨none, none, none⟩, none)
  | .unreadable _ => none
  | .present _ content =>
    (Utf8.decode? content).bind fun text => (Toml.parse? text).bind layer?

def path? : ConfigFile → Option String
  | .present path _ => some path
  | _ => none

theorem load_eq {file : ConfigFile} {layer : ConfigLayer} {name : Option String}
    (settings : file.settings? = some (layer, name)) :
    file.load = .ok { Config.standard.overlay layer with
      threadName := name.getD Config.standard.threadName
      filePath := file.path?
      source := if file.path?.isSome then .file else .standard } := by
  cases file with
  | absent =>
    cases settings
    rfl
  | unreadable path => cases settings
  | present path content =>
    obtain ⟨text, decoded, parsed⟩ := Option.bind_eq_some_iff.mp settings
    simp only [load, decoded, parsed]
    rfl

end ConfigFile

namespace Config

variable {c d : Config} {layer : ConfigLayer} {name : Option String} {file : ConfigFile}
  {env : String → Option String}

/-- What file and environment make of the standard values, before it is checked. -/
def ofLayers (path : Option String) (layer : ConfigLayer) (name : Option String)
    (env : String → Option String) : Config :=
  overlayFrom { standard.overlay layer with
      threadName := name.getD standard.threadName
      filePath := path
      source := if path.isSome then .file else .standard }
    .environment (.ofEnvironment env)

theorem load_eq (settings : file.settings? = some (layer, name)) :
    load file env = (ofLayers file.path? layer name env).checked := by
  rw [load, ConfigFile.load_eq settings]
  rfl

/-- Overrides set by set, going on after those that are refused. Gives the last
configuration and the answer to each set. -/
def overrideAll (c : Config) : List ConfigLayer → Config × List (Option ConfigError)
  | [] => (c, [])
  | layer :: rest =>
    let (after, answer) := c.override layer
    let (last, answers) := after.overrideAll rest
    (last, answer :: answers)

theorem overrideAll_concat (c : Config) (earlier : List ConfigLayer) (layer : ConfigLayer) :
    c.overrideAll (earlier ++ [layer]) =
      (((c.overrideAll earlier).1.override layer).1,
        (c.overrideAll earlier).2 ++ [((c.overrideAll earlier).1.override layer).2]) := by
  induction earlier generalizing c with
  | nil => rfl
  | cons first rest ih => simp [overrideAll, ih]

theorem number_overrideAll (c : Config) (layers : List ConfigLayer) (field : ConfigField) :
    (c.overrideAll layers).1.number field = c.under layers.reverse field := by
  induction layers generalizing c with
  | nil => rfl
  | cons layer rest ih =>
    rw [overrideAll, ih, under, under, override, number_overlayFrom, List.reverse_cons,
      List.findSome?_append]
    cases rest.reverse.findSome? (·.get? field) with
    | none => cases own : layer.get? field <;> simp [own]
    | some value => rfl

theorem overrideAll_kept (c : Config) (layers : List ConfigLayer) :
    (c.overrideAll layers).1.threadName = c.threadName ∧
      (c.overrideAll layers).1.filePath = c.filePath := by
  induction layers generalizing c with
  | nil => exact ⟨rfl, rfl⟩
  | cons layer rest ih =>
    obtain ⟨threadName, filePath⟩ := ih (c.override layer).1
    exact ⟨threadName.trans (threadName_overlayFrom c _ layer),
      filePath.trans (filePath_overlayFrom c _ layer)⟩

theorem source_overrideAll (c : Config) (layers : List ConfigLayer) :
    (c.overrideAll layers).1.source =
      if layers.any (!·.isEmpty) then .commandLine else c.source := by
  induction layers generalizing c with
  | nil => rfl
  | cons layer rest ih =>
    rw [overrideAll, ih, override, source_overlayFrom, List.any_cons]
    cases layer.isEmpty <;> cases rest.any (!·.isEmpty) <;> rfl

theorem fault?_overrideAll (valid : c.fault? = none) (layers : List ConfigLayer)
    (accepted : ∀ answer ∈ (c.overrideAll layers).2, answer = none) :
    (c.overrideAll layers).1.fault? = none := by
  induction layers generalizing c with
  | nil => exact valid
  | cons layer rest ih =>
    obtain ⟨first, others⟩ := List.forall_mem_cons.mp accepted
    exact ih first others

theorem under_eq_zero_iff {layers : List ConfigLayer} {field : ConfigField}
    (positive : 0 < c.number field) :
    c.under layers field = 0 ↔ layers.findSome? (·.get? field) = some 0 := by
  rw [under]
  cases layers.findSome? (·.get? field) with
  | none => simp [Nat.ne_of_gt positive]
  | some value => simp

structure Overridden (earlier : List ConfigLayer) (layer : ConfigLayer)
    (before after : Config) (answer : Option ConfigError) : Prop where
  -- The values of a set are in force, also where it is refused.
  numbers : ∀ field, after.number field = (layer.get? field).getD (before.number field)
  source : after.source = if layer.isEmpty then before.source else .commandLine
  kept : after.threadName = before.threadName ∧ after.filePath = before.filePath
  -- The configuration is valid behind a set that is accepted, and behind no other.
  checks : answer = after.fault?
  -- A set is accepted if no number was last set to zero, by itself or before.
  accepted : answer = none ↔
    ∀ field, (layer :: earlier.reverse).findSome? (·.get? field) ≠ some 0
  refused : ∀ e, answer = some e → ∃ field, e = ConfigField.fault field
  -- So one that sets no zero is accepted unless it leaves a zero that was set before.
  nonzero : (∀ field, layer.get? field ≠ some 0) → (answer = none ↔
    ∀ field, layer.get? field = none → earlier.reverse.findSome? (·.get? field) ≠ some 0)
  behindValid : (∀ field, layer.get? field ≠ some 0) → before.fault? = none → answer = none

/-- Overrides that are refused stay in force until later ones replace them. -/
theorem override_stays (valid : c.fault? = none) (earlier : List ConfigLayer)
    (layer : ConfigLayer) :
    let before := (c.overrideAll earlier).1
    let after := before.override layer
    Overridden earlier layer before after.1 after.2 ∧
      c.overrideAll (earlier ++ [layer]) = (after.1, (c.overrideAll earlier).2 ++ [after.2]) := by
  intro before after
  have numbers (field) : after.1.number field = (layer.get? field).getD (before.number field) :=
    number_overlayFrom before _ layer field
  have checks : after.2 = after.1.fault? := rfl
  have accepted : after.2 = none ↔
      ∀ field, (layer :: earlier.reverse).findSome? (·.get? field) ≠ some 0 := by
    rw [checks, fault?_eq_none]
    refine forall_congr' fun field => ?_
    rw [numbers, number_overrideAll, ← under_cons, Nat.pos_iff_ne_zero]
    exact not_congr (under_eq_zero_iff (fault?_eq_none.mp valid field))
  refine ⟨⟨numbers, source_overlayFrom before _ layer,
    ⟨threadName_overlayFrom before _ layer, filePath_overlayFrom before _ layer⟩, checks,
    accepted, ?_, ?_, ?_⟩, overrideAll_concat c earlier layer⟩
  · intro e refused
    obtain ⟨field, same, -⟩ := eq_fault_of_fault? (checks.symm.trans refused)
    exact ⟨field, same⟩
  · intro own
    rw [accepted]
    refine forall_congr' fun field => ?_
    rw [List.findSome?_cons]
    cases supplied : layer.get? field with
    | none => simp
    | some value => simpa [supplied] using own field
  · intro own valid
    rw [checks, fault?_eq_none]
    intro field
    rw [numbers]
    cases supplied : layer.get? field with
    | none => exact fault?_eq_none.mp valid field
    | some value => exact Nat.pos_of_ne_zero fun zero => own field (supplied.trans (zero ▸ rfl))

/-- The first set is refused and stays; the second has no zero of its own and is refused
for the first. The third replaces the zero. -/
theorem override_stays_zero :
    let zero : ConfigLayer := ⟨some 0, none, none⟩
    let other : ConfigLayer := ⟨none, some 5, none⟩
    let before := (standard.overrideAll [zero]).1
    let after := before.override other
    standard.fault? = none ∧ before.bufferDepth = 0 ∧ after.2 = some .noSlots ∧
      (after.1.override ⟨some 3, none, none⟩).2 = none ∧
      Overridden [zero] other before after.1 after.2 :=
  ⟨by decide, by decide, by decide, by decide, (override_stays (by decide) _ _).1⟩

/-- A slot count of zero is refused, and yet it is set. -/
theorem not_override_atomic :
    ¬∀ (c : Config) (earlier : List ConfigLayer) (layer : ConfigLayer), c.fault? = none →
      let before := (c.overrideAll earlier).1
      let after := before.override layer
      (after.2 ≠ none → after.1 = before) ∧ after.1.fault? = none ∧
        ((∀ field, layer.get? field ≠ some 0) → after.2 = none) := by
  intro claim
  obtain ⟨unchanged, -, -⟩ := claim standard [] ⟨some 0, none, none⟩ (by decide)
  exact absurd (unchanged (by decide)) (by decide)

def merged (env : String → Option String) (layer : ConfigLayer) (field : ConfigField) : Nat :=
  ((field.inEnvironment? env).or (layer.get? field)).getD (standard.number field)

theorem number_ofLayers (path : Option String) (layer : ConfigLayer) (name : Option String)
    (env : String → Option String) (field : ConfigField) :
    (ofLayers path layer name env).number field = merged env layer field := by
  rw [ofLayers, number_overlayFrom, ConfigLayer.get?_ofEnvironment, merged]
  cases field.inEnvironment? env with
  | none => exact number_overlay standard layer field
  | some value => rfl

theorem fault?_ofLayers_eq_none {path : Option String} :
    (ofLayers path layer name env).fault? = none ↔ ∀ field, 0 < merged env layer field := by
  simp only [fault?_eq_none, number_ofLayers]

theorem source_ofLayers (path : Option String) (layer : ConfigLayer) (name : Option String)
    (env : String → Option String) :
    (ofLayers path layer name env).source =
      if ConfigField.all.any fun field => (field.inEnvironment? env).isSome then .environment
      else if path.isSome then .file else .standard := by
  rw [ofLayers, source_overlayFrom, ConfigLayer.isEmpty_eq]
  simp only [ConfigLayer.get?_ofEnvironment]
  cases ConfigField.all.any fun field => (field.inEnvironment? env).isSome <;> rfl

structure Layered (file : ConfigFile) (layer : ConfigLayer) (name : Option String)
    (env : String → Option String) (overrides : List ConfigLayer) (c : Config) : Prop where
  -- Each number is that of the last overrides that have it, or else of the environment, of
  -- the file, or the standard one.
  numbers : ∀ field, c.number field =
    (overrides.reverse.findSome? (·.get? field)).getD (merged env layer field)
  threadName : c.threadName = name.getD standard.threadName
  source : c.source =
    if overrides.any (!·.isEmpty) then .commandLine
    else if ConfigField.all.any fun field => (field.inEnvironment? env).isSome then .environment
    else if file.path?.isSome then .file else .standard
  filePath : c.filePath = file.path?
  positive : ∀ field, 0 < c.number field

structure Loads (file : ConfigFile) (layer : ConfigLayer) (name : Option String)
    (env : String → Option String) : Prop where
  -- Loading fails for a zero that is left when the layers are merged.
  refused : (∃ field, load file env = .error (ConfigField.fault field)) ↔
    ∃ field, merged env layer field = 0
  accepted : (∃ c, load file env = .ok c) ↔ ∀ field, 0 < merged env layer field
  layered : ∀ c overrides, load file env = .ok c →
    (∀ answer ∈ (c.overrideAll overrides).2, answer = none) →
    Layered file layer name env overrides (c.overrideAll overrides).1

/-- Every configuration that is loaded and overridden is made by its layers. -/
theorem load_layers (settings : file.settings? = some (layer, name))
    (env : String → Option String) : Loads file layer name env := by
  have loaded : load file env = (ofLayers file.path? layer name env).checked :=
    load_eq settings
  constructor
  · simp only [loaded, checked_eq_error_iff]
    constructor
    · rintro ⟨field, refused⟩
      obtain ⟨zero, -, found⟩ := eq_fault_of_fault? refused
      exact ⟨zero, (number_ofLayers _ _ _ _ _).symm.trans found⟩
    · rintro ⟨zero, found⟩
      cases outcome : (ofLayers file.path? layer name env).fault? with
      | none => exact absurd found (Nat.ne_of_gt (fault?_ofLayers_eq_none.mp outcome zero))
      | some e =>
        obtain ⟨field, rfl, -⟩ := eq_fault_of_fault? outcome
        exact ⟨field, rfl⟩
  · rw [← fault?_ofLayers_eq_none]
    simp only [loaded, checked_eq_ok_iff]
    exact ⟨fun ⟨_, sound, _⟩ => sound, fun sound => ⟨_, sound, rfl⟩⟩
  · intro c overrides made accepted
    obtain ⟨sound, rfl⟩ := checked_eq_ok_iff.mp (loaded.symm.trans made)
    refine ⟨fun field => ?_, ?_, ?_, ?_, fault?_eq_none.mp (fault?_overrideAll sound _ accepted)⟩
    · rw [number_overrideAll, under, number_ofLayers]
    · rw [(overrideAll_kept _ _).1]
      exact threadName_overlayFrom _ _ _
    · rw [source_overrideAll, source_ofLayers]
    · rw [(overrideAll_kept _ _).2]
      exact filePath_overlayFrom _ _ _

/-- The depth is that of the environment, the first limit that of the file, as its variable is
no size, and the second that of the only overrides that have any. -/
theorem load_layers_all :
    let file : ConfigFile := .present "config.toml" (Utf8.encode
      "[scheduler]\nbuffer_depth = 8\n[framer]\nmax_envelope_len = 2048\n".toList)
    let env : String → Option String
      | "CONDUCTOR_BUFFER_DEPTH" => some "2"
      | "CONDUCTOR_MAX_ENVELOPE" => some "lots"
      | _ => none
    let overrides : List ConfigLayer := [⟨none, none, some 9⟩, ⟨none, none, none⟩]
    let base : Config :=
      ⟨2, "conductor-executor", ⟨2048, 16777216⟩, some "config.toml", .environment⟩
    file.settings? = some (⟨some 8, some 2048, none⟩, none) ∧ load file env = .ok base ∧
      base.overrideAll overrides = (⟨2, "conductor-executor", ⟨2048, 9⟩, some "config.toml",
        .commandLine⟩, [none, none]) ∧
      Loads file ⟨some 8, some 2048, none⟩ none env := by
  intro file env overrides base
  have settings : file.settings? = some (⟨some 8, some 2048, none⟩, none) := by decide +kernel
  refine ⟨settings, ?_, by decide, load_layers settings env⟩
  rw [load_eq settings]
  rfl

end Config

end TerminalFeed
