import TerminalFeed.Proofs.Layers
import TerminalFeed.Replay.Command

/-!
Values that a higher layer replaces. The configuration of a replay shows nothing of them.
But file and environment are checked before the arguments override them, so a zero that an
argument would replace is refused all the same.
-/

namespace TerminalFeed

/-- Two layers that differ only where one of the layers above has a value. -/
def ConfigLayer.DiffersUnder (above : List ConfigLayer) (layer other : ConfigLayer) : Prop :=
  ∀ field, layer.get? field ≠ other.get? field → ∃ upper ∈ above, (upper.get? field).isSome

theorem ConfigLayer.DiffersUnder.get?_eq {above : List ConfigLayer} {layer other : ConfigLayer}
    {field : ConfigField} (differs : layer.DiffersUnder above other)
    (none : ∀ upper ∈ above, upper.get? field = none) : layer.get? field = other.get? field := by
  refine Decidable.byContradiction fun distinct => ?_
  obtain ⟨upper, member, has⟩ := differs field distinct
  rw [none upper member] at has
  cases has

namespace Replay

def Arguments.overrides (args : Arguments) : ConfigLayer := ⟨args.bufferDepth, none, none⟩

variable {args : Arguments} {file other : ConfigFile} {layer otherLayer : ConfigLayer}
  {name : Option String} {env otherEnv : String → Option String}

def overridden (args : Arguments) (path : Option String) (layer : ConfigLayer)
    (name : Option String) (env : String → Option String) : Config :=
  (Config.ofLayers path layer name env).overlayFrom .commandLine args.overrides

theorem number_overridden (args : Arguments) (path : Option String) (layer : ConfigLayer)
    (name : Option String) (env : String → Option String) (field : ConfigField) :
    (overridden args path layer name env).number field =
      (args.overrides.get? field).getD (Config.merged env layer field) := by
  rw [overridden, Config.number_overlayFrom, Config.number_ofLayers]

/-- The configuration is checked without what the arguments override, and again with it. -/
theorem loadConfig_eq (settings : file.settings? = some (layer, name)) :
    loadConfig args file env =
      match (Config.ofLayers file.path? layer name env).fault?.or
        (overridden args file.path? layer name env).fault? with
      | some e => .error (.config e)
      | none => .ok (overridden args file.path? layer name env) := by
  rw [loadConfig, Config.load_eq settings, Config.checked]
  cases (Config.ofLayers file.path? layer name env).fault? with
  | some e => rfl
  | none =>
    have again : (Config.ofLayers file.path? layer name env).override
        ⟨args.bufferDepth, none, none⟩ = (overridden args file.path? layer name env,
          (overridden args file.path? layer name env).fault?) := rfl
    simp only [again, Option.none_or]
    cases (overridden args file.path? layer name env).fault? <;> rfl

theorem loadConfig_eq_ok_iff (settings : file.settings? = some (layer, name)) {c : Config} :
    loadConfig args file env = .ok c ↔
      ((∀ field, 0 < Config.merged env layer field) ∧ args.bufferDepth ≠ some 0) ∧
        c = overridden args file.path? layer name env := by
  have sound : (Config.ofLayers file.path? layer name env).fault?.or
      (overridden args file.path? layer name env).fault? = none ↔
        (∀ field, 0 < Config.merged env layer field) ∧ args.bufferDepth ≠ some 0 := by
    rw [Option.or_eq_none_iff, Config.fault?_ofLayers_eq_none, Config.fault?_eq_none]
    simp only [number_overridden]
    refine and_congr_right fun positive => ⟨fun all zero => ?_, fun nonzero field => ?_⟩
    · have slots := all .bufferDepth
      rw [Arguments.overrides, ConfigLayer.get?, zero] at slots
      exact Nat.lt_irrefl 0 slots
    · cases own : args.overrides.get? field with
      | none => exact positive field
      | some value =>
        cases field with
        | bufferDepth => exact Nat.pos_of_ne_zero fun zero => nonzero (own.trans (zero ▸ rfl))
        | envelope | output => cases own
  rw [loadConfig_eq settings, ← sound]
  cases (Config.ofLayers file.path? layer name env).fault?.or
    (overridden args file.path? layer name env).fault? with
  | none => simp [eq_comm]
  | some e => simp

theorem exists_fault_of_loadConfig (settings : file.settings? = some (layer, name))
    {failure : Failure} (failed : loadConfig args file env = .error failure) :
    ∃ field, failure = .config (ConfigField.fault field) := by
  rw [loadConfig_eq settings] at failed
  cases outcome : (Config.ofLayers file.path? layer name env).fault?.or
    (overridden args file.path? layer name env).fault? with
  | none => rw [outcome] at failed; cases failed
  | some e =>
    rw [outcome] at failed
    cases failed
    rcases Option.or_eq_some_iff.mp outcome with first | ⟨-, second⟩
    · obtain ⟨field, rfl, -⟩ := Config.eq_fault_of_fault? first
      exact ⟨field, rfl⟩
    · obtain ⟨field, rfl, -⟩ := Config.eq_fault_of_fault? second
      exact ⟨field, rfl⟩

section

variable {field : ConfigField}
  (below : layer.DiffersUnder [args.overrides, .ofEnvironment env] otherLayer)
  (between : (ConfigLayer.ofEnvironment env).DiffersUnder [args.overrides]
    (.ofEnvironment otherEnv))

include between

theorem inEnvironment?_eq (own : args.overrides.get? field = none) :
    field.inEnvironment? env = field.inEnvironment? otherEnv := by
  rw [← ConfigLayer.get?_ofEnvironment, ← ConfigLayer.get?_ofEnvironment]
  exact between.get?_eq (by simp [own])

include below

theorem merged_eq (own : args.overrides.get? field = none) :
    Config.merged env layer field = Config.merged otherEnv otherLayer field := by
  rw [Config.merged, Config.merged, ← inEnvironment?_eq between own]
  cases said : field.inEnvironment? env with
  | some value => rfl
  | none => rw [below.get?_eq (by simp [own, said, ConfigLayer.get?_ofEnvironment])]

theorem overridden_eq (path name : Option String) :
    overridden args path layer name env = overridden args path otherLayer name otherEnv := by
  apply Config.eq_of_number
  · intro field
    rw [number_overridden, number_overridden]
    cases own : args.overrides.get? field with
    | none => exact merged_eq below between own
    | some value => rfl
  · simp only [overridden, Config.ofLayers, Config.threadName_overlayFrom]
  · simp only [overridden, Config.ofLayers, Config.filePath_overlayFrom]
  · rw [overridden, overridden, Config.source_overlayFrom, Config.source_overlayFrom]
    split
    · rename_i empty
      -- No argument replaces anything, so the environment is the same in both.
      have none := ConfigLayer.isEmpty_iff.mp empty
      simp only [Config.source_ofLayers, fun field => inEnvironment?_eq between (none field)]
    · rfl

/-- Only of the buffer depth can a zero be replaced by an argument. -/
theorem ofLayers_fault?_eq (path name : Option String)
    (zeros : args.bufferDepth.isSome → (Config.merged env layer .bufferDepth = 0 ↔
      Config.merged otherEnv otherLayer .bufferDepth = 0)) :
    (Config.ofLayers path layer name env).fault? =
      (Config.ofLayers path otherLayer name otherEnv).fault? := by
  apply Config.fault?_congr
  intro field
  rw [Config.number_ofLayers, Config.number_ofLayers]
  cases own : args.overrides.get? field with
  | none => rw [merged_eq below between own]
  | some value =>
    cases field with
    | bufferDepth => exact zeros (Option.isSome_of_eq_some own)
    | envelope | output => cases own

end

structure Shadows (args : Arguments) (file : ConfigFile) (layer : ConfigLayer)
    (name : Option String) (env : String → Option String) : Prop where
  -- Loading succeeds if no number is zero that environment and file make of the standard one,
  -- and the arguments do not set zero either.
  accepted : (∃ c, loadConfig args file env = .ok c) ↔
    (∀ field, 0 < Config.merged env layer field) ∧ args.bufferDepth ≠ some 0
  refused : ∀ failure, loadConfig args file env = .error failure →
    ∃ field, failure = .config (ConfigField.fault field)
  -- Each number is that of the arguments, or else of the environment, of the file, or the
  -- standard one.
  effective : ∀ c, loadConfig args file env = .ok c → ∀ field,
    c.number field = (args.overrides.get? field).getD (Config.merged env layer field)
  -- Values that a higher layer replaces make no difference to the configuration, and none to
  -- whether there is one, unless it is the arguments that replace a zero.
  shadowed : ∀ other otherLayer otherEnv,
    ConfigFile.settings? other = some (otherLayer, name) → other.path? = file.path? →
    layer.DiffersUnder [args.overrides, .ofEnvironment env] otherLayer →
    (ConfigLayer.ofEnvironment env).DiffersUnder [args.overrides] (.ofEnvironment otherEnv) →
      (∀ c d, loadConfig args file env = .ok c → loadConfig args other otherEnv = .ok d → c = d) ∧
      ((args.bufferDepth.isSome → (Config.merged env layer .bufferDepth = 0 ↔
          Config.merged otherEnv otherLayer .bufferDepth = 0)) →
        loadConfig args file env = loadConfig args other otherEnv)

theorem loadConfig_shadows (settings : file.settings? = some (layer, name)) :
    Shadows args file layer name env := by
  constructor
  · simp only [loadConfig_eq_ok_iff settings, exists_and_left, exists_eq, and_true]
  · exact fun failure => exists_fault_of_loadConfig settings
  · intro c loaded field
    rw [((loadConfig_eq_ok_iff settings).mp loaded).2]
    exact number_overridden _ _ _ _ _ _
  · intro other otherLayer otherEnv otherSettings samePath below between
    have same := overridden_eq below between file.path? name
    constructor
    · intro c d first second
      rw [((loadConfig_eq_ok_iff settings).mp first).2,
        ((loadConfig_eq_ok_iff otherSettings).mp second).2, samePath]
      exact same
    · intro zeros
      rw [loadConfig_eq settings, loadConfig_eq otherSettings, samePath, ← same,
        ofLayers_fault?_eq below between file.path? name zeros]

/-- The zero of the file is replaced by the environment, and the depth of the file by the
arguments: another file with other values for both makes the same configuration. -/
theorem loadConfig_shadows_both :
    let args : Arguments := ⟨"-", 4096, false, none, some "config.toml", some 7, "info"⟩
    let file (text : String) : ConfigFile := .present "config.toml" (Utf8.encode text.toList)
    let first := file "[scheduler]\nbuffer_depth = 2\n[framer]\nmax_envelope_len = 0\n"
    let second := file "[scheduler]\nbuffer_depth = 3\n[framer]\nmax_envelope_len = 5\n"
    let env : String → Option String
      | "CONDUCTOR_MAX_ENVELOPE" => some "16"
      | _ => none
    let made : Config :=
      ⟨7, "conductor-executor", ⟨16, 16777216⟩, some "config.toml", .commandLine⟩
    first.settings? = some (⟨some 2, some 0, none⟩, none) ∧
      second.settings? = some (⟨some 3, some 5, none⟩, none) ∧
      loadConfig args first env = .ok made ∧ loadConfig args second env = .ok made ∧
      Shadows args first ⟨some 2, some 0, none⟩ none env := by
  intro args file first second env made
  have settings : first.settings? = some (⟨some 2, some 0, none⟩, none) := by decide +kernel
  have others : second.settings? = some (⟨some 3, some 5, none⟩, none) := by decide +kernel
  refine ⟨settings, others, ?_, ?_, loadConfig_shadows settings⟩
  · rw [loadConfig_eq settings]
    rfl
  · rw [loadConfig_eq others]
    rfl

/-- The arguments replace the depth of the file, and yet a file with a depth of zero is
refused. -/
theorem not_loadConfig_shadows :
    ¬∀ (args : Arguments) (file other : ConfigFile) (layer otherLayer : ConfigLayer)
        (name : Option String) (env : String → Option String),
      file.settings? = some (layer, name) → other.settings? = some (otherLayer, name) →
      other.path? = file.path? →
      layer.DiffersUnder [args.overrides, .ofEnvironment env] otherLayer →
      (loadConfig args file env).isOk = (loadConfig args other env).isOk := by
  intro claim
  let args : Arguments := ⟨"-", 4096, false, none, some "config.toml", some 7, "info"⟩
  let file (text : String) : ConfigFile := .present "config.toml" (Utf8.encode text.toList)
  let env : String → Option String := fun _ => none
  have zero : (file "[scheduler]\nbuffer_depth = 0\n").settings? =
      some (⟨some 0, none, none⟩, none) := by decide +kernel
  have two : (file "[scheduler]\nbuffer_depth = 2\n").settings? =
      some (⟨some 2, none, none⟩, none) := by decide +kernel
  have differs : ConfigLayer.DiffersUnder [args.overrides, .ofEnvironment env]
      ⟨some 0, none, none⟩ ⟨some 2, none, none⟩ := by
    intro field distinct
    cases field with
    | bufferDepth => exact ⟨args.overrides, List.mem_cons_self, rfl⟩
    | envelope | output => exact absurd rfl distinct
  have refused : (loadConfig args (file "[scheduler]\nbuffer_depth = 0\n") env).isOk = false := by
    rw [loadConfig_eq zero]
    rfl
  have accepted : (loadConfig args (file "[scheduler]\nbuffer_depth = 2\n") env).isOk = true := by
    rw [loadConfig_eq two]
    rfl
  have path (text : String) : (file text).path? = some "config.toml" := rfl
  have same := claim args _ _ _ _ none env zero two ((path _).trans (path _).symm) differs
  rw [refused, accepted] at same
  cases same

end Replay

end TerminalFeed
