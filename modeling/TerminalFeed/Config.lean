import TerminalFeed.Limits
import TerminalFeed.Text.Decimal
import TerminalFeed.Text.Utf8
import TerminalFeed.Toml.Reader

/-!
Configuration comes in layers: standard values, a file, the environment, and
overrides. A later layer wins, value by value. What results is checked after
the environment and again after each set of overrides.
-/

namespace TerminalFeed

/-- The highest layer that set a value. -/
inductive ConfigSource where
  | standard
  | file
  | environment
  | commandLine
  deriving DecidableEq, Repr

def ConfigSource.name : ConfigSource → String
  | .standard => "default"
  | .file => "config file"
  | .environment => "environment"
  | .commandLine => "CLI"

structure Config where
  -- Slots for normal batches under way.
  bufferDepth : Nat
  threadName : String
  limits : Limits
  filePath : Option String
  source : ConfigSource
  deriving DecidableEq, Repr

def Config.standard : Config :=
  ⟨4, "conductor-executor", .standard, none, .standard⟩

structure ConfigLayer where
  bufferDepth : Option Nat
  envelope : Option Nat
  output : Option Nat
  deriving DecidableEq, Repr

def ConfigLayer.isEmpty (layer : ConfigLayer) : Bool :=
  layer.bufferDepth.isNone && layer.envelope.isNone && layer.output.isNone

inductive ConfigError where
  | unreadable (path : String)
  | malformed
  | noSlots
  | noEnvelope
  | noOutput
  deriving DecidableEq, Repr

def ConfigError.message : ConfigError → String
  | .unreadable path => "Failed to read config file at " ++ path
  | .malformed => "Failed to parse TOML config"
  | .noSlots => "Invalid configuration: scheduler.buffer_depth must be at least 1"
  | .noEnvelope => "Invalid configuration: framer.max_envelope_len must be at least 1"
  | .noOutput => "Invalid configuration: framer.max_output_len must be at least 1"

inductive ConfigFile where
  | absent
  | unreadable (path : String)
  | present (path : String) (content : Bytes)

namespace Config

def fault? (c : Config) : Option ConfigError :=
  if c.bufferDepth = 0 then some .noSlots
  else if c.limits.envelope = 0 then some .noEnvelope
  else if c.limits.output = 0 then some .noOutput
  else none

def overlay (c : Config) (layer : ConfigLayer) : Config :=
  { c with
    bufferDepth := layer.bufferDepth.getD c.bufferDepth
    limits := ⟨layer.envelope.getD c.limits.envelope, layer.output.getD c.limits.output⟩ }

/-- A layer that sets nothing leaves the source as it was. -/
def overlayFrom (c : Config) (source : ConfigSource) (layer : ConfigLayer) : Config :=
  if layer.isEmpty then c else { c.overlay layer with source := source }

end Config

/-! The file. -/

namespace ConfigFile

open Toml

def number? : Value → Option Nat
  | .integer n => if 0 ≤ n then some n.toNat else none
  | _ => none

def text? : Value → Option String
  | .string s => some (String.ofList s)
  | _ => none

def optional? {β : Type} (read : Value → Option β) : Option Value → Option (Option β)
  | none => some none
  | some value => (read value).map some

/-- A section is a table, an array of its values in order, or a moment, which
has none of its keys. -/
def section? (keys : List String) : Option Value → Option (List (Option Value))
  | none | some .moment => some (keys.map fun _ => none)
  | some (.table _ entries) => some (keys.map fun key => entries.lookup key.toList)
  | some (.array items) => some ((List.range keys.length).map fun i => items[i]?)
  | some (.tables all) =>
      some ((List.range keys.length).map fun i =>
        (all.reverse[i]?).map fun entries => .table .header entries)
  | some _ => none

def layer? (document : Entries) : Option (ConfigLayer × Option String) := do
  let scheduler ← section? ["buffer_depth", "thread_name"]
    (document.lookup "scheduler".toList)
  let limits ← section? ["max_envelope_len", "max_output_len"]
    (document.lookup "framer".toList)
  match scheduler, limits with
  | [depth, name], [envelope, output] =>
    return (⟨← optional? number? depth, ← optional? number? envelope,
      ← optional? number? output⟩, ← optional? text? name)
  | _, _ => none

def load : ConfigFile → Except ConfigError Config
  | .absent => .ok .standard
  | .unreadable path => .error (.unreadable path)
  | .present path content =>
    match Utf8.decode? content with
    | none => .error (.unreadable path)
    | some text =>
      match (Toml.parse? text).bind layer? with
      | none => .error .malformed
      | some (layer, name) =>
        let c := Config.standard.overlay layer
        .ok { c with
          threadName := name.getD c.threadName, filePath := some path, source := .file }

end ConfigFile

/-! The environment and overrides. -/

namespace ConfigLayer

/-- A variable that is no size is as good as unset. -/
def ofEnvironment (env : String → Option String) : ConfigLayer :=
  let read (name : String) := (env name).bind fun value => Decimal.size? value.toList
  ⟨read "CONDUCTOR_BUFFER_DEPTH", read "CONDUCTOR_MAX_ENVELOPE", read "CONDUCTOR_MAX_OUTPUT"⟩

end ConfigLayer

namespace Config

def checked (c : Config) : Except ConfigError Config :=
  match c.fault? with
  | none => .ok c
  | some e => .error e

def load (file : ConfigFile) (env : String → Option String) : Except ConfigError Config := do
  let c ← file.load
  (c.overlayFrom .environment (.ofEnvironment env)).checked

/-- Sets overrides, with the fault of the result. The values stay set where
there is one. -/
def override (c : Config) (layer : ConfigLayer) : Config × Option ConfigError :=
  let c := c.overlayFrom .commandLine layer
  (c, c.fault?)

def join (base name : String) : String :=
  if base.isEmpty || base.toList.getLast? == some '/' then base ++ name
  else base ++ "/" ++ name

/-- Where the file is looked for: in the directory for configuration, which a
variable may name by an absolute path, or in the home directory. -/
def defaultPath (home xdg : Option String) : Option String :=
  let absolute := xdg.filter fun directory => directory.toList.head? == some '/'
  let hidden := (home.filter fun directory => directory != "").map fun directory =>
    join directory ".config"
  (absolute <|> hidden).map fun directory => join (join directory "conductor-stream") "config.toml"

end Config

end TerminalFeed
