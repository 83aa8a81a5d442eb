import EventSandbox.Config.Basic
import EventSandbox.Text.Utf8
import EventSandbox.Toml.Parser

/-!
# EventSandbox.Config.Toml — configuration files

A record is read from a table, in which unknown keys are passed over, or from an array that holds
the settings in declaration order; whatever is left over in the array does not count. What is not
written keeps its default.
-/

namespace EventSandbox

/-! ## Values -/

/-- An integer of 64 bits as a number. -/
def Number.ofInt64 (n : Int64) : Number :=
  .int n.toInt n.le_toInt (Int.lt_trans n.toInt_lt (by decide))

/-- The key under which the text of a datetime is found in an event value. -/
def datetimeKey : String := "$__toml_private_datetime"

mutual

/-- The event value that stands for a value of a configuration file. A datetime becomes an object
that holds its text; what is no number becomes null. -/
def Value.ofToml : Toml.Value → Value
  | .boolean b => .bool b
  | .integer n => .number (Number.ofInt64 n)
  | .floating (.finite x) => .number (.float x)
  | .floating _ => .null
  | .string s => .string s
  | .datetime d => .object [(datetimeKey, .string (String.ofList d.render))]
  | .array items => .array (Value.ofTomlItems items)
  | .table entries => .object (Fields.ofTomlEntries entries)

/-- The event values that stand for the items of an array. -/
def Value.ofTomlItems : List Toml.Value → List Value
  | [] => []
  | v :: vs => Value.ofToml v :: Value.ofTomlItems vs

/-- The fields that stand for the entries of a table. -/
def Fields.ofTomlEntries : List (String × Toml.Value) → Fields
  | [] => []
  | (key, v) :: rest => Fields.insert (Fields.ofTomlEntries rest) key (Value.ofToml v)

end

/-! ## Records -/

namespace Toml

/-- A named setting of a record, with the reader of its value. -/
structure Setting (σ : Type) where
  name : String
  read : σ → Value → Option σ

/-- A setting whose reader does not look at the record. -/
def setting {σ α : Type} (name : String) (read : Value → Option α) (set : σ → α → σ) : Setting σ :=
  ⟨name, fun record v => (read v).map (set record)⟩

/-- Reads a record over its defaults. A datetime sets nothing. -/
def record {σ : Type} (settings : List (Setting σ)) (defaults : σ) : Value → Option σ
  | .table entries =>
    settings.foldlM
      (fun record setting =>
        match entries.lookup setting.name with
        | some v => setting.read record v
        | none => some record)
      defaults
  | .array items =>
    (settings.zip items).foldlM (fun record (setting, v) => setting.read record v) defaults
  | .datetime _ => some defaults
  | _ => none

/-- Reads a truth value. -/
def boolean? : Value → Option Bool
  | .boolean b => some b
  | _ => none

/-- Reads a text. -/
def text? : Value → Option String
  | .string s => some s
  | _ => none

/-- Reads a natural number below a bound. -/
def natural? (bound : Nat) : Value → Option Nat
  | .integer n => if 0 ≤ n ∧ n.toInt < bound then some n.toInt.toNat else none
  | _ => none

/-- Reads a 64-bit unsigned setting. -/
def word64? (v : Value) : Option UInt64 := (natural? 0x10000000000000000 v).map UInt64.ofNat

/-- Reads a 32-bit unsigned setting. -/
def word32? (v : Value) : Option UInt32 := (natural? 0x100000000 v).map UInt32.ofNat

/-- Reads parameters. -/
def fields? (v : Value) : Option Fields :=
  match Value.ofToml v with
  | .object fields => some fields
  | _ => none

/-- The settings of an engine. -/
def engineSettings : List (Setting EngineConfig) :=
  [ setting "fuel_metering" boolean? fun c v => { c with fuelMetering := v },
    setting "epoch_interruption" boolean? fun c v => { c with epochInterruption := v },
    setting "epoch_tick_ms" word64? fun c v => { c with epochTickMs := v } ]

/-- The settings of one call's limits. -/
def executionSettings : List (Setting ExecutionConfig) :=
  [ setting "max_fuel" word64? fun c v => { c with maxFuel := v },
    setting "timeout_ms" word64? fun c v => { c with timeoutMs := v },
    setting "max_memory_mb" word32? fun c v => { c with maxMemoryMb := v } ]

/-- The settings of a processor. -/
def processorSettings : List (Setting ProcessorConfig) :=
  [ setting "max_cached_sessions" word64? fun c v => { c with maxCachedSessions := v },
    setting "params" fields? fun c v => { c with params := v },
    setting "engine" (record engineSettings EngineConfig.default)
      fun c v => { c with engine := v },
    setting "execution" (record executionSettings ExecutionConfig.default)
      fun c v => { c with execution := v } ]

/-- Reads where the module is found; the path has no default. -/
def module? (v : Value) : Option ModuleEntry := do
  let path? ← record [setting "path" text? fun _ v => some v] (none : Option String) v
  pure ⟨← path?⟩

/-- The settings of the log. -/
def logSettings : List (Setting LogConfig) :=
  [ setting "filter" text? fun c v => { c with filter := v },
    setting "json" boolean? fun c v => { c with json := v } ]

/-- The settings of a configuration file. -/
def fileSettings (units : UInt64) : List (Setting ConfigFile) :=
  [ setting "processor" (record processorSettings (ProcessorConfig.default units))
      fun c v => { c with processor := v },
    setting "module" module? fun c v => { c with module? := some v },
    setting "log" (record logSettings LogConfig.default) fun c v => { c with log := v } ]

end Toml

/-! ## Files -/

/-- Why there is no configuration file to go by. -/
inductive ConfigFileError
  /-- The file could not be read. -/
  | io (path : String) (reason : String)
  /-- The file does not hold a configuration. -/
  | parse
deriving DecidableEq, Repr

namespace ConfigFileError

/-- The wording of a configuration file's error. -/
def message : ConfigFileError → String
  | io path reason => "Failed to read config file '" ++ path ++ "': " ++ reason
  | parse => "Failed to parse config file"

end ConfigFileError

/-- The reason given for a file that is not text. -/
def notUtf8 : String := "stream did not contain valid UTF-8"

namespace ConfigFile

/-- The configuration that a text holds, on a machine with so many processing units. -/
def ofToml (units : UInt64) (text : String) : Except ConfigFileError ConfigFile :=
  let content := do
    Toml.record (Toml.fileSettings units) (ConfigFile.default units) (.table (← Toml.parse? text))
  match content with
  | some config => .ok config
  | none => .error .parse

/-- The configuration that a file holds, given what came of reading it. -/
def ofFile (units : UInt64) (path : String) (content : Except String Bytes) :
    Except ConfigFileError ConfigFile :=
  match content with
  | .error reason => .error (.io path reason)
  | .ok bytes =>
    match Utf8.decode? bytes with
    | some text => ofToml units text
    | none => .error (.io path notUtf8)

end ConfigFile

end EventSandbox
