import EventSandbox.Error
import EventSandbox.Json.Value

/-!
# EventSandbox.Config.Basic — what a processor is configured with

Three levels: how many idle sessions are kept and which parameters the guest's owner set, how the
engine meters guests, and what one call may use. Every setting has a default; only the number of
sessions depends on the machine.
-/

namespace EventSandbox

/-- How running guests are metered. -/
structure EngineConfig where
  /-- Whether calls consume fuel. -/
  fuelMetering : Bool
  /-- Whether calls have a deadline. -/
  epochInterruption : Bool
  /-- How often deadlines are looked at, in milliseconds. -/
  epochTickMs : UInt64
deriving DecidableEq, Repr

/-- Both limits on, deadlines looked at every millisecond. -/
def EngineConfig.default : EngineConfig := ⟨true, true, 1⟩

/-- A one-line summary of the engine. -/
def EngineConfig.summary (c : EngineConfig) : String :=
  "WasmEngine \x7b fuel_metering: " ++ toString c.fuelMetering ++ ", epoch_interruption: "
    ++ toString c.epochInterruption ++ ", epoch_tick_ms: " ++ toString c.epochTickMs.toNat
    ++ ", .. \x7d"

/-- A one-line summary of the ticking clock, which runs only if deadlines are on. -/
def EngineConfig.tickerSummary? (c : EngineConfig) : Option String :=
  if c.epochInterruption then some "EpochTicker \x7b running: true \x7d" else none

/-- What one call may use. -/
structure ExecutionConfig where
  maxFuel : UInt64
  timeoutMs : UInt64
  maxMemoryMb : UInt32
deriving DecidableEq, Repr

/-- Ten million units of fuel, a tenth of a second, 128 MiB. -/
def ExecutionConfig.default : ExecutionConfig := ⟨10000000, 100, 128⟩

/-- The most bytes that a guest's memory may have. -/
def ExecutionConfig.maxMemoryBytes (c : ExecutionConfig) : Nat := c.maxMemoryMb.toNat * 0x100000

/-- The configuration of a processor. -/
structure ProcessorConfig where
  /-- How many idle sessions are kept between events. -/
  maxCachedSessions : UInt64
  /-- What the guest's owner set. -/
  params : Fields
  engine : EngineConfig
  execution : ExecutionConfig
deriving Repr

/-- The configuration of a processor on a machine with so many processing units. -/
def ProcessorConfig.default (units : UInt64) : ProcessorConfig :=
  ⟨units, [], EngineConfig.default, ExecutionConfig.default⟩

/-- A setting that makes no sense. -/
inductive ConfigFault
  | zeroTick
  | zeroMemory
deriving DecidableEq, Repr

/-- The wording of a senseless setting. -/
def ConfigFault.message : ConfigFault → String
  | zeroTick => "engine.epoch_tick_ms must be greater than 0"
  | zeroMemory => "execution.max_memory_mb must be greater than 0"

/-- The first setting that makes no sense. -/
def ProcessorConfig.fault? (c : ProcessorConfig) : Option ConfigFault :=
  if c.engine.epochInterruption ∧ c.engine.epochTickMs = 0 then some .zeroTick
  else if c.execution.maxMemoryMb = 0 then some .zeroMemory
  else none

/-- Accepts a configuration whose settings make sense. -/
def ProcessorConfig.validate (c : ProcessorConfig) : Except ProcessorError Unit :=
  match c.fault? with
  | some fault => .error (.invalidConfig fault.message)
  | none => .ok ()

/-- Where the guest's module is found. -/
structure ModuleEntry where
  path : String
deriving DecidableEq, Repr

/-- What is logged, and how. -/
structure LogConfig where
  filter : String
  json : Bool
deriving DecidableEq, Repr

/-- Plain text, `info` in general and `debug` for the program itself. -/
def LogConfig.default : LogConfig := ⟨"info,ingest_wasm=debug", false⟩

/-- A configuration file. -/
structure ConfigFile where
  processor : ProcessorConfig
  module? : Option ModuleEntry
  log : LogConfig
deriving Repr

/-- The content of an empty configuration file. -/
def ConfigFile.default (units : UInt64) : ConfigFile :=
  ⟨ProcessorConfig.default units, none, LogConfig.default⟩

end EventSandbox
