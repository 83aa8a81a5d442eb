import EventSandbox.Config.Basic
import EventSandbox.Json.Parser
import EventSandbox.Json.Printer

/-!
# EventSandbox.Config.Json — configurations as JSON

A *record* is a list of named settings in declaration order. It is read from an object, in which
unknown fields are passed over and no field comes twice, or from an array that holds the settings
in order and may stop early. What is not written keeps its default.

Reading is one pass over the text, so a setting of the wrong type counts before any fault to its
right.
-/

namespace EventSandbox.Json

/-! ## Records -/

/-- A named setting of a record, with the reader of its value. -/
structure Setting (σ : Type) where
  name : String
  read : σ → Bytes → Except Fault (σ × Bytes)

/-- Reads one member of a record written as an object, after its name. The names read so far are
kept beside the record, and a name that comes again is refused at once. -/
def recordMember {σ : Type} (settings : List (Setting σ)) (limit : Nat) (name : String)
    (state : σ × List String) (s : Bytes) : Except Fault ((σ × List String) × Bytes) := do
  match settings.find? fun setting => setting.name = name with
  | none => pure (state, ← skipValue limit (← colon s))
  | some setting =>
    if name ∈ state.2 then .error .mismatched
    else
      let (record, s) ← setting.read state.1 (← colon s)
      pure ((record, name :: state.2), s)

/-- Reads the settings of a record written as an array, after its opening bracket. -/
def recordItems {σ : Type} :
    List (Setting σ) → (first : Bool) → σ → Bytes → Except Fault (σ × Bytes)
  | [], _, record, s =>
    match skipBlank s with
    | [] => .error .truncated
    | b :: t => if b = ascii ']' then .ok (record, t) else .error .malformed
  | setting :: rest, first, record, s =>
    match skipBlank s with
    | [] => .error .truncated
    | b :: t =>
      if b = ascii ']' then .ok (record, t)
      else
        match nextItem first b t with
        | .error fault => .error fault
        | .ok [] => .error .truncated
        | .ok (c :: u) =>
          if c = ascii ']' then .error .malformed
          else do
            let (record, s) ← setting.read record (c :: u)
            recordItems rest false record s

/-- Reads a record over its defaults. The settings are given the nesting that is left inside it. -/
def record {σ : Type} (settings : Nat → List (Setting σ)) (limit depth : Nat) (defaults : σ)
    (s : Bytes) : Except Fault (σ × Bytes) :=
  match skipBlank s with
  | [] => .error .truncated
  | b :: t =>
    if b = ascii '{' then
      match depth with
      | 0 => .error .malformed
      | depth + 1 => do
        let ((result, _), s) ←
          members (recordMember (settings depth) limit) limit true (defaults, []) t
        pure (result, s)
    else if b = ascii '[' then
      match depth with
      | 0 => .error .malformed
      | depth + 1 => recordItems (settings depth) true defaults t
    else .error (mismatch (b :: t))

/-! ## Settings -/

/-- Reads a truth value. -/
def boolean (s : Bytes) : Except Fault (Bool × Bytes) :=
  match skipBlank s with
  | [] => .error .truncated
  | b :: t =>
    if b = ascii 't' then do pure (true, ← expect (utf8 "rue") t)
    else if b = ascii 'f' then do pure (false, ← expect (utf8 "alse") t)
    else .error (mismatch (b :: t))

/-- Reads a natural number below a bound. A double is none, whatever its value. -/
def natural (bound : Nat) (s : Bytes) : Except Fault (Nat × Bytes) :=
  let accept : Number × Bytes → Except Fault (Nat × Bytes)
    | (.int n _ _, s) => if 0 ≤ n ∧ n < bound then .ok (n.toNat, s) else .error .mismatched
    | (.float _, _) => .error .mismatched
  match skipBlank s with
  | [] => .error .truncated
  | b :: t =>
    if b = ascii '-' then number true t >>= accept
    else if isDigit b then number false (b :: t) >>= accept
    else .error (mismatch (b :: t))

/-- Reads a 64-bit unsigned setting. -/
def word64 (s : Bytes) : Except Fault (UInt64 × Bytes) := do
  let (n, s) ← natural 0x10000000000000000 s
  pure (UInt64.ofNat n, s)

/-- Reads a 32-bit unsigned setting. -/
def word32 (s : Bytes) : Except Fault (UInt32 × Bytes) := do
  let (n, s) ← natural 0x100000000 s
  pure (UInt32.ofNat n, s)

/-- A setting whose reader does not look at the record. -/
def setting {σ α : Type} (name : String) (read : Bytes → Except Fault (α × Bytes))
    (set : σ → α → σ) : Setting σ :=
  ⟨name, fun record s => do
    let (value, s) ← read s
    pure (set record value, s)⟩

/-- The settings of an engine. -/
def engineSettings : List (Setting EngineConfig) :=
  [ setting "fuel_metering" boolean fun c v => { c with fuelMetering := v },
    setting "epoch_interruption" boolean fun c v => { c with epochInterruption := v },
    setting "epoch_tick_ms" word64 fun c v => { c with epochTickMs := v } ]

/-- The settings of one call's limits. -/
def executionSettings : List (Setting ExecutionConfig) :=
  [ setting "max_fuel" word64 fun c v => { c with maxFuel := v },
    setting "timeout_ms" word64 fun c v => { c with timeoutMs := v },
    setting "max_memory_mb" word32 fun c v => { c with maxMemoryMb := v } ]

/-- The settings of a processor. -/
def processorSettings (limit depth : Nat) : List (Setting ProcessorConfig) :=
  [ setting "max_cached_sessions" word64 fun c v => { c with maxCachedSessions := v },
    setting "params" (fields limit depth) fun c v => { c with params := v },
    setting "engine" (record (fun _ => engineSettings) limit depth EngineConfig.default)
      fun c v => { c with engine := v },
    setting "execution" (record (fun _ => executionSettings) limit depth ExecutionConfig.default)
      fun c v => { c with execution := v } ]

/-! ## Text -/

/-- The text of a record: its settings in declaration order. -/
def renderRecord (settings : List (String × List Char)) : List Char :=
  let member := fun (name, text) => quoted name ++ ':' :: text
  '{' :: ((settings.map member).intersperse [',']).flatten ++ ['}']

/-- The text of a truth value. -/
def renderBool (b : Bool) : List Char := render (.bool b)

/-- The text of a natural number. -/
def renderNat (n : Nat) : List Char := Double.digitsOf n

end EventSandbox.Json

namespace EventSandbox

/-- The processor configuration that a text holds, on a machine with so many processing units. -/
def ProcessorConfig.ofJson (units : UInt64) (text : Bytes) : Except Json.Fault ProcessorConfig := do
  let limit := text.length + 1
  Json.finish
    (← Json.record (Json.processorSettings limit) limit Json.maxNesting
      (ProcessorConfig.default units) text)

open Json

/-- The text of an engine configuration. -/
def EngineConfig.render (c : EngineConfig) : List Char :=
  renderRecord
    [ ("fuel_metering", renderBool c.fuelMetering),
      ("epoch_interruption", renderBool c.epochInterruption),
      ("epoch_tick_ms", renderNat c.epochTickMs.toNat) ]

/-- The text of an execution configuration. -/
def ExecutionConfig.render (c : ExecutionConfig) : List Char :=
  renderRecord
    [ ("max_fuel", renderNat c.maxFuel.toNat),
      ("timeout_ms", renderNat c.timeoutMs.toNat),
      ("max_memory_mb", renderNat c.maxMemoryMb.toNat) ]

/-- The text of a processor configuration. -/
def ProcessorConfig.render (c : ProcessorConfig) : List Char :=
  renderRecord
    [ ("max_cached_sessions", renderNat c.maxCachedSessions.toNat),
      ("params", Json.render (.object c.params)),
      ("engine", c.engine.render),
      ("execution", c.execution.render) ]

/-- The text of a configuration file's content. -/
def ConfigFile.render (c : ConfigFile) : List Char :=
  let module := match c.module? with
    | some entry => renderRecord [("path", quoted entry.path)]
    | none => Json.render .null
  renderRecord
    [ ("processor", c.processor.render),
      ("module", module),
      ("log", renderRecord [("filter", quoted c.log.filter), ("json", renderBool c.log.json)]) ]

end EventSandbox
