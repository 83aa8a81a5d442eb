import EventSandbox.Pool.Basic
import EventSandbox.Session

/-!
# EventSandbox.Processor.Basic — many events through one guest

A processor owns the sessions of one guest. Building it makes the first session, so that a guest
that cannot run is found at once; after that, events take an idle session or make a new one, and
give it back whatever happened.

`process` follows one call to its end. Whoever tells the guest the time may use the same processor
meanwhile: the pool is part of the state that the host sees.
-/

namespace EventSandbox

/-- A guest module that has been compiled. -/
structure CompiledModule where
  guest : Guest
  /-- Tells modules apart by their bytes. -/
  contentHash : String
deriving Repr

/-- A one-line summary. -/
def CompiledModule.summary (m : CompiledModule) : String :=
  "CompiledModule \x7b content_hash: \"" ++ m.contentHash ++ "\", .. \x7d"

/-- A processor, apart from its pool. -/
structure Processor where
  factory : SessionFactory
  contentHash : String
  params : Fields

/-- How the processing of an event ends. -/
structure Outcome where
  result : Except ProcessorError Unit
  event : Fields

namespace Processor

/-! ## Building -/

/-- What the sessions of a configured processor are made from, on a machine of some pace. The clock
ticks only if there are deadlines. -/
def factoryOf (module : CompiledModule) (config : ProcessorConfig) (pace : Nat) :
    SessionFactory where
  guest := module.guest
  engine := config.engine
  execution := config.execution
  linker := Linker.full
  ticker := if config.engine.epochInterruption then .ticking pace else .still

/-- Builds a processor and its pool around a first session. -/
def ofModule (module : CompiledModule) (config : ProcessorConfig) (pace : Nat) :
    Run (Except ProcessorError (Processor × Pool Session)) := do
  let factory := factoryOf module config pace
  match ← factory.create with
  | .error error => pure (.error error)
  | .ok seed =>
    pure (.ok (⟨factory, module.contentHash, config.params⟩,
      Pool.withSeed seed config.maxCachedSessions.toNat))

/-- Builds a processor; its configuration is looked at before the module. -/
def build (config : ProcessorConfig) (module : Except ProcessorError CompiledModule)
    (pace : Nat := Ticker.usualPace) : Run (Except ProcessorError (Processor × Pool Session)) :=
  match config.validate, module with
  | .error error, _ => pure (.error error)
  | .ok (), .error error => pure (.error error)
  | .ok (), .ok module => ofModule module config pace

/-! ## Processing -/

/-- The result that a guest's code stands for. -/
def resultOf : Except ProcessorError Int32 → Except ProcessorError Unit
  | .ok code => if code = Status.ok.code then .ok () else .error (.processingFailed code)
  | .error error => .error error

variable {ω : Type}

/-- A session to use: an idle one, or a new one. -/
def acquire (p : Processor) (host : Run.Host (Pool Session × ω)) (s : Pool Session × ω) :
    Option (Except ProcessorError Session × Pool Session × ω) :=
  match s.1.pop with
  | (some session, pool) => some (.ok session, pool, s.2)
  | (none, pool) => do
    let (made, pool, w) ← p.factory.create.follow host (pool, s.2)
    match made with
    | .ok session => pure (.ok session, pool.countBuilt, w)
    | .error error => pure (.error error, pool, w)

/-- Processes an event to its end; `none` if the guest never comes back. -/
def process (p : Processor) (host : Run.Host (Pool Session × ω)) (event : Fields)
    (s : Pool Session × ω) : Option (Outcome × Pool Session × ω) := do
  let (acquired, pool, w) ← p.acquire host s
  match acquired with
  | .error error => pure (⟨.error error, event⟩, pool, w)
  | .ok session =>
    let (ended, pool, w) ← (session.guestProcess event).follow host (pool, w)
    pure (⟨resultOf ended.result, ended.event⟩, (pool.put ended.session).2, w)

end Processor

end EventSandbox
