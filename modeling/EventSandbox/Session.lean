import EventSandbox.Guest.Instance

/-!
# EventSandbox.Session — one guest, one event at a time

A session is an instance of a guest whose exports are resolved. Processing an event binds it,
applies the budget, calls the guest's handler and takes the event back, however the call ended.
What survives from one event to the next is what the instance holds: the guest's memory and
globals, its table, and what it has not dropped of its segments.
-/

namespace EventSandbox

/-- What sessions of one guest are made from. -/
structure SessionFactory where
  guest : Guest
  engine : EngineConfig
  execution : ExecutionConfig
  linker : Linker
  ticker : Ticker
deriving Repr

/-- A guest that is ready for an event. -/
structure Session where
  machine : Machine
  engine : EngineConfig
  budget : Budget
  ticker : Ticker

namespace SessionFactory

/-- The budget of every call. -/
def budget (f : SessionFactory) : Budget := Budget.ofConfig f.engine f.execution

/-- Wraps the reason why a module could not be instantiated. -/
def instantiationError (fault : InstantiationFault) : ProcessorError :=
  .instantiation ("Failed to create WASM module instance: " ++ fault.message)

/-- Makes a session: instantiates the guest under a fresh budget and finds its exports. -/
def create (f : SessionFactory) : Run (Except ProcessorError Session) := do
  match Meter.ofBudget f.engine f.ticker f.budget with
  | .error error => pure (.error error)
  | .ok meter =>
    match ← f.guest.instantiate f.linker f.execution.maxMemoryBytes meter with
    | .error fault => pure (.error (instantiationError fault))
    | .ok machine =>
      match f.guest.resolveExports with
      | .error (name, fault) => pure (.error (.exportResolution name fault.message))
      | .ok exports =>
        pure (.ok ⟨{ machine with exports? := some exports }, f.engine, f.budget, f.ticker⟩)

end SessionFactory

namespace Session

/-- How the processing of an event ends: the result, the event as the guest left it, and the
session. -/
structure Ended where
  result : Except ProcessorError Int32
  event : Fields
  session : Session

/-- Calls the guest's handler under a fresh budget. -/
def callProcess (s : Session) (m : Machine) : Run (Except ProcessorError Int32 × Machine) := do
  match Meter.ofBudget s.engine s.ticker s.budget, m.exports? with
  | .error error, _ => pure (.error error, m)
  | .ok _, none =>
    pure (.error (.exportResolution Guest.processName Guest.ExportFault.missingFunction.message), m)
  | .ok meter, some exports =>
    match ← (Code.call exports.process 0).run { m with meter } with
    | (.ok code, m) => pure (.ok code.toInt32, m)
    | (.error trap, m) => pure (.error (ProcessorError.ofTrap s.budget.timeoutMs trap), m)

/-- Processes an event. -/
def guestProcess (s : Session) (event : Fields) : Run Ended := do
  let (result, m) ← s.callProcess { s.machine with event? := some event }
  pure ⟨result, m.event?.getD [], { s with machine := { m with event? := none } }⟩

end Session

end EventSandbox
