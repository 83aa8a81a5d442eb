import EventSandbox.Cli.Records
import EventSandbox.Cli.Report
import EventSandbox.Processor.Interleaving

/-!
# EventSandbox.Cli.Workers — records on their way through a processor

Every worker goes through its own records one after another; all workers share one processor. A
record whose processing fails loses its event.

`Worker.step` makes the one step that comes next for a worker, so that any order of steps of the
workers is a possible run. `processAll` is the run in which each worker finishes before the next
one starts.
-/

namespace EventSandbox.Cli

/-! ## One record -/

/-- A record after its event was processed. -/
def Record.finish (line : Nat) (outcome : Outcome) : Record :=
  match outcome.result with
  | .ok () => ⟨line, some outcome.event⟩
  | .error _ => ⟨line, none⟩

/-- What is reported when the processing of a record ends. -/
def Record.reports (line : Nat) (outcome : Outcome) : List Report :=
  match outcome.result with
  | .ok () => []
  | .error error => (Report.ofError? error).toList ++ [.failedEvent line error]

/-! ## Workers -/

/-- A worker. -/
structure Worker where
  /-- The records that are done, the last first. -/
  finished : List Record
  /-- The record that is being processed, by its line, and its call. -/
  current? : Option (Nat × Call)
  /-- The records that are left. -/
  waiting : List Record

/-- A worker that has not begun. -/
def Worker.start (records : List Record) : Worker := ⟨[], none, records⟩

/-- The step that comes next for a worker: to take a record, to make a step of its call, or to put
the finished record down. -/
def Worker.step (f : SessionFactory) (s : Shared) (w : Worker) : Worker × Shared :=
  match w.current?, w.waiting with
  | some (line, .finished outcome), _ =>
    ({ w with finished := Record.finish line outcome :: w.finished, current? := none }, s)
  | some (line, call), _ =>
    let (call, s) := call.step f s
    ({ w with current? := some (line, call) }, s)
  | none, ⟨line, some event⟩ :: rest =>
    ({ w with current? := some (line, .waiting event), waiting := rest }, s)
  | none, ⟨line, none⟩ :: rest =>
    ({ w with finished := ⟨line, none⟩ :: w.finished, waiting := rest }, s)
  | none, [] => (w, s)

/-! ## One after another -/

/-- Processes a record that no other record disturbs; `none` if the guest never comes back. -/
def Record.process (f : SessionFactory) (r : Record) (s : Shared) :
    Option (Record × List Report × Shared) :=
  match r.event? with
  | none => some (r, [], s)
  | some event => do
    let (call, s) := Call.toClock f { s with records := [] } event
    let (outcome, s) ← call.toEnd s
    pure (Record.finish r.line outcome,
      s.records.reverse.map .guest ++ Record.reports r.line outcome, s)

/-- Processes records in order. -/
def processAll (f : SessionFactory) :
    List Record → Shared → Option (List Record × List Report × Shared)
  | [], s => some ([], [], s)
  | r :: rest, s => do
    let (r, reports, s) ← r.process f s
    let (rest, more, s) ← processAll f rest s
    pure (r :: rest, reports ++ more, s)

/-- Processes the records of all workers, worker after worker. -/
def processShares (f : SessionFactory) :
    List (List Record) → Shared → Option (List (List Record) × List Report × Shared)
  | [], s => some ([], [], s)
  | share :: rest, s => do
    let (share, reports, s) ← processAll f share s
    let (rest, more, s) ← processShares f rest s
    pure (share :: rest, reports ++ more, s)

end EventSandbox.Cli
