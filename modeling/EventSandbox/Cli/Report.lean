import EventSandbox.Json.Printer
import EventSandbox.Log

/-!
# EventSandbox.Cli.Report — what the program says about its run

Reports go to the log in the order in which things happen. A filter keeps those that are grave
enough: it is a list of directives, each a level, or a level for one part of the program; a
directive for the part counts before one for everything.
-/

namespace EventSandbox.Cli

/-! ## Reports -/

/-- Something that happened during a run. -/
inductive Report
  | engineReady
  | moduleCompiled
  | processorReady
  | moduleLoaded (path : String)
  /-- A record of a running guest. -/
  | guest (record : LogRecord)
  /-- A guest that was stopped, by a limit or by a fault. -/
  | stopped (error : ProcessorError)
  | invalidEvent (line : Nat)
  | failedEvent (line : Nat) (error : ProcessorError)
  | complete (events failed workers : Nat)
deriving Repr

namespace Report

/-- How grave a report is. -/
def level : Report → LogLevel
  | engineReady | moduleCompiled | processorReady | moduleLoaded _ | complete .. => .info
  | guest record => record.level
  | stopped error => if error.isResourceLimit then .warn else .error
  | invalidEvent _ | failedEvent .. => .error

/-- The report of a call that ended with an error, if the guest was stopped. -/
def ofError? : ProcessorError → Option Report
  | .invocationFault text trap? => some (stopped (.invocationFault text trap?))
  | .fuelExhausted => some (stopped .fuelExhausted)
  | .executionTimeout ms => some (stopped (.executionTimeout ms))
  | _ => none

/-- The wording of a record of a guest. -/
def recordMessage : LogRecord → String
  | .guest _ text => text
  | .failedCall function error => function.name ++ " failed: " ++ error.message
  | .dropped _ error => "Dropped unreadable guest log message: " ++ error.message
  | .fieldMissing _ => "Field not found"
  | .fieldRead .. => "Field read"
  | .fieldWritten _ => "Field written"

/-- The wording of a report. -/
def message : Report → String
  | engineReady => "Engine initialized"
  | moduleCompiled => "Module compiled"
  | processorReady => "Processor ready"
  | moduleLoaded _ => "Module loaded"
  | guest record => recordMessage record
  | stopped error => "Guest process stopped: " ++ error.message
  | invalidEvent _ => "Invalid event"
  | failedEvent .. => "Event processing failed"
  | complete .. => "Processing complete"

/-- What a report says beside its message, in order. -/
def details : Report → List (String × Value)
  | moduleLoaded path => [("module", .string path)]
  | invalidEvent line => natural "line" line
  | failedEvent line error => natural "line" line ++ [("error", .string error.message)]
  | complete events failed workers =>
    natural "events" events ++ natural "failed" failed ++ natural "workers" workers
  | _ => []
where
  /-- A named natural number. -/
  natural (name : String) (n : Nat) : List (String × Value) :=
    match Number.ofInt? n with
    | some n => [(name, .number n)]
    | none => []

/-- A report as a line of JSON. -/
def toJson (r : Report) : String :=
  Value.toText (.object
    [ ("level", .string r.level.displayName),
      ("fields", .object (("message", .string r.message) :: r.details)) ])

/-- A report as a line of text. -/
def toText (r : Report) : String :=
  let details := r.details.map fun (name, v) => " " ++ name ++ "=" ++ v.toText
  r.level.displayName ++ " " ++ r.message ++ "".intercalate details

end Report

/-! ## Filters -/

/-- The part of the program that directives name. -/
def partName : String := "ingest_wasm"

/-- A directive: for everything or for the program, from which level on; `none` for nothing. -/
structure Directive where
  own : Bool
  bound? : Option LogLevel
deriving DecidableEq, Repr

/-- The bounds, the most silent first. -/
def bounds : List (Option LogLevel) :=
  [none, some .error, some .warn, some .info, some .debug, some .trace]

/-- The name of a bound. -/
def boundName : Option LogLevel → String
  | none => "OFF"
  | some level => level.displayName

/-- The bound that a word names, in any case or by its number. -/
def bound? (word : String) : Option (Option LogLevel) :=
  (bounds.zipIdx.find? fun (bound, i) => word.toUpper = boundName bound ∨ word = toString i).map
    (·.1)

/-- The directive that a text holds. A part without a level is shown in full; other parts do not
matter. -/
def directive? (text : String) : Option Directive :=
  match text.splitOn "=" with
  | [word] =>
    match bound? word with
    | some bound => some ⟨false, bound⟩
    | none => if word = partName then some ⟨true, some .trace⟩ else none
  | [name, word] =>
    match bound? word with
    | some bound => if name = partName then some ⟨true, bound⟩ else none
    | none => none
  | _ => none

/-- From which level on a filter keeps reports; `none` if it keeps none. An empty filter keeps
errors. -/
def filterBound (filter : String) : Option LogLevel :=
  if filter.isEmpty then some .error
  else
    let directives := ((filter.splitOn ",").filterMap directive?).reverse
    match directives.find? (·.own), directives.find? (!·.own) with
    | some d, _ => d.bound?
    | none, some d => d.bound?
    | none, none => none

/-- The reports that a filter keeps. -/
def kept (filter : String) (reports : List Report) : List Report :=
  match filterBound filter with
  | some bound => reports.filter fun r => r.level.atLeast bound
  | none => []

end EventSandbox.Cli
