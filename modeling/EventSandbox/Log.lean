import EventSandbox.Error
import EventSandbox.Json.Value

/-!
# EventSandbox.Log — what a run writes to the log

Six kinds of record come out of a running guest. Three concern whoever runs the program: messages
of the guest, its failed host calls, and messages that could not be read. The other three, at level
`trace`, tell what became of a field: that it was found missing, that the guest was given its text,
or that the guest has set it.

The record of a call that succeeded or failed is the last thing that the call does. So the records
of host calls made by an allocator come before the record of the call that it was called by.
-/

namespace EventSandbox

/-- How grave a record is. -/
inductive LogLevel
  | trace
  | debug
  | info
  | warn
  | error
deriving DecidableEq, Repr

namespace LogLevel

/-- The number by which a guest names a level; it grows with gravity. -/
def number : LogLevel → Int32
  | trace => 0
  | debug => 1
  | info => 2
  | warn => 3
  | error => 4

/-- The level that a guest's number names; an unknown number means `info`. -/
def ofNumber (n : Int32) : LogLevel :=
  if n = 0 then trace
  else if n = 1 then debug
  else if n = 3 then warn
  else if n = 4 then error
  else info

/-- The name of a level. -/
def displayName : LogLevel → String
  | trace => "TRACE"
  | debug => "DEBUG"
  | info => "INFO"
  | warn => "WARN"
  | error => "ERROR"

/-- Whether a level is at least as grave as another. -/
def atLeast (level bound : LogLevel) : Bool := bound.number ≤ level.number

end LogLevel

/-- The functions that the host offers a guest. -/
inductive HostFunction
  | getField
  | putField
  | log
  | currentTime
deriving DecidableEq, Repr

/-- The name under which a guest imports a host function. -/
def HostFunction.name : HostFunction → String
  | .getField => "elastic_get_field"
  | .putField => "elastic_put_field"
  | .log => "elastic_log"
  | .currentTime => "elastic_get_current_time_nanoseconds"

/-- A record of a run. -/
inductive LogRecord
  /-- A message of the guest. -/
  | guest (level : LogLevel) (text : String)
  /-- A host call that did not succeed. -/
  | failedCall (function : HostFunction) (error : HostCallError)
  /-- A message of the guest that lies outside its memory. -/
  | dropped (level : Int32) (error : HostCallError)
  /-- The guest asked for a field that the event does not have. -/
  | fieldMissing (key : String)
  /-- The guest was given the text of a field, which has so many bytes. -/
  | fieldRead (key : String) (length : Nat)
  /-- The guest has set a field. -/
  | fieldWritten (key : String)
deriving Repr

/-- How grave a record is. -/
def LogRecord.level : LogRecord → LogLevel
  | .guest level _ => level
  | .failedCall .. | .dropped .. => .warn
  | .fieldMissing _ | .fieldRead .. | .fieldWritten _ => .trace

end EventSandbox
