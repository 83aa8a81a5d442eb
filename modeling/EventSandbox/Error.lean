import EventSandbox.Guest.Trap
import EventSandbox.Json.Number
import EventSandbox.Status
import EventSandbox.Text.Utf8

/-!
# EventSandbox.Error — what can go wrong, and who is told

Two kinds of error do not mix. A **host call error** belongs to one call of a host function: the
guest sees its status, the log its wording. A **processor error** belongs to building a processor
or to processing one event, and its caller sees it.
-/

namespace EventSandbox

/-! ## Host calls -/

/-- Why a host call failed. -/
inductive HostCallError
  /-- A range outside the guest's memory. -/
  | memoryAccess (address length : Int) (memorySize : Nat)
  /-- A key that is not text. -/
  | invalidUtf8 (fault : Utf8.Malformed)
  /-- A value that has no encoding. -/
  | serialization
  /-- Bytes that encode no value. -/
  | deserialization (fault : Json.Fault)
  /-- The guest's allocator gave no room for a payload. -/
  | allocation (size : Nat) (reason : String)
  /-- No call is under way. -/
  | noEventBound
  /-- The guest is still being instantiated. -/
  | exportsUnavailable
deriving DecidableEq, Repr

namespace HostCallError

/-- The status that the guest receives: its own faults are invalid arguments. -/
def status : HostCallError → Status
  | memoryAccess .. | invalidUtf8 _ | deserialization _ => .invalidArgument
  | serialization | allocation .. | noEventBound | exportsUnavailable => .internalFailure

/-- The wording of a host call error. -/
def message : HostCallError → String
  | memoryAccess address length size =>
    "Memory access out of bounds: address " ++ toString address ++ ", length " ++ toString length
      ++ ", memory size " ++ toString size
  | invalidUtf8 fault => "Invalid UTF-8 in guest memory: " ++ fault.message
  | serialization => "Failed to serialize value"
  | deserialization _ => "Failed to deserialize value"
  | allocation size reason =>
    "Guest malloc of " ++ toString size ++ " bytes failed: " ++ reason
  | noEventBound => "No event is bound to the session"
  | exportsUnavailable => "Guest exports are not resolved"

end HostCallError

/-! ## Processing -/

/-- Why a processor could not be built or an event not be processed. -/
inductive ProcessorError
  /-- The module's bytes could not be read. -/
  | io (reason : String)
  /-- The bytes are no module. -/
  | compilationFailed (reason : String)
  /-- The module could not be brought to life. -/
  | instantiation (reason : String)
  /-- The module lacks something the host needs. -/
  | exportResolution (name : String) (reason : String)
  /-- The guest answered with a status other than OK. -/
  | processingFailed (code : Int32)
  /-- The guest trapped. -/
  | invocationFault (text : String) (trap? : Option String)
  /-- The guest used up its fuel. -/
  | fuelExhausted
  /-- The guest passed its deadline. -/
  | executionTimeout (milliseconds : Nat)
  /-- The configuration makes no sense. -/
  | invalidConfig (reason : String)
deriving DecidableEq, Repr

namespace ProcessorError

/-- The guest's own code, if that is the error. -/
def statusCode? : ProcessorError → Option Int32
  | processingFailed code => some code
  | _ => none

/-- Errors of building a processor. -/
def isConstruction : ProcessorError → Bool
  | io _ | compilationFailed _ | instantiation _ | exportResolution .. | invalidConfig _ => true
  | _ => false

/-- Errors of a guest that was stopped for using too much. -/
def isResourceLimit : ProcessorError → Bool
  | fuelExhausted | executionTimeout _ => true
  | _ => false

/-- The wording of a processor error. -/
def message : ProcessorError → String
  | io reason => "Failed to read module data: " ++ reason
  | compilationFailed reason => "Compilation failed: " ++ reason
  | instantiation reason => "Instantiation failed: " ++ reason
  | exportResolution name reason =>
    "Failed to resolve guest export '" ++ name ++ "': " ++ reason
  | processingFailed code => "Process failed with status " ++ Status.describe code
  | invocationFault text _ => text
  | fuelExhausted => "Fuel exhausted: CPU limit exceeded"
  | executionTimeout ms => "Execution timeout after " ++ toString ms ++ "ms"
  | invalidConfig reason => "Invalid configuration: " ++ reason

/-- The error of a call that a trap ended. -/
def ofTrap (timeoutMs : Nat) : Trap → ProcessorError
  | .outOfFuel => fuelExhausted
  | .interrupted => executionTimeout timeoutMs
  | trap => invocationFault trap.message (some trap.codeName)

end ProcessorError

end EventSandbox
