import EventSandbox.Guest.Run
import EventSandbox.Json.Parser
import EventSandbox.Json.Printer

/-!
# EventSandbox.Guest.HostCall — the four functions that a guest imports

1. `getField` writes the text of a field into memory that the guest's own allocator provides, and
   its address and length where the guest asked for them.
2. `putField` reads a field's text from memory and sets the field.
3. `log` passes on a message and never fails.
4. `currentTime` writes the time.

All refuse to work before the guest's exports are resolved, whatever their arguments. A call that
fails is logged when it ends and answers the guest with the status of its error. Beginning and end
of every call can be seen from outside.

The allocator is given as an argument: it is a computation of the guest, and it may itself call
the host.
-/

namespace EventSandbox

/-- A computation on the state of a guest that may pause. -/
abbrev Exec (α : Type) := StateT Machine Run α

/-- A host call, which may fail. -/
abbrev HostCall (α : Type) := ExceptT HostCallError (StateT Machine Run) α

/-- How the host calls the guest's allocator: the trap that ended it, or the address it gave. -/
abbrev Allocator := Word → Exec (Except Trap Word)

namespace Exec

/-- Writes a record. -/
def record (entry : LogRecord) : Exec Unit := StateT.lift (Run.emit entry fun _ => pure ())

/-- Shows a moment. -/
def mark (moment : Moment) : Exec Unit := StateT.lift (Run.mark moment fun _ => pure ())

end Exec

namespace HostCall

/-- A result as a host call. -/
def ofExcept {α : Type} (result : Except HostCallError α) : HostCall α := ExceptT.mk (pure result)

/-- Refuses to work while the guest's exports are not resolved. -/
def resolved : HostCall Unit := do
  if (← get).exports?.isNone then throw .exportsUnavailable

/-- Why a payload found no room. -/
inductive AllocationFault
  | tooLarge
  | trapped (trap : Trap)
  | unusable (address : Word)
deriving DecidableEq, Repr

/-- The wording of an allocation fault. -/
def AllocationFault.message : AllocationFault → String
  | tooLarge => "payload exceeds guest address space"
  | trapped trap => "guest malloc failed: " ++ trap.message
  | unusable address =>
    "guest malloc returned an unusable region at " ++ toString address.toNat

/-- Has room made for a payload and writes it there; answers its address and length. -/
def place (malloc : Allocator) (payload : Bytes) : HostCall (Word × Word) := do
  let refuse {α : Type} (fault : AllocationFault) : HostCall α :=
    throw (.allocation payload.length fault.message)
  match Memory.lengthWord? payload.length with
  | none => refuse .tooLarge
  | some length =>
    match ← ExceptT.lift (malloc length) with
    | .error trap => refuse (.trapped trap)
    | .ok address =>
      let m ← get
      match m.memory.write address payload with
      | .error _ => refuse (.unusable address)
      | .ok memory =>
        set { m with memory }
        pure (address, length)

/-- Writes a word. -/
def putWord (address word : Word) : HostCall Unit := do
  let m ← get
  let memory ← ofExcept (m.memory.writeWord address word)
  set { m with memory }

/-- Has a payload placed and tells the guest where it is: its address first, its length last. -/
def deliver (malloc : Allocator) (payload : Bytes) (outPtr outLen : Word) : HostCall Unit := do
  let (address, length) ← place malloc payload
  putWord outPtr address
  putWord outLen length

/-- Gives the guest the text of a field. The places for address and length are checked before the
allocator is called, and written after the payload. -/
def getField (malloc : Allocator) (keyPtr keyLen outPtr outLen : Word) : HostCall Status := do
  resolved
  let m ← get
  let key ← ofExcept (m.memory.readString keyPtr keyLen)
  match m.event? with
  | none => throw .noEventBound
  | some event =>
    match Fields.get? event key with
    | none => do
      ExceptT.lift (Exec.record (.fieldMissing key))
      pure .notFound
    | some value => do
      let payload := value.toJson
      ofExcept (m.memory.check outPtr 4)
      ofExcept (m.memory.check outLen 4)
      deliver malloc payload outPtr outLen
      ExceptT.lift (Exec.record (.fieldRead key payload.length))
      pure .ok

/-- Sets a field to the value whose text the guest has in memory. -/
def putField (keyPtr keyLen valuePtr valueLen : Word) : HostCall Status := do
  resolved
  let m ← get
  let key ← ofExcept (m.memory.readString keyPtr keyLen)
  let bytes ← ofExcept (m.memory.read valuePtr valueLen)
  match Value.ofJson bytes with
  | .error fault => throw (.deserialization fault)
  | .ok value =>
    match m.event? with
    | none => throw .noEventBound
    | some event =>
      set { m with event? := some (event.insert key value) }
      ExceptT.lift (Exec.record (.fieldWritten key))
      pure .ok

/-- Writes the time. -/
def currentTime (out : Word) : HostCall Status := do
  resolved
  let time ← ExceptT.lift (StateT.lift (Run.readClock pure))
  let m ← get
  let memory ← ofExcept (m.memory.writeInt64 out time)
  set { m with memory }
  pure .ok

/-- The record of a message: the message itself, or why it could not be read. -/
def logRecord (m : Machine) (level text length : Word) : LogRecord :=
  let bytes :=
    if m.exports?.isNone then .error .exportsUnavailable else m.memory.read text length
  match bytes with
  | .ok bytes => .guest (LogLevel.ofNumber level.toInt32) (String.ofList (Utf8.decodeLossy bytes))
  | .error error => .dropped level.toInt32 error

/-- Passes on a message. -/
def log (level text length : Word) : Exec Status := do
  Exec.record (logRecord (← get) level text length)
  pure .ok

/-- What a request asks for. -/
def perform (malloc : Allocator) : HostRequest → HostCall Status
  | .getField key keyLength outAddress outLength =>
    getField malloc key keyLength outAddress outLength
  | .putField key keyLength value valueLength => putField key keyLength value valueLength
  | .log level text textLength => ExceptT.lift (log level text textLength)
  | .currentTime out => currentTime out

/-- The status with which a host call ends. A failure is recorded. -/
def conclude (function : HostFunction) : Except HostCallError Status → Exec Status
  | .ok status => pure status
  | .error error => do
    Exec.record (.failedCall function error)
    pure error.status

/-- Makes a host call: the word is what the guest goes on with. -/
def answer (malloc : Allocator) (request : HostRequest) : Exec Word := do
  Exec.mark (.began request (← get))
  let status ← conclude request.function (← (perform malloc request).run)
  Exec.mark (.ended status (← get))
  pure status.code.toUInt32

end HostCall

end EventSandbox
