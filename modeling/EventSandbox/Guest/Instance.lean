import EventSandbox.Guest.Exec
import EventSandbox.Guest.Linker

/-!
# EventSandbox.Guest.Instance — bringing a module to life

Five steps in a fixed order, each of which may fail: imports are resolved, the memory is held
against its limit, data is copied into it, the start function runs, and the exports that the host
needs are found. While the start function runs the exports are not known yet, so it gets nothing
out of the host.
-/

namespace EventSandbox

/-! ## Instantiation -/

/-- Why a module cannot be instantiated. -/
inductive InstantiationFault
  | unresolved (fault : Linker.ImportFault)
  | memoryLimit (pages : Nat)
  | trapped (trap : Trap)
deriving DecidableEq, Repr

/-- The wording of an instantiation fault. -/
def InstantiationFault.message : InstantiationFault → String
  | .unresolved fault => fault.message
  | .memoryLimit pages =>
    "memory minimum size of " ++ toString pages ++ " pages exceeds memory limits"
  | .trapped trap => trap.message

namespace Guest

/-- The pages that a guest's memory may have: its own maximum and the limit in bytes both count. -/
def pageLimit (g : Guest) (maxBytes : Nat) : Nat :=
  min (g.maxPages?.getD maxAddressablePages) (min maxAddressablePages (maxBytes / pageSize))

/-- The memory of a fresh instance, if it fits the limit. -/
def freshMemory (g : Guest) (maxBytes : Nat) : Except InstantiationFault Memory :=
  if h : g.minPages ≤ g.pageLimit maxBytes then .ok (Memory.zeros g.minPages _ h)
  else .error (.memoryLimit g.minPages)

/-- Copies data into the memory, in order. -/
def copyData : List (Word × Bytes) → Memory → Except InstantiationFault Memory
  | [], m => .ok m
  | (offset, bytes) :: rest, m =>
    if offset.toNat + bytes.length ≤ m.size then copyData rest (m.setSlice offset.toNat bytes)
    else .error (.trapped .memoryOutOfBounds)

/-- An instance before its start function has run. -/
def prepare (g : Guest) (linker : Linker) (maxBytes : Nat) (meter : Meter) :
    Except InstantiationFault Machine := do
  let _ ← (linker.resolveAll g.imports).mapError .unresolved
  let memory ← copyData g.data (← g.freshMemory maxBytes)
  pure
    { memory, globals := g.globals, holdings := g.holdings, event? := none, exports? := none,
      meter }

/-- Runs the start function, if there is one. -/
def runStart (g : Guest) (m : Machine) : Run (Except InstantiationFault Machine) := do
  match g.start? with
  | none => pure (.ok m)
  | some steps =>
    match ← (Code.call (.steps steps) 0).run m with
    | (.ok _, m) => pure (.ok m)
    | (.error trap, _) => pure (.error (.trapped trap))

/-- An instance whose start function has run. -/
def instantiate (g : Guest) (linker : Linker) (maxBytes : Nat) (meter : Meter) :
    Run (Except InstantiationFault Machine) :=
  match g.prepare linker maxBytes meter with
  | .error fault => pure (.error fault)
  | .ok m => g.runStart m

/-! ## Exports -/

/-- Why an export cannot be used. -/
inductive ExportFault
  | missingFunction
  | paramCount (expected actual : Nat)
  | resultCount (expected actual : Nat)
  | paramTypes
  | resultTypes
  | missingMemory
deriving DecidableEq, Repr

/-- The wording of an export fault. -/
def ExportFault.message : ExportFault → String
  | missingFunction => "function export not found"
  | paramCount expected actual =>
    "must accept " ++ toString expected ++ " parameter(s) but has " ++ toString actual
  | resultCount expected actual =>
    "must return " ++ toString expected ++ " value(s) but has " ++ toString actual
  | paramTypes => "unexpected signature: type mismatch with parameters"
  | resultTypes => "unexpected signature: type mismatch with results"
  | missingMemory => "memory export not found"

/-- Whether a function has the wanted type: counts are compared first, parameters before results. -/
def checkType (wanted actual : FuncType) : Except ExportFault Unit :=
  if actual.params.length ≠ wanted.params.length then
    .error (.paramCount wanted.params.length actual.params.length)
  else if actual.results.length ≠ wanted.results.length then
    .error (.resultCount wanted.results.length actual.results.length)
  else if actual.params ≠ wanted.params then .error .paramTypes
  else if actual.results ≠ wanted.results then .error .resultTypes
  else .ok ()

/-- Finds an exported function of a type. -/
def resolveFunction (g : Guest) (name : String) (wanted : FuncType) : Except ExportFault Code :=
  match g.functions.find? fun f => f.name = name with
  | none => .error .missingFunction
  | some f => (checkType wanted f.type).map fun _ => f.code

/-- The name of the allocator's export. -/
def mallocName : String := "malloc"

/-- The name of the event handler's export. -/
def processName : String := "process"

/-- The name of the memory's export. -/
def memoryName : String := "memory"

/-- Finds the exports that the host needs; the first bad one counts. -/
def resolveExports (g : Guest) : Except (String × ExportFault) Exports := do
  let malloc ← (g.resolveFunction mallocName FuncType.malloc).mapError (mallocName, ·)
  let process ← (g.resolveFunction processName FuncType.process).mapError (processName, ·)
  if g.memoryName? = some memoryName then pure ⟨malloc, process⟩
  else .error (memoryName, .missingMemory)

end Guest

end EventSandbox
