/-!
# EventSandbox.Guest.Trap — why a running guest is stopped

Two of the traps are resource limits: the fuel of a metered call runs out, or its deadline passes.
All others are faults of the guest.
-/

namespace EventSandbox

/-- Why a running guest is stopped. -/
inductive Trap
  | unreachable
  | memoryOutOfBounds
  | tableOutOfBounds
  | integerDivisionByZero
  | integerOverflow
  | stackOverflow
  | outOfFuel
  | interrupted
deriving DecidableEq, Repr

namespace Trap

/-- The name of a trap's code. -/
def codeName : Trap → String
  | unreachable => "UnreachableCodeReached"
  | memoryOutOfBounds => "MemoryOutOfBounds"
  | tableOutOfBounds => "TableOutOfBounds"
  | integerDivisionByZero => "IntegerDivisionByZero"
  | integerOverflow => "IntegerOverflow"
  | stackOverflow => "StackOverflow"
  | outOfFuel => "OutOfFuel"
  | interrupted => "Interrupt"

/-- The wording of a trap. -/
def message (t : Trap) : String :=
  "wasm trap: " ++
    match t with
    | unreachable => "wasm `unreachable` instruction executed"
    | memoryOutOfBounds => "out of bounds memory access"
    | tableOutOfBounds => "undefined element: out of bounds table access"
    | integerDivisionByZero => "integer divide by zero"
    | integerOverflow => "integer overflow"
    | stackOverflow => "call stack exhausted"
    | outOfFuel => "all fuel consumed by WebAssembly"
    | interrupted => "interrupt"

end Trap

end EventSandbox
