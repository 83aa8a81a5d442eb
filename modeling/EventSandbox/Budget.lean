import EventSandbox.Config.Basic

/-!
# EventSandbox.Budget — what one call may use

A budget is fixed when the guest is loaded and applied before every call. Fuel is counted down by
the running guest. A deadline is counted in ticks of the engine's clock: the fewest ticks, and at
least one, that cover the timeout. How far a guest gets in that time is up to the machine that it
runs on: the `Ticker` of an engine says so, and it may be any.
-/

namespace EventSandbox

/-- What one call may use; `none` where nothing limits it. -/
structure Budget where
  fuel? : Option Nat
  epochTicks? : Option Nat
  timeoutMs : Nat
deriving DecidableEq, Repr

namespace Budget

/-- The quotient rounded up. -/
def ceilDiv (n d : Nat) : Nat := n / d + if n % d = 0 then 0 else 1

/-- The budget that a configuration gives each call. A tick of no length counts as one
millisecond. -/
def ofConfig (engine : EngineConfig) (execution : ExecutionConfig) : Budget where
  fuel? := if engine.fuelMetering then some execution.maxFuel.toNat else none
  epochTicks? :=
    if engine.epochInterruption then
      some (max (ceilDiv execution.timeoutMs.toNat (max engine.epochTickMs.toNat 1)) 1)
    else none
  timeoutMs := execution.timeoutMs.toNat

/-- An optional number in a summary. -/
def showLimit : Option Nat → String
  | some n => "Some(" ++ toString n ++ ")"
  | none => "None"

/-- A one-line summary. -/
def summary (b : Budget) : String :=
  "ExecutionBudget \x7b fuel: " ++ showLimit b.fuel? ++ ", epoch_ticks: "
    ++ showLimit b.epochTicks? ++ ", timeout_ms: " ++ toString b.timeoutMs ++ " \x7d"

end Budget

/-! ## Clocks -/

/-- The clock of an engine, as the guests on it meet it. -/
inductive Ticker
  /-- The clock stands still, and no deadline passes. -/
  | still
  /-- The clock ticks, and a guest does so much work in a millisecond. -/
  | ticking (pace : Nat)
deriving DecidableEq, Repr

namespace Ticker

/-- The pace at which a call runs out of any reasonable amount of fuel long before its deadline. -/
def usualPace : Nat := 1000000000

/-- A clock at the usual pace, if it ticks. -/
instance : Coe Bool Ticker := ⟨fun ticks => if ticks then .ticking usualPace else .still⟩

/-- The work that a guest does in some ticks of `tickMs` each; none of them ends if the clock stands
still. -/
def workIn? (ticker : Ticker) (ticks tickMs : Nat) : Option Nat :=
  match ticker with
  | .still => none
  | .ticking pace => some (ticks * tickMs * pace)

end Ticker

/-! ## Meters -/

/-- What a running guest has left: fuel, and work before its deadline. -/
structure Meter where
  fuel? : Option Nat
  work? : Option Nat
deriving DecidableEq, Repr

namespace Meter

/-- The meter of a call with this budget. A deadline counts only while the engine's clock ticks.
Fuel can only be set on an engine that meters it. -/
def ofBudget (engine : EngineConfig) (ticker : Ticker) (budget : Budget) :
    Except ProcessorError Meter :=
  let work? := budget.epochTicks?.bind fun ticks => ticker.workIn? ticks engine.epochTickMs.toNat
  match budget.fuel?, engine.fuelMetering with
  | some fuel, true => .ok ⟨some fuel, work?⟩
  | some _, false =>
    .error (.invalidConfig "Failed to set fuel: fuel is not configured in this store")
  | none, true => .ok ⟨some 0, work?⟩
  | none, false => .ok ⟨none, work?⟩

end Meter

end EventSandbox
