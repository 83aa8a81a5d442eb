import EventSandbox.Guest.HostCall

/-!
# EventSandbox.Guest.Exec — running a guest's functions

A step runs under two limits and in two parts. Its operands are evaluated without a pause; then it
acts, possibly by calling the host, and the run pauses. Limits are looked at only when a function
is entered and when a loop begins a turn, so steps in a row go on even with nothing left.

A host call may call back: `getField` runs the guest's allocator, whose steps may call `getField`
again. `Code.call` is recursive in the number of activations that may still be opened; when none
is left, the call stack is exhausted.
-/

namespace EventSandbox

/-- A computation on the state of a guest that may pause and may trap. -/
abbrev Guarded (α : Type) := ExceptT Trap (StateT Machine Run) α

/-- How a list of steps ends: with the status that later steps see, or by returning a word. -/
inductive Flow
  | next (status : Word)
  | returned (value : Word)
deriving DecidableEq, Repr

namespace Guarded

/-- A pure computation as part of a run. -/
def ofPure {α : Type} (p : Pure α) : Guarded α :=
  ExceptT.mk fun m => pure (p.run m)

/-- A computation that cannot trap. -/
def ofExec {α : Type} (e : Exec α) : Guarded α := ExceptT.lift e

/-- The point at which others may run. -/
def pause : Guarded Unit := ofExec (StateT.lift (Run.pause fun _ => pure ()))

/-- Counts work. -/
def charge (amount : Nat) : Guarded Unit :=
  ofPure (modify fun m => { m with meter := m.meter.charge amount })

/-- Stops the guest at a limit. -/
def stop {α : Type} (trap : Trap) : Guarded α := do
  ofExec (Exec.mark (.stopped trap))
  throw trap

/-- Stops the guest if a limit is reached. -/
def checkpoint : Guarded Unit := do
  match (← get).meter.due? with
  | some trap => stop trap
  | none => pure ()

/-- A loop without end: it ends at the first limit, or not at all. -/
def spin {α : Type} : Guarded α := do
  let m ← get
  match m.meter.spinTrap? with
  | some trap =>
    set { m with meter := m.meter.spent }
    stop trap
  | none => ofExec (StateT.lift Run.endless)

/-- Does a body a number of times, from one status to the next, unless it returns. Every turn
begins with a checkpoint. -/
def iterate (body : Word → Guarded Flow) : (count : Nat) → Word → Guarded Flow
  | 0, status => do
    checkpoint
    pure (.next status)
  | count + 1, status => do
    checkpoint
    charge Meter.stepCost
    match ← body status with
    | .returned value => pure (.returned value)
    | .next status => iterate body count status

end Guarded

open Guarded

mutual

/-- Runs one step. -/
def Step.exec (malloc : Allocator) (frame : Frame) : Step → Guarded Flow
  | .getField a b c d => do
    let a ← ofPure (a.eval frame)
    let b ← ofPure (b.eval frame)
    let c ← ofPure (c.eval frame)
    let d ← ofPure (d.eval frame)
    .next <$> ofExec (HostCall.answer malloc (.getField a b c d))
  | .putField a b c d => do
    let a ← ofPure (a.eval frame)
    let b ← ofPure (b.eval frame)
    let c ← ofPure (c.eval frame)
    let d ← ofPure (d.eval frame)
    .next <$> ofExec (HostCall.answer malloc (.putField a b c d))
  | .log a b c => do
    let a ← ofPure (a.eval frame)
    let b ← ofPure (b.eval frame)
    let c ← ofPure (c.eval frame)
    .next <$> ofExec (HostCall.answer malloc (.log a b c))
  | .currentTime a => do
    let a ← ofPure (a.eval frame)
    .next <$> ofExec (HostCall.answer malloc (.currentTime a))
  | .store32 a v => ofPure do
    Machine.store 4 (← a.eval frame) (← v.eval frame)
    pure (.next frame.status)
  | .store8 a v => ofPure do
    Machine.store 1 (← a.eval frame) (← v.eval frame)
    pure (.next frame.status)
  | .fill a b n => ofPure do
    Machine.fill (← a.eval frame) (← b.eval frame) (← n.eval frame)
    pure (.next frame.status)
  | .copy a b n => ofPure do
    Machine.copy (← a.eval frame) (← b.eval frame) (← n.eval frame)
    pure (.next frame.status)
  | .initMemory i a b n => ofPure do
    Machine.initMemory i (← a.eval frame) (← b.eval frame) (← n.eval frame)
    pure (.next frame.status)
  | .dropData i => ofPure do
    Machine.dropData i
    pure (.next frame.status)
  | .initTable i a b n => ofPure do
    Machine.initTable i (← a.eval frame) (← b.eval frame) (← n.eval frame)
    pure (.next frame.status)
  | .copyTable a b n => ofPure do
    Machine.copyTable (← a.eval frame) (← b.eval frame) (← n.eval frame)
    pure (.next frame.status)
  | .dropElements i => ofPure do
    Machine.dropElements i
    pure (.next frame.status)
  | .setGlobal i v => ofPure do
    Machine.setGlobal i (← v.eval frame)
    pure (.next frame.status)
  | .drop v => ofPure do
    let _ ← v.eval frame
    pure (.next frame.status)
  | .branch condition yes no => do
    if (← ofPure (condition.eval frame)) ≠ 0 then Step.execAll malloc frame yes
    else Step.execAll malloc frame no
  | .loop count body => do
    let count ← ofPure (count.eval frame)
    iterate (fun status => Step.execAll malloc { frame with status } body) count.toNat frame.status
  | .ret v => ofPure do pure (.returned (← v.eval frame))
  | .trap => throw .unreachable
  | .recurse => do
    charge Meter.recursionCost
    checkpoint
    throw .stackOverflow
  | .spin => Guarded.spin
  | .burn amount => do
    charge amount
    checkpoint
    pure (.next frame.status)

/-- Runs steps one after another until one returns, with a pause after each. -/
def Step.execAll (malloc : Allocator) (frame : Frame) : List Step → Guarded Flow
  | [] => pure (.next frame.status)
  | step :: rest => do
    charge Meter.stepCost
    match ← step.exec malloc frame with
    | .returned value => pure (.returned value)
    | .next status => do
      pause
      Step.execAll malloc { frame with status } rest

end

namespace Code

/-- Enters a function with its allocator given: a checkpoint, then its steps. Falling off the end
returns 0. -/
def enter (malloc : Allocator) (code : Code) (argument : Word) : Guarded Word := do
  checkpoint
  match code with
  | .trapping _ => throw .unreachable
  | .steps body =>
    match ← Step.execAll malloc ⟨argument, 0⟩ body with
    | .returned value => pure value
    | .next _ => pure 0

/-- The allocator of a guest, with so many activations left to open. -/
def allocator : (depth : Nat) → Allocator
  | 0, _ => pure (.error .stackOverflow)
  | depth + 1, size => do
    match (← get).exports? with
    | some exports => (enter (allocator depth) exports.malloc size).run
    | none => pure (.error .unreachable)

/-- How many activations of the allocator fit the call stack. -/
def maxActivations : Nat := 256

/-- Calls a function of the guest. -/
def call (code : Code) (argument : Word) : Exec (Except Trap Word) :=
  (enter (allocator maxActivations) code argument).run

end Code

end EventSandbox
