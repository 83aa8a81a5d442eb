import EventSandbox.Processor.Basic
import EventSandbox.Json.Parser

/-!
# EventSandbox.Processor.Nested — a clock that uses the processor

A host may process further events while a guest is waiting to be told the time. Here the clock has
a queue of event texts: each reading first takes the next text and processes it with the same
processor, inside the running call, and only then tells the time. The guests of those events may
read the clock in turn.
-/

namespace EventSandbox

/-- The state of a pool that answers show. -/
structure PoolStats where
  capacity : Nat
  idle : Nat
  created : Nat
deriving DecidableEq, Repr

/-- The state of a pool that answers show. -/
def Pool.stats {ι : Type} (p : Pool ι) : PoolStats := ⟨p.capacity, p.idleCount, p.created⟩

namespace Processor

/-- What became of a text of the queue. -/
structure NestedAnswer where
  /-- The outcome and the pool after it, or why the text is no event. -/
  outcome : Except Json.Fault (Outcome × PoolStats)
  /-- The pool when the text was taken. -/
  before : PoolStats

/-- What the clock of a processor knows. -/
structure NestedState where
  journal : Clock.Journal
  /-- The texts that are still to be processed. -/
  queue : List Bytes
  /-- What became of the others, last first. -/
  answers : List NestedAnswer

/-- Tells the time. -/
def tellTime (s : Pool Session × NestedState) : Option (Int64 × Pool Session × NestedState) :=
  let (pool, w) := s
  some (w.journal.clock.now,
    pool, { w with journal := { w.journal with clock := w.journal.clock.advance } })

/-- The host whose clock processes up to `depth` texts inside each other before it tells the
time. -/
def nestedHost (p : Processor) : (depth : Nat) → Run.Host (Pool Session × NestedState)
  | 0 => { now := tellTime, log := writeRecord }
  | depth + 1 =>
    { now := fun (pool, w) =>
        match w.queue with
        | [] => tellTime (pool, w)
        | text :: queue => do
          let before := pool.stats
          let w := { w with queue }
          match Fields.ofJson text with
          | .error fault =>
            tellTime (pool, { w with answers := ⟨.error fault, before⟩ :: w.answers })
          | .ok event =>
            let (outcome, pool, w) ← p.process (p.nestedHost depth) event (pool, w)
            tellTime (pool, { w with answers := ⟨.ok (outcome, pool.stats), before⟩ :: w.answers })
      log := writeRecord }
where
  /-- Keeps the log. -/
  writeRecord (record : LogRecord) (s : Pool Session × NestedState) : Pool Session × NestedState :=
    (s.1, { s.2 with journal := { s.2.journal with records := record :: s.2.journal.records } })

/-- Processes an event with a clock that works through the queue. -/
def processNested (p : Processor) (event : Fields) (s : Pool Session × NestedState) :
    Option (Outcome × Pool Session × NestedState) :=
  p.process (p.nestedHost s.2.queue.length) event s

end Processor

end EventSandbox
