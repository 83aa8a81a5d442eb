import EventSandbox.Processor.Basic

/-!
# EventSandbox.Processor.Interleaving — calls that overlap

Calls that are open at the same time share the pool, the clock and the log, and nothing else. A
call goes through fixed phases; `Call.step` makes the one atomic step that comes next, and any
order of steps of any number of calls is a possible run.

`Call.toClock` makes the steps of one call up to the next time its guest asks for the time, and
`Call.toEnd` all that are left.
-/

namespace EventSandbox

/-- What open calls share. -/
structure Shared where
  pool : Pool Session
  clock : Clock
  /-- The log, last record first. -/
  records : List LogRecord

/-- An open call. -/
inductive Call
  /-- About to ask the pool for a session. -/
  | waiting (event : Fields)
  /-- Found the pool empty and is making a session. -/
  | building (event : Fields) (run : Run (Except ProcessorError Session))
  /-- Has made a session that is not counted yet. -/
  | built (event : Fields) (session : Session)
  /-- Holds a session that is running. -/
  | running (run : Run Session.Ended)
  /-- Holds a session that has ended. -/
  | returning (ended : Session.Ended)
  /-- Is over. -/
  | finished (outcome : Outcome)
  /-- Never comes back. -/
  | lost

namespace Call

/-- One step of a computation: a pause, a moment, a record or a reading of the clock. -/
def stepRun {α : Type} (s : Shared) : Run α → Run α × Shared
  | .pause rest => (rest (), s)
  | .mark _ rest => (rest (), s)
  | .emit record rest => (rest (), { s with records := record :: s.records })
  | .readClock resume => (resume s.clock.now, { s with clock := s.clock.advance })
  | r => (r, s)

/-- The atomic step that comes next in a call. -/
def step (f : SessionFactory) (s : Shared) : Call → Call × Shared
  | .waiting event =>
    match s.pool.pop with
    | (some session, pool) => (.running (session.guestProcess event), { s with pool })
    | (none, pool) => (.building event f.create, { s with pool })
  | .building event run =>
    match run with
    | .done (.ok session) => (.built event session, s)
    | .done (.error error) => (.finished ⟨.error error, event⟩, s)
    | .endless => (.lost, s)
    | run =>
      let (run, s) := stepRun s run
      (.building event run, s)
  | .built event session =>
    (.running (session.guestProcess event), { s with pool := s.pool.countBuilt })
  | .running run =>
    match run with
    | .done ended => (.returning ended, s)
    | .endless => (.lost, s)
    | run =>
      let (run, s) := stepRun s run
      (.running run, s)
  | .returning ended =>
    (.finished ⟨Processor.resultOf ended.result, ended.event⟩,
      { s with pool := (s.pool.put ended.session).2 })
  | .finished outcome => (.finished outcome, s)
  | .lost => (.lost, s)

/-- Follows a computation that is not disturbed by other calls. -/
def followAlone {α : Type} (run : Run α) (s : Shared) : Option (α × Shared) :=
  (run.follow Clock.host ⟨s.clock, s.records⟩).map fun (a, journal) =>
    (a, { s with clock := journal.clock, records := journal.records })

/-- A running call up to where its guest asks for the time, or to its end. -/
def settle (s : Shared) (run : Run Session.Ended) : Call × Shared :=
  let (run, records) := run.toClock s.records
  (.running run, { s with records })

/-- The steps of a new call up to where its guest asks for the time, or to its end. -/
def toClock (f : SessionFactory) (s : Shared) (event : Fields) : Call × Shared :=
  match s.pool.pop with
  | (some session, pool) => settle { s with pool } (session.guestProcess event)
  | (none, pool) =>
    match followAlone f.create { s with pool } with
    | none => (.lost, s)
    | some (.error error, s) => (.finished ⟨.error error, event⟩, s)
    | some (.ok session, s) =>
      settle { s with pool := s.pool.countBuilt } (session.guestProcess event)

/-- The steps that are left of a running call; `none` if it never comes back. -/
def toEnd (s : Shared) : Call → Option (Outcome × Shared)
  | .running run => do
    let (ended, s) ← followAlone run s
    pure (⟨Processor.resultOf ended.result, ended.event⟩,
      { s with pool := (s.pool.put ended.session).2 })
  | .finished outcome => some (outcome, s)
  | _ => none

end Call

/-- Calls that all run up to where their guests ask for the time before any of them goes on. -/
def Shared.meetAtClock (f : SessionFactory) (s : Shared) (events : List Fields) :
    Option (List Outcome × Shared) :=
  let (calls, s) := events.foldl
    (fun (calls, s) event =>
      let (call, s) := Call.toClock f s event
      (calls ++ [call], s))
    ([], s)
  calls.foldlM
    (fun (outcomes, s) call => do
      let (outcome, s) ← call.toEnd s
      pure (outcomes ++ [outcome], s))
    ([], s)

end EventSandbox
