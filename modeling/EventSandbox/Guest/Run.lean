import EventSandbox.Guest.Machine

/-!
# EventSandbox.Guest.Run — a computation that pauses

A running guest is not one indivisible step. It can be left after every step of its own, it writes
to the log as it goes, and it asks for the time, which somebody else answers. `Run` keeps these
points apart, so that runs can be interleaved in any order, and `Run.follow` is the schedule that
lets one run go on undisturbed.

A run also shows its *moments*: where a host call begins or ends, and where a limit stops the
guest, with the state of the guest there. Nothing that happens depends on them.

A guest that nothing limits may run for ever: that run is `endless`.
-/

namespace EventSandbox

/-- What can be seen of a running guest from outside. -/
inductive Moment
  /-- The guest calls the host. -/
  | began (request : HostRequest) (state : Machine)
  /-- The host call that began last and is still open ends; the guest goes on with a status. -/
  | ended (status : Status) (state : Machine)
  /-- A limit stops the guest. -/
  | stopped (trap : Trap)

/-- A computation that ends with an `α`, and what it does on the way. -/
inductive Run (α : Type) : Type
  /-- The computation has ended. -/
  | done (result : α)
  /-- The computation never ends. -/
  | endless
  /-- A step has been made. -/
  | pause (rest : Unit → Run α)
  /-- A record goes to the log. -/
  | emit (record : LogRecord) (rest : Unit → Run α)
  /-- Something happens that can be seen. -/
  | mark (moment : Moment) (rest : Unit → Run α)
  /-- The computation goes on once it is told the time. -/
  | readClock (resume : Int64 → Run α)

namespace Run

variable {α β σ : Type}

/-- One computation after another. -/
def bind : Run α → (α → Run β) → Run β
  | done a, f => f a
  | endless, _ => endless
  | pause rest, f => pause fun u => (rest u).bind f
  | emit record rest, f => emit record fun u => (rest u).bind f
  | mark moment rest, f => mark moment fun u => (rest u).bind f
  | readClock resume, f => readClock fun t => (resume t).bind f

instance : Monad Run where
  pure := done
  bind := bind

/-! ## Following a run -/

/-- What a run meets: someone who tells the time and someone who keeps the log, with a state of
their own. Telling the time may itself take for ever. -/
structure Host (σ : Type) where
  now : σ → Option (Int64 × σ)
  log : LogRecord → σ → σ

/-- Follows a run to its end; `none` if it has none. -/
def follow (host : Host σ) : Run α → σ → Option (α × σ)
  | done a, s => some (a, s)
  | endless, _ => none
  | pause rest, s => (rest ()).follow host s
  | emit record rest, s => (rest ()).follow host (host.log record s)
  | mark _ rest, s => (rest ()).follow host s
  | readClock resume, s =>
    match host.now s with
    | some (time, s) => (resume time).follow host s
    | none => none

/-- Follows a run up to the next time it asks for the time, collecting its records, last first. -/
def toClock (records : List LogRecord) : Run α → Run α × List LogRecord
  | pause rest => (rest ()).toClock records
  | emit record rest => (rest ()).toClock (record :: records)
  | mark _ rest => (rest ()).toClock records
  | r => (r, records)

end Run

/-! ## Clocks -/

/-- A clock that advances by a fixed amount after each reading, wrapping around. -/
structure Clock where
  now : Int64
  tick : Int64
deriving DecidableEq, Repr

/-- The clock after a reading. -/
def Clock.advance (c : Clock) : Clock := { c with now := c.now + c.tick }

/-- A clock together with the records of a run, last first. -/
structure Clock.Journal where
  clock : Clock
  records : List LogRecord

/-- A host that has nothing but a clock and a log. -/
def Clock.host : Run.Host Clock.Journal where
  now := fun j => some (j.clock.now, { j with clock := j.clock.advance })
  log := fun record j => { j with records := record :: j.records }

end EventSandbox
