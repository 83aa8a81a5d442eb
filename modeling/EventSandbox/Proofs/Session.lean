import EventSandbox.Proofs.Guest.Rules
import EventSandbox.Session

/-!
# EventSandbox.Proofs.Session — a session and its events, seen from outside

A session is made by instantiating its guest, and has the guest's exports from then on
(`create_run`). A call of `guestProcess` is one run of the guest's handler, between binding the
event and taking it back (`guestProcess_cases`). So what holds of every run of a guest holds of
every call.
-/

namespace EventSandbox

/-! ## Making a session -/

namespace SessionFactory

variable {f : SessionFactory}

/-- A budget can always be set: it has fuel exactly if the engine meters fuel. -/
theorem exists_meter (f : SessionFactory) :
    ∃ meter, Meter.ofBudget f.engine f.ticker f.budget = .ok meter := by
  unfold Meter.ofBudget budget Budget.ofConfig
  cases f.engine.fuelMetering with
  | false => exact ⟨_, rfl⟩
  | true => exact ⟨_, rfl⟩

/-- What becomes of an instance, or of the fault that there is none. -/
def equip (f : SessionFactory) :
    Except InstantiationFault Machine → Except ProcessorError Session
  | .error fault => .error (instantiationError fault)
  | .ok m =>
    match f.guest.resolveExports with
    | .error (name, fault) => .error (.exportResolution name fault.message)
    | .ok exports => .ok ⟨{ m with exports? := some exports }, f.engine, f.budget, f.ticker⟩

theorem equip_eq_ok {made : Except InstantiationFault Machine} {s : Session}
    (h : f.equip made = .ok s) :
    ∃ m exports, made = .ok m ∧ f.guest.resolveExports = .ok exports ∧
      s = ⟨{ m with exports? := some exports }, f.engine, f.budget, f.ticker⟩ := by
  unfold equip at h
  split at h
  · cases h
  · split at h
    · cases h
    · exact ⟨_, _, rfl, ‹_›, (Except.ok.inj h).symm⟩

theorem isConstruction_of_equip {made : Except InstantiationFault Machine} {error : ProcessorError}
    (h : f.equip made = .error error) : error.isConstruction := by
  unfold equip at h
  split at h
  · cases h
    rfl
  · split at h
    · cases h
      rfl
    · cases h

theorem create_run {meter : Meter}
    (hmeter : Meter.ofBudget f.engine f.ticker f.budget = .ok meter) :
    f.create =
      (f.guest.instantiate f.linker f.execution.maxMemoryBytes meter).bind fun made =>
        .done (f.equip made) := by
  unfold create
  rw [hmeter]
  show Run.bind _ _ = _
  congr 1
  funext made
  unfold equip
  rcases made with fault | m
  · rfl
  · cases f.guest.resolveExports <;> rfl

/-- A guest that has no start function is ready once it is prepared. -/
theorem create_of_prepared {meter : Meter} {m : Machine}
    (hmeter : Meter.ofBudget f.engine f.ticker f.budget = .ok meter)
    (hprepare : f.guest.prepare f.linker f.execution.maxMemoryBytes meter = .ok m)
    (hstart : f.guest.start? = none) : f.create = .done (f.equip (.ok m)) := by
  rw [create_run hmeter]
  unfold Guest.instantiate
  rw [hprepare]
  dsimp only
  unfold Guest.runStart
  rw [hstart]
  rfl

end SessionFactory

/-! ## Processing an event -/

namespace Session

/-- The state in which the handler of a session begins. -/
def begin (s : Session) (event : Fields) (meter : Meter) : Machine :=
  { s.machine with event? := some event, meter }

/-- How a call ends when the handler has ended. -/
def finish (s : Session) : Except Trap Word × Machine → Ended
  | (.ok code, m) =>
    ⟨.ok code.toInt32, m.event?.getD [], { s with machine := { m with event? := none } }⟩
  | (.error trap, m) =>
    ⟨.error (ProcessorError.ofTrap s.budget.timeoutMs trap), m.event?.getD [],
      { s with machine := { m with event? := none } }⟩

/-- Once the meter is set and the handler is known, a call is a run of the handler. -/
theorem guestProcess_run {s : Session} {meter : Meter} {exports : Exports}
    (hmeter : Meter.ofBudget s.engine s.ticker s.budget = .ok meter)
    (hexports : s.machine.exports? = some exports) (event : Fields) :
    s.guestProcess event =
      ((Code.call exports.process 0).run (s.begin event meter)).bind fun r =>
        .done (s.finish r) := by
  unfold guestProcess callProcess
  simp only [hmeter, hexports]
  show Run.bind (Run.bind _ _) _ = _
  rw [Run.bind_assoc]
  congr 1
  · rw [← hexports]
    rfl
  · funext r
    rcases r with ⟨trap | code, m⟩ <;> rfl

/-- A call is refused before anything happens, or it is a run of the handler. -/
theorem guestProcess_cases (s : Session) (event : Fields) :
    (∃ error, error.isConstruction ∧ s.guestProcess event =
      .done ⟨.error error, event, { s with machine := { s.machine with event? := none } }⟩) ∨
    ∃ meter exports, Meter.ofBudget s.engine s.ticker s.budget = .ok meter ∧
      s.machine.exports? = some exports ∧
      s.guestProcess event =
        ((Code.call exports.process 0).run (s.begin event meter)).bind fun r =>
          .done (s.finish r) := by
  -- The meter is set first, and then the handler is looked up.
  cases hmeter : Meter.ofBudget s.engine s.ticker s.budget with
  | error error =>
    refine .inl ⟨error, ?_, ?_⟩
    · simp only [Meter.ofBudget] at hmeter
      split at hmeter <;> cases hmeter
      rfl
    · unfold guestProcess callProcess
      rw [hmeter]
      rfl
  | ok meter =>
    cases hexports : s.machine.exports? with
    | none =>
      refine .inl ⟨.exportResolution Guest.processName Guest.ExportFault.missingFunction.message,
        rfl, ?_⟩
      unfold guestProcess callProcess
      simp only [hmeter, hexports]
      rfl
    | some exports => exact .inr ⟨meter, exports, rfl, rfl, guestProcess_run hmeter hexports event⟩

/-- What holds of every run of a guest holds of the handler's run. -/
theorem traced_guestProcess {S : RunProperty} (hS : Guarded.Rules S) {s : Session} {event : Fields}
    {trace : List Label} {end? : Option Ended}
    (h : (s.guestProcess event).Traced trace end?) :
    (∃ error, error.isConstruction ∧ trace = [] ∧ end? =
      some ⟨.error error, event, { s with machine := { s.machine with event? := none } }⟩) ∨
    ∃ meter exports, ∃ last? : Option (Except Trap Word × Machine),
      s.machine.exports? = some exports ∧ end? = last?.map s.finish ∧
      S (s.begin event meter) trace (last?.map Guarded.fate) := by
  rcases guestProcess_cases s event with ⟨error, herror, hrun⟩ | ⟨meter, exports, -, hx, hrun⟩
  · rw [hrun] at h
    obtain ⟨rfl, rfl⟩ := Run.traced_done.1 h
    exact .inl ⟨error, herror, rfl, rfl⟩
  · rw [hrun] at h
    right
    -- The handler comes to an end or it does not, and the call with it.
    rcases Run.traced_bind.1 h with ⟨r, first, rest, hfirst, hrest, rfl⟩ | ⟨hforever, rfl⟩
    · obtain ⟨rfl, rfl⟩ := Run.traced_done.1 hrest
      rw [List.append_nil]
      exact ⟨meter, exports, some r, hx, rfl, hS.enter _ _ _ _ _ _ hfirst⟩
    · exact ⟨meter, exports, none, hx, rfl, hS.enter _ _ _ _ _ _ hforever⟩

/-- A session with one page of zeros and without a deadline. -/
def small (exports : Exports) (fuel? : Option Nat) : Session where
  machine :=
    { memory := Memory.zeros 1 1 (Nat.le_refl 1)
      globals := Guest.empty.globals
      holdings := .none
      event? := none
      exports? := some exports
      meter := ⟨none, none⟩ }
  engine := ⟨fuel?.isSome, false, 1⟩
  budget := ⟨fuel?, none, 0⟩
  ticker := .still

end Session

end EventSandbox
