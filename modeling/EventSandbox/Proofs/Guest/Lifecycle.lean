import EventSandbox.Proofs.Guest.Orderly
import EventSandbox.Proofs.Guest.Startup

/-!
# EventSandbox.Proofs.Guest.Lifecycle — what a session goes through

A session is in one of three phases. While it is brought to life it has neither an event nor
exports (`Machine.Starting`); in a call it has both (`Machine.InCall`); between calls it has its
exports and no event (`Machine.Idle`). The guest's steps, its host calls and calls back into it keep
each phase, whatever they are, so that a host call never meets what its phase excludes.

`session_lifecycle` says what that means to the guest: which errors a host call can have in a call,
and that it has just one while the session is brought to life.
-/

namespace EventSandbox

open HostCall

/-! ## Phases -/

namespace Machine

theorem kept_starting : Kept Starting where
  own h hm := ⟨h.event.trans hm.event, h.exports.trans hm.exports⟩
  charge _ hm := ⟨hm.event, hm.exports⟩
  put hm hevent _ := by
    rw [hm.event] at hevent
    cases hevent

/-- No event is bound, and what the host calls in the guest is known. -/
structure Idle (m : Machine) : Prop where
  event : m.event? = none
  exports : m.exports?.isSome

end Machine

/-- The sessions of a factory: a new one, or one that has processed an event, whichever way that
ended. -/
inductive Session.Reachable (f : SessionFactory) : Session → Prop
  | fresh {s : Session} (h : f.create.Yields (.ok s)) : Reachable f s
  | next {s : Session} {event : Fields} {ended : Ended} (hs : Reachable f s)
      (h : (s.guestProcess event).Yields ended) : Reachable f ended.session

/-! ## Making a session -/

section Making

variable {S : RunProperty} {g : Guest} {f : SessionFactory} {trace : List Label}

/-- What holds of every run of a guest holds of its start function. A guest without one is in the
state of a guest whose start function does nothing. -/
theorem Guest.traced_runStart (hS : Guarded.Rules S) {m : Machine}
    {end? : Option (Except InstantiationFault Machine)} (h : (g.runStart m).Traced trace end?) :
    ∃ last?, S m trace last? ∧ last?.isSome = end?.isSome ∧
      ∀ m', end? = some (.ok m') → last? = some (none, m') := by
  unfold runStart at h
  cases hstart : g.start? with
  | none =>
    rw [hstart] at h
    obtain ⟨rfl, rfl⟩ := Run.traced_done.1 h
    refine ⟨some (none, m), hS.same m, rfl, ?_⟩
    rintro _ ⟨⟩
    rfl
  | some steps =>
    rw [hstart] at h
    -- The start function has trapped or returned, or it never does.
    rcases Run.traced_bind.1 h with
      ⟨⟨trap | word, m'⟩, first, rest, hfirst, hrest, rfl⟩ | ⟨hforever, rfl⟩
    · obtain ⟨rfl, rfl⟩ := Run.traced_done.1 hrest
      rw [List.append_nil]
      exact ⟨_, hS.enter _ _ _ _ _ _ hfirst, rfl, nofun⟩
    · obtain ⟨rfl, rfl⟩ := Run.traced_done.1 hrest
      rw [List.append_nil]
      refine ⟨_, hS.enter _ _ _ _ _ _ hfirst, rfl, ?_⟩
      rintro _ ⟨⟩
      rfl
    · exact ⟨_, hS.enter _ _ _ _ _ _ hforever, rfl, nofun⟩

theorem Guest.traced_instantiate (hS : Guarded.Rules S) {linker : Linker} {maxBytes : Nat}
    {meter : Meter} {end? : Option (Except InstantiationFault Machine)}
    (h : (g.instantiate linker maxBytes meter).Traced trace end?) :
    (∃ fault, trace = [] ∧ end? = some (.error fault)) ∨
    ∃ m last?, g.prepare linker maxBytes meter = .ok m ∧ S m trace last? ∧
      last?.isSome = end?.isSome ∧ ∀ m', end? = some (.ok m') → last? = some (none, m') := by
  unfold instantiate at h
  cases hprepare : g.prepare linker maxBytes meter with
  | error fault =>
    rw [hprepare] at h
    obtain ⟨rfl, rfl⟩ := Run.traced_done.1 h
    exact .inl ⟨fault, rfl, rfl⟩
  | ok m =>
    rw [hprepare] at h
    obtain ⟨last?, hrun, hlast, hend⟩ := traced_runStart hS h
    exact .inr ⟨m, last?, rfl, hrun, hlast, hend⟩

/-- What holds of every run of a guest holds of the run in which a session is made. The session
begins where the run has ended. -/
theorem SessionFactory.traced_create (hS : Guarded.Rules S)
    {end? : Option (Except ProcessorError Session)} (h : f.create.Traced trace end?) :
    (∃ error, trace = [] ∧ end? = some (.error error)) ∨
    ∃ meter m last?, f.guest.prepare f.linker f.execution.maxMemoryBytes meter = .ok m ∧
      S m trace last? ∧ last?.isSome = end?.isSome ∧
      ∀ s, end? = some (.ok s) → ∃ m' exports, last? = some (none, m') ∧
        f.guest.resolveExports = .ok exports ∧
        s = ⟨{ m' with exports? := some exports }, f.engine, f.budget, f.ticker⟩ := by
  obtain ⟨meter, hmeter⟩ := f.exists_meter
  rw [create_run hmeter] at h
  rcases Run.traced_bind.1 h with ⟨made, first, rest, hfirst, hrest, rfl⟩ | ⟨hforever, rfl⟩
  · obtain ⟨rfl, rfl⟩ := Run.traced_done.1 hrest
    rw [List.append_nil]
    -- A guest that cannot be prepared is refused before it runs.
    rcases Guest.traced_instantiate hS hfirst with
      ⟨fault, rfl, hmade⟩ | ⟨m, last?, hprepare, hrun, hlast, hend⟩
    · obtain rfl := Option.some.inj hmade
      exact .inl ⟨_, rfl, rfl⟩
    · refine .inr ⟨meter, m, last?, hprepare, hrun, hlast, fun s hs => ?_⟩
      obtain ⟨m', exports, rfl, hexports, rfl⟩ := equip_eq_ok (Option.some.inj hs)
      exact ⟨m', exports, hend m' rfl, hexports, rfl⟩
  · rcases Guest.traced_instantiate hS hforever with
      ⟨fault, -, hmade⟩ | ⟨m, last?, hprepare, hrun, hlast, -⟩
    · cases hmade
    · refine .inr ⟨meter, m, last?, hprepare, hrun, hlast, ?_⟩
      rintro _ ⟨⟩

end Making

/-! ## Between calls -/

/-- What all sessions of a factory have in common between calls. -/
structure Session.BelongsTo (f : SessionFactory) (s : Session) : Prop where
  engine : s.engine = f.engine
  budget : s.budget = f.budget
  ticker : s.ticker = f.ticker
  event : s.machine.event? = none
  exports : ∃ exports, f.guest.resolveExports = .ok exports ∧ s.machine.exports? = some exports

theorem Machine.kept_exports (exports? : Option Exports) :
    Kept fun m => m.exports? = exports? where
  own h hm := h.exports.trans hm
  charge _ hm := hm
  put hm _ _ := hm

/-- However its calls have ended, a session belongs to its factory. -/
theorem Session.Reachable.belongsTo {f : SessionFactory} {s : Session} (h : s.Reachable f) :
    s.BelongsTo f := by
  induction h with
  | @fresh s hyields =>
    obtain ⟨trace, htraced⟩ := hyields.exists_traced
    -- No event was bound while the guest was brought to life.
    rcases SessionFactory.traced_create Machine.kept_starting.keeps_rules htraced with
      ⟨error, -, hend⟩ | ⟨meter, m, last?, hprepare, hkeeps, -, hend⟩
    · cases hend
    · obtain ⟨m', exports, hlast, hexports, rfl⟩ := hend s rfl
      have hm' := (hkeeps (Guest.prepare_starting hprepare)).2 none m' hlast
      exact ⟨rfl, rfl, rfl, hm'.event, exports, hexports, rfl⟩
  | @next s event ended _ hyields ih =>
    obtain ⟨exports, hresolve, hexports⟩ := ih.exports
    obtain ⟨trace, htraced⟩ := hyields.exists_traced
    -- No step takes the exports away, so they are known however the call has ended.
    have hrules := (Machine.kept_exports (some exports)).keeps_rules
    rcases Session.traced_guestProcess hrules htraced with
      ⟨error, -, -, hend⟩ | ⟨meter, _, last?, -, hend, hkeeps⟩
    · cases hend
      exact ⟨ih.engine, ih.budget, ih.ticker, rfl, exports, hresolve, hexports⟩
    · obtain ⟨⟨trap | code, m'⟩, rfl, rfl⟩ := Option.map_eq_some_iff.1 hend.symm
      all_goals
        have hm' := (hkeeps hexports).2 _ m' rfl
        exact ⟨ih.engine, ih.budget, ih.ticker, rfl, exports, hresolve, hm'⟩

/-- Between calls a session has its exports and no event, however the last call has ended. -/
theorem Session.Reachable.idle {f : SessionFactory} {s : Session} (h : s.Reachable f) :
    s.machine.Idle := by
  obtain ⟨exports, -, hexports⟩ := h.belongsTo.exports
  refine ⟨h.belongsTo.event, ?_⟩
  rw [hexports]
  rfl

/-- No call of a session is refused: each is a run of the guest's handler under a fresh meter,
which is the same for all calls. -/
theorem Session.Reachable.guestProcess_run {f : SessionFactory} {s : Session} (h : s.Reachable f)
    {meter : Meter} (hmeter : Meter.ofBudget f.engine f.ticker f.budget = .ok meter)
    {exports : Exports} (hexports : f.guest.resolveExports = .ok exports) (event : Fields) :
    s.guestProcess event =
      ((Code.call exports.process 0).run (s.begin event meter)).bind fun r =>
        .done (s.finish r) := by
  have hbelongs := h.belongsTo
  obtain ⟨found, hfound, hmachine⟩ := hbelongs.exports
  obtain rfl := Except.ok.inj (hexports.symm.trans hfound)
  rw [← hbelongs.engine, ← hbelongs.ticker, ← hbelongs.budget] at hmeter
  exact Session.guestProcess_run hmeter hmachine event

/-! ## Host calls of a start function -/

/-- A host call while the exports are unknown: it is refused, or its message is dropped, and nothing
is changed. -/
structure CompletedCall.Refused (c : CompletedCall) : Prop where
  unresolved : c.before.exports? = none
  unchanged : c.after = c.before
  answer :
    match c.request with
    | .log level _ _ =>
      c.inner = [.record (.dropped level.toInt32 .exportsUnavailable)] ∧ c.result = .ok .ok
    | _ => c.inner = [] ∧ c.result = .error .exportsUnavailable ∧ c.status = .internalFailure

/-- While a guest is brought to life every host call is refused. -/
theorem refused_of_starting : Ensures Machine.Starting CompletedCall.Refused := by
  intro malloc _ m request inner result m' hm h
  have hx := hm.exports
  have hnot : ¬ m.exports?.isSome := by simp [hx]
  -- A message is dropped; every other call begins with the exports, which are missing.
  cases h with
  | unresolved hlog =>
    refine ⟨hx, rfl, ?_⟩
    cases request with
    | log => exact absurd rfl hlog
    | getField | putField | currentTime => exact ⟨rfl, rfl, rfl⟩
  | log =>
    refine ⟨hx, rfl, ?_, rfl⟩
    simp [logRecord, hx]
  | getTooLarge hw | getTrapped hw | getUnusable hw | getNoPointer hw | getNoLength hw
  | getDone hw => exact absurd hw.resolved hnot
  | getUnreadable hsome | getUnbound hsome | getMissing hsome | getMisplaced hsome
  | putUnreadable hsome | putUndecodable hsome | putUnbound hsome | putDone hsome
  | timeMisplaced hsome | timeDone hsome => exact absurd hsome hnot

/-- What a host call does then does not depend on the allocator, which is therefore not called. -/
theorem HostCall.answer_unresolved {m : Machine} (hm : m.exports? = none)
    (malloc malloc' : Allocator) (request : HostRequest) :
    (answer malloc request).run m = (answer malloc' request).run m := by
  simp only [answer, Exec.run_bind, Exec.run_get, Exec.run_mark, Run.bind]
  rw [perform_unresolved malloc request hm, perform_unresolved malloc' request hm]

/-! ## Host calls while an event is processed -/

/-- A host call while an event is processed: only what the guest does wrong, and an allocator that
gives no room, make it fail. -/
structure CompletedCall.Served (c : CompletedCall) : Prop where
  before : c.before.InCall
  after : c.after.InCall
  possible : ∀ error, c.result = .error error →
    error ≠ .exportsUnavailable ∧ error ≠ .noEventBound ∧ error ≠ .serialization
  answer :
    match c.request with
    | .getField .. => c.status = .internalFailure →
      ∃ payload fault, c.result = .error (noRoom payload fault)
    | .putField .. | .currentTime _ => c.status = .ok ∨ c.status = .invalidArgument
    | .log .. => c.status = .ok

theorem CompletedCall.Served.of_invalidArgument {c : CompletedCall} {error : HostCallError}
    (hbefore : c.before.InCall) (hafter : c.after.InCall) (hrequest : c.request.function ≠ .log)
    (hresult : c.result = .error error) (hstatus : error.status = .invalidArgument) :
    c.Served := by
  have hends : c.status = .invalidArgument := by
    unfold status
    rw [hresult]
    exact hstatus
  refine ⟨hbefore, hafter, ?_, ?_⟩
  · intro error' hresult'
    obtain rfl := Except.error.inj (hresult.symm.trans hresult')
    refine ⟨?_, ?_, ?_⟩ <;>
    · rintro rfl
      cases hstatus
  · -- Only `log` has no such status.
    cases hfunction : c.request with
    | getField =>
      intro hfailure
      rw [hends] at hfailure
      cases hfailure
    | putField | currentTime => exact .inr hends
    | log =>
      rw [hfunction] at hrequest
      exact absurd rfl hrequest

/-- While an event is processed every host call is served. -/
theorem served_of_inCall : Ensures Machine.InCall CompletedCall.Served := by
  intro malloc hmalloc m request inner result m' hm h
  have hm' : m'.InCall := (Machine.kept_inCall.of_performed hmalloc hm h).2 result m' rfl
  have hbound : ¬ m.event? = none := by
    intro hnone
    have hevent := hm.event
    rw [hnone] at hevent
    cases hevent
  -- The faults of the guest are told apart from the other errors by their status.
  have hinvalid {error} (hrequest : request.function ≠ .log) (hresult : result = .error error)
      (hstatus : error.status = .invalidArgument) :
      CompletedCall.Served ⟨request, m, inner, result, m'⟩ :=
    .of_invalidArgument hm hm' hrequest hresult hstatus
  cases h with
  | unresolved _ hx =>
    have hexports := hm.exports
    rw [hx] at hexports
    cases hexports
  | getUnbound _ _ hevent => exact absurd hevent hbound
  | putUnbound _ _ _ _ hevent => exact absurd hevent hbound
  | getUnreadable _ hkey => exact hinvalid nofun rfl (Memory.status_of_readString hkey)
  | getMisplaced _ _ _ _ hout =>
    rcases hout with hptr | ⟨-, hlen⟩
    · exact hinvalid nofun rfl (Memory.status_of_check hptr)
    · exact hinvalid nofun rfl (Memory.status_of_check hlen)
  | getNoPointer _ _ _ _ hptr => exact hinvalid nofun rfl (Memory.status_of_write hptr)
  | getNoLength _ _ _ _ _ hlen => exact hinvalid nofun rfl (Memory.status_of_write hlen)
  | putUnreadable _ hkey =>
    rcases hkey with hkey | ⟨key, -, hvalue⟩
    · exact hinvalid nofun rfl (Memory.status_of_readString hkey)
    · exact hinvalid nofun rfl (Memory.status_of_read hvalue)
  | putUndecodable => exact hinvalid nofun rfl rfl
  | timeMisplaced _ hwrite => exact hinvalid nofun rfl (Memory.status_of_write hwrite)
  | getTooLarge | getTrapped | getUnusable =>
    refine ⟨hm, hm', ?_, fun _ => ⟨_, _, rfl⟩⟩
    rintro _ ⟨⟩
    exact ⟨nofun, nofun, nofun⟩
  | getMissing | getDone => exact ⟨hm, hm', nofun, nofun⟩
  | putDone | timeDone => exact ⟨hm, hm', nofun, .inl rfl⟩
  | log => exact ⟨hm, hm', nofun, rfl⟩

/-! ## The life of a session -/

/-- While a session is brought to life all host calls of its guest are refused or dropped, and none
enters the guest's allocator. From then on, whatever events it is given and however their
processing ends, the session has its exports and no event whenever no call is under way, and in
every call all host calls of its guest are served, those of its allocator included. -/
theorem session_lifecycle (f : SessionFactory) :
    (∀ trace end?, f.create.Traced trace end? →
      Orderly CompletedCall.Refused end?.isSome trace) ∧
    (∀ m : Machine, m.exports? = none → ∀ malloc malloc' request,
      (answer malloc request).run m = (answer malloc' request).run m) ∧
    ∀ s : Session, s.Reachable f → s.machine.Idle ∧
      ∀ event trace end?, (s.guestProcess event).Traced trace end? →
        Orderly CompletedCall.Served end?.isSome trace := by
  refine ⟨?_, ?_, ?_⟩
  · -- While a session is made.
    intro trace end? h
    have hrules := Machine.kept_starting.orderly_rules refused_of_starting
    rcases SessionFactory.traced_create hrules h with
      ⟨error, rfl, rfl⟩ | ⟨meter, m, last?, hprepare, horder, hlast, -⟩
    · exact .nil
    · rw [← hlast]
      exact horder.2 (Guest.prepare_starting hprepare)
  · -- Where there are no exports.
    intro m hm malloc malloc' request
    exact answer_unresolved hm malloc malloc' request
  · -- In every call, however those before it have ended.
    intro s hs
    have hidle := hs.idle
    refine ⟨hidle, ?_⟩
    intro event trace end? h
    have hrules := Machine.kept_inCall.orderly_rules served_of_inCall
    rcases Session.traced_guestProcess hrules h with
      ⟨error, -, rfl, rfl⟩ | ⟨meter, exports, last?, -, rfl, horder⟩
    · exact .nil
    · have hbegin : (s.begin event meter).InCall := ⟨rfl, hidle.exports⟩
      have htrace := horder.2 hbegin
      rw [Option.isSome_map] at htrace ⊢
      exact htrace

/-- A guest that calls the host in its start function, in its allocator and in its handler. -/
def SessionFactory.eager : SessionFactory :=
  { (Processor.small [] 0).factory with
    guest :=
      { (CompiledModule.small []).guest with
        functions :=
          [⟨Guest.mallocName, FuncType.malloc, .steps [.currentTime (.const 32), .ret (.const 16)]⟩,
            ⟨Guest.processName, FuncType.process,
              .steps [.getField (.const 0) (.const 0) (.const 8) (.const 12)]⟩]
        start? :=
          some [.getField (.const 0) (.const 0) (.const 8) (.const 12),
            .log (.const 0) (.const 0) (.const 0)] } }

/-- How much the first call of a new session shows, if it comes to an end. -/
def firstCall? (made : Except ProcessorError Session) : Option Nat :=
  match made with
  | .error _ => none
  | .ok s =>
    let call := (s.guestProcess [("", .bool true)]).watch 0
    call.2.map fun _ => call.1.length

theorem session_lifecycle_eager :
    ∃ made s trace ended, SessionFactory.eager.create.Traced made (some (.ok s)) ∧
      made.length = 6 ∧ Orderly CompletedCall.Refused true made ∧
      (s.guestProcess [("", .bool true)]).Traced trace (some ended) ∧
      trace.length = 5 ∧ Orderly CompletedCall.Served true trace ∧
      ended.session.Reachable .eager ∧ ended.session.machine.Idle ∧
      (answer (Code.allocator 1) (.currentTime 0)).run { s.machine with exports? := none } =
        (answer (Code.allocator 2) (.currentTime 0)).run { s.machine with exports? := none } := by
  have hlength : (SessionFactory.eager.create.watch 0).1.length = 6 := by decide +kernel
  have hshown : (SessionFactory.eager.create.watch 0).2.bind firstCall? = some 5 := by
    decide +kernel
  obtain ⟨_ | s, hcreate, hcall⟩ := Option.bind_eq_some_iff.1 hshown
  · cases hcall
  obtain ⟨ended, hended, hfive⟩ := Option.map_eq_some_iff.1 hcall
  have hmade := SessionFactory.eager.create.traced_watch 0
  rw [hcreate] at hmade
  have htrace := (s.guestProcess [("", .bool true)]).traced_watch 0
  rw [hended] at htrace
  have hreachable : ended.session.Reachable .eager :=
    .next (.fresh (Run.yields_of_traced hmade)) (Run.yields_of_traced htrace)
  obtain ⟨hrefused, hsame, hlife⟩ := session_lifecycle .eager
  have hserved := (hlife s (.fresh (Run.yields_of_traced hmade))).2 _ _ _ htrace
  exact ⟨_, s, _, ended, hmade, hlength, hrefused _ _ hmade, htrace, hfive, hserved, hreachable,
    (hlife _ hreachable).1, hsame _ rfl _ _ _⟩

end EventSandbox
