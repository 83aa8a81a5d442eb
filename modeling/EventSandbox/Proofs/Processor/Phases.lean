import EventSandbox.Proofs.Processor.Independent
import EventSandbox.Proofs.Processor.Sequence
import EventSandbox.Wasm.Module

/-!
# EventSandbox.Proofs.Processor.Phases — what can go wrong when

An error tells in which phase of a processor's life it has happened. While the processor is built
all errors are errors of construction, those of a start function included
(`SessionFactory.isConstruction_of_create`). When it has been built, a call fails only through its
guest: the guest returns a code of its own, reaches a limit or does something wrong
(`Session.Reachable.ofCall`).

Calls make sessions too, by the same steps as the processor was built with. These cannot fail any
more: they ask for no time, so they go as they went when the first session was made.
-/

namespace EventSandbox

/-! ## Kinds of errors -/

namespace ProcessorError

/-- The name of the trap that ended the guest, if that is the error and the trap is known. -/
def trapName? : ProcessorError → Option String
  | invocationFault _ trap? => trap?
  | _ => none

/-- An error of building a processor, and of no other kind. -/
structure OfBuild (error : ProcessorError) : Prop where
  construction : error.isConstruction = true
  limit : error.isResourceLimit = false
  code : error.statusCode? = none

/-- An error of a call, of exactly one kind: a code of the guest, other than OK, a limit or a trap
with a name. -/
structure OfCall (error : ProcessorError) : Prop where
  construction : error.isConstruction = false
  kinds :
    [error.statusCode?.isSome, error.isResourceLimit, error.trapName?.isSome].count true = 1
  code : error.statusCode? ≠ some Status.ok.code

theorem ofBuild_of_isConstruction {error : ProcessorError} (h : error.isConstruction) :
    error.OfBuild := by
  cases error with
  | io | compilationFailed | instantiation | exportResolution | invalidConfig =>
    exact ⟨rfl, rfl, rfl⟩
  | processingFailed | invocationFault | fuelExhausted | executionTimeout => cases h

theorem ofCall_ofTrap (timeoutMs : Nat) (trap : Trap) : (ofTrap timeoutMs trap).OfCall := by
  cases trap <;> exact ⟨rfl, rfl, nofun⟩

theorem ofCall_processingFailed {code : Int32} (h : code ≠ Status.ok.code) :
    (processingFailed code).OfCall := by
  refine ⟨rfl, rfl, ?_⟩
  intro hok
  exact h (Option.some.inj hok)

end ProcessorError

/-! ## Building -/

/-- The ways in which a module is compiled: as a binary module, from a text, or from a reader. -/
inductive Wasm.Compiled : Except ProcessorError CompiledModule → Prop
  | binary (source : Source) : Compiled (compileBinary source)
  | text (source : Source) : Compiled (compileText source)
  | reader (first? : Option Guest) (chunks : List Chunk) : Compiled (compileReader first? chunks)

namespace Wasm

variable {error : ProcessorError}

theorem compileGuest_of_isValid {guest : Guest} (h : isValid guest) (fallback : ProcessorError) :
    compileGuest guest fallback = .ok ⟨guest, ""⟩ :=
  if_pos h

theorem isConstruction_of_compileGuest {guest : Guest} {fallback : ProcessorError}
    (hfallback : fallback.isConstruction) (h : compileGuest guest fallback = .error error) :
    error.isConstruction := by
  unfold compileGuest at h
  split at h
  · cases h
  · cases h
    exact hfallback

theorem isConstruction_of_compileBinary {source : Source}
    (h : compileBinary source = .error error) :
    error.isConstruction := by
  cases source with
  | bytes content =>
    unfold compileBinary at h
    dsimp only at h
    split at h
    · cases h
      rfl
    · split at h
      · cases h
      · cases h
        rfl
  | binary guest => exact isConstruction_of_compileGuest rfl h
  | text guest =>
    cases h
    rfl

theorem isConstruction_of_compileText {source : Source} (h : compileText source = .error error) :
    error.isConstruction := by
  cases source with
  | bytes content =>
    unfold compileText at h
    dsimp only at h
    split at h
    · cases h
    · cases h
      rfl
  | binary guest => exact isConstruction_of_compileGuest rfl h
  | text guest => exact isConstruction_of_compileGuest rfl h

theorem isConstruction_of_readAll {chunks : List Chunk} (h : readAll chunks = .error error) :
    error.isConstruction := by
  induction chunks with
  | nil => cases h
  | cons chunk rest ih =>
    cases chunk with
    -- To be interrupted is no failure: the reader is asked again.
    | interrupted => exact ih h
    | fails reason =>
      cases h
      rfl
    | bytes content =>
      unfold readAll at h
      cases hrest : readAll rest with
      | ok contents =>
        rw [hrest] at h
        cases h
      | error fault =>
        rw [hrest] at h
        cases h
        exact ih hrest

theorem isConstruction_of_compileReader {first? : Option Guest} {chunks : List Chunk}
    (h : compileReader first? chunks = .error error) : error.isConstruction := by
  unfold compileReader at h
  cases hread : readAll chunks with
  | error fault =>
    rw [hread] at h
    cases h
    exact isConstruction_of_readAll hread
  | ok contents =>
    rw [hread] at h
    cases first? with
    | none =>
      have hbytes : compileBinary (.bytes contents.flatten) = .error error := h
      exact isConstruction_of_compileBinary hbytes
    | some guest =>
      dsimp only [bind, Except.bind] at h
      split at h
      · exact isConstruction_of_compileBinary h
      · cases h
        rfl

/-- A module is not compiled for no other reason than itself. -/
theorem Compiled.isConstruction (h : Compiled (.error error)) : error.isConstruction := by
  generalize hmodule : Except.error error = module at h
  cases h with
  | binary source => exact isConstruction_of_compileBinary hmodule.symm
  | text source => exact isConstruction_of_compileText hmodule.symm
  | reader first? chunks => exact isConstruction_of_compileReader hmodule.symm

end Wasm

/-- Whatever goes wrong while a session is made, the start function included, is an error of
construction. -/
theorem SessionFactory.isConstruction_of_create {f : SessionFactory} {error : ProcessorError}
    (h : f.create.Yields (.error error)) : error.isConstruction := by
  obtain ⟨meter, hmeter⟩ := f.exists_meter
  rw [create_run hmeter] at h
  obtain ⟨made, -, hrest⟩ := Run.yields_bind h
  exact isConstruction_of_equip (Run.yields_done.1 hrest)

theorem Processor.isConstruction_of_build {config : ProcessorConfig}
    {module : Except ProcessorError CompiledModule} (hmodule : Wasm.Compiled module) {pace : Nat}
    {error : ProcessorError} (h : (build config module pace).Yields (.error error)) :
    error.isConstruction := by
  unfold build at h
  -- In the order in which they are looked at: the configuration, the module, and its first session.
  cases hvalid : config.validate with
  | error invalid =>
    rw [hvalid] at h
    obtain ⟨_, ⟨⟩⟩ := h
    unfold ProcessorConfig.validate at hvalid
    split at hvalid
    · cases hvalid
      rfl
    · cases hvalid
  | ok =>
    rw [hvalid] at h
    cases module with
    | error fault =>
      obtain ⟨_, ⟨⟩⟩ := h
      exact hmodule.isConstruction
    | ok module =>
      obtain ⟨fault | seed, hcreate, hrest⟩ := Run.yields_bind h
      · obtain ⟨_, ⟨⟩⟩ := hrest
        exact SessionFactory.isConstruction_of_create hcreate
      · obtain ⟨_, ⟨⟩⟩ := hrest

/-! ## Calling -/

/-- An outcome that a session of a guest has come to. If it is an error, it is one of a call. -/
structure Outcome.OfCall (f : SessionFactory) (outcome : Outcome) : Prop where
  processed : ∃ (s : Session) (event : Fields) (ended : Session.Ended), s.Reachable f ∧
    (s.guestProcess event).Yields ended ∧ outcome = ended.outcome
  errors : ∀ error, outcome.result = .error error → error.OfCall

/-- Whatever a session has been through, the next call fails only through its guest. -/
theorem Session.Reachable.ofCall {f : SessionFactory} {s : Session} (hs : s.Reachable f)
    {event : Fields} {ended : Ended} (h : (s.guestProcess event).Yields ended) :
    ended.outcome.OfCall f := by
  refine ⟨⟨s, event, ended, hs, h, rfl⟩, ?_⟩
  intro error herror
  obtain ⟨meter, hmeter⟩ := f.exists_meter
  obtain ⟨exports, hexports, -⟩ := hs.belongsTo.exports
  -- The meter can be set and the exports are there, so only the handler's own run can fail.
  rw [hs.guestProcess_run hmeter hexports event] at h
  obtain ⟨⟨trap | code, m⟩, -, hfinish⟩ := Run.yields_bind h
  · obtain ⟨_, ⟨⟩⟩ := hfinish
    cases herror
    exact ProcessorError.ofCall_ofTrap s.budget.timeoutMs trap
  · obtain ⟨_, ⟨⟩⟩ := hfinish
    have hreports : Reports (.ok code.toInt32) (.error error) :=
      herror ▸ Processor.reports_resultOf (.ok code.toInt32)
    cases hreports with
    | code hcode => exact ProcessorError.ofCall_processingFailed hcode

section Calls

variable {f : SessionFactory} {seed : Session} {capacity k : Nat} {clock : Clock}
  {records : List LogRecord} {calls : Calls}

/-- Every open call is a call of sound traffic. -/
theorem Calls.exists_client (hseed : f.create.Yields (.ok seed))
    (h : Calls.Reachable f k ⟨Pool.withSeed seed capacity, clock, records⟩ calls) {call : Call}
    (hcall : call ∈ calls.calls) :
    ∃ t : Traffic, ∃ client : Client, Sound f t ∧ client ∈ t.clients ∧ client.call = call := by
  rw [← Traffic.start_shared] at h
  obtain ⟨t, ht, rfl⟩ := Traffic.Reachable.lift rfl h
  obtain ⟨client, hclient, hsame⟩ := Multiset.mem_map.1 hcall
  exact ⟨t, client, Sound.of_reachable hseed ht, hclient, hsame⟩

/-- A call that makes a session makes the one that the processor was built with, or is still at
it. -/
theorem Calls.building_yields (hseed : f.create.Yields (.ok seed))
    (h : Calls.Reachable f k ⟨Pool.withSeed seed capacity, clock, records⟩ calls) {event : Fields}
    {run : Run (Except ProcessorError Session)} (hcall : .building event run ∈ calls.calls) :
    run.Yields (.ok seed) ∧ ∀ made, run.Yields made → made = .ok seed := by
  obtain ⟨t, ⟨event', stage⟩, hsound, hclient, hstage⟩ := Calls.exists_client hseed h hcall
  cases stage with
  | building run' =>
    cases hstage
    -- What is left of `create` asks for no time, so it ends as `create` has ended.
    obtain ⟨heard, hpath⟩ := hsound.clients _ hclient
    refine ⟨f.timeless_create.rest_yields hpath hseed, ?_⟩
    rintro made ⟨more, hmade⟩
    exact f.timeless_create.unique ⟨_, hpath.trans hmade⟩ hseed
  | _ => cases hstage

/-- However the steps of calls mix, each that is over has come to an outcome of its guest. -/
theorem Calls.finished_ofCall (hseed : f.create.Yields (.ok seed))
    (h : Calls.Reachable f k ⟨Pool.withSeed seed capacity, clock, records⟩ calls)
    {outcome : Outcome} (hcall : .finished outcome ∈ calls.calls) : outcome.OfCall f := by
  obtain ⟨t, ⟨event, stage⟩, hsound, hclient, hstage⟩ := Calls.exists_client hseed h hcall
  have hclient := hsound.clients _ hclient
  cases stage with
  | finished past =>
    cases hstage
    have hwhole := hsound.whole past.number
    obtain ⟨hfound, -⟩ := hwhole.reachable past hclient.2
    exact hfound.ofCall (hwhole.alone past hclient.2).yields
  -- A call that got no session would be over as well, but there is none.
  | failed error => exact hclient.elim
  | _ => cases hstage

end Calls

/-- Calls that are made one after another, too, come to outcomes of their guest. -/
theorem Processor.processAll_ofCall {p : Processor} {seed : Session}
    (hseed : p.factory.create.Yields (.ok seed)) {ω : Type} {host : Run.Host ω}
    {events : List Fields} {pool : Pool Session} (hpool : pool.Ready p.factory) {w : ω}
    {results : List (Outcome × PoolStats)} {last : Pool Session × ω}
    (h : p.processAll host.beside events (pool, w) = some (results, last)) :
    ∀ r ∈ results, r.1.OfCall p.factory := by
  induction events generalizing pool w results with
  | nil =>
    cases h
    exact List.forall_mem_nil _
  | cons event events ih =>
    unfold processAll at h
    obtain ⟨⟨outcome, pool', w'⟩, hfirst, h⟩ := Option.bind_eq_some_iff.1 h
    obtain ⟨⟨rest, last'⟩, hrest, h⟩ := Option.bind_eq_some_iff.1 h
    cases h
    -- The pool holds sessions of the guest only, so the event was processed in one of them.
    obtain ⟨hready, s, ended, hs, hended, rfl⟩ := process_ended hseed hpool event w _ hfirst
    exact List.forall_mem_cons.2 ⟨hs.ofCall hended, ih hready hrest⟩

/-! ## Both phases -/

/-- Errors tell the phase. To build a processor fails with errors of construction only. Once it is
built, a call never fails for want of a session, however many calls are open and however their
steps mix: each comes to an outcome of its guest, which is an error only if the guest has returned a
code other than OK, reached a limit or trapped. -/
theorem errors_by_phase (config : ProcessorConfig) {module : Except ProcessorError CompiledModule}
    (hmodule : Wasm.Compiled module) (pace : Nat) :
    (∀ error, (Processor.build config module pace).Yields (.error error) → error.OfBuild) ∧
    ∀ p pool, (Processor.build config module pace).Yields (.ok (p, pool)) →
      (∀ k clock records calls, Calls.Reachable p.factory k ⟨pool, clock, records⟩ calls →
        (∀ event run, .building event run ∈ calls.calls →
          ∃ session, run.Yields (.ok session) ∧ ∀ made, run.Yields made → made = .ok session) ∧
        ∀ outcome, .finished outcome ∈ calls.calls → outcome.OfCall p.factory) ∧
      ∀ {ω : Type} (host : Run.Host ω) events w results last,
        p.processAll host.beside events (pool, w) = some (results, last) →
        ∀ r ∈ results, r.1.OfCall p.factory := by
  constructor
  · intro error herror
    exact ProcessorError.ofBuild_of_isConstruction
      (Processor.isConstruction_of_build hmodule herror)
  · intro p pool hbuild
    -- Every session that is made later is like the first one.
    obtain ⟨seed, hseed, rfl⟩ := Processor.build_yields hbuild
    constructor
    · intro k clock records calls h
      constructor
      · intro event run hcall
        exact ⟨seed, Calls.building_yields hseed h hcall⟩
      · intro outcome hcall
        exact Calls.finished_ofCall hseed h hcall
    · intro ω host events w results last h
      exact Processor.processAll_ofCall hseed (Pool.Ready.withSeed hseed _) h

/-- The small module is a module. -/
theorem Wasm.compiled_small (steps : List Step) : Wasm.Compiled (.ok (.small steps)) := by
  have hvalid : isValid (CompiledModule.small steps).guest := by
    show isValid (CompiledModule.small []).guest
    decide +kernel
  have hcompiled : compileBinary (.binary (CompiledModule.small steps).guest) =
      .ok (.small steps) := compileGuest_of_isValid hvalid binaryError
  rw [← hcompiled]
  exact .binary _

/-- No bytes are no module; a guest that returns 5 is one whose calls fail; and a call that finds no
session idle makes one. -/
theorem errors_by_phase_small :
    (∃ error, (Processor.build (.small 0) (Wasm.compileBinary (.bytes []))).Yields (.error error) ∧
      error.OfBuild) ∧
    (∃ results last, (Processor.small [.ret (.const 5)] 0).processAll Clock.host.beside [[]]
        (Pool.withSeed (.small ⟨.steps [], .steps [.ret (.const 5)]⟩ none) 0, ⟨⟨0, 0⟩, []⟩) =
          some (results, last) ∧
      results.map (·.1.result) = [.error (.processingFailed 5)] ∧
      ∀ r ∈ results, r.1.OfCall (Processor.small [.ret (.const 5)] 0).factory) ∧
    ∃ calls, Calls.Reachable (Processor.small [] 0).factory 1
        ⟨Pool.withSeed (.small ⟨.steps [], .steps []⟩ none) 0, ⟨0, 0⟩, []⟩ calls ∧
      .building [] (Processor.small [] 0).factory.create ∈ calls.calls ∧
      ∃ session, (Processor.small [] 0).factory.create.Yields (.ok session) := by
  refine ⟨?_, ?_, ?_⟩
  · -- There is no module.
    have hbuild : (Processor.build (.small 0) (Wasm.compileBinary (.bytes []))).Yields
        (.error (.compilationFailed (Wasm.HeaderFault.tooShort 0).message)) := ⟨[], .here _⟩
    obtain ⟨hfails, -⟩ := errors_by_phase (.small 0) (.binary (.bytes [])) Ticker.usualPace
    exact ⟨_, hbuild, hfails _ hbuild⟩
  · -- The guest refuses its event.
    obtain ⟨-, hbuilt⟩ :=
      errors_by_phase (.small 0) (Wasm.compiled_small [.ret (.const 5)]) Ticker.usualPace
    obtain ⟨-, hsequence⟩ := hbuilt _ _ (Processor.small_build [.ret (.const 5)] 0)
    have hrun : ((Processor.small [.ret (.const 5)] 0).processAll Clock.host.beside [[]]
        (Pool.withSeed (.small ⟨.steps [], .steps [.ret (.const 5)]⟩ none) 0, ⟨⟨0, 0⟩, []⟩)).map
          (fun (results, _) => results.map (·.1.result)) =
        some [.error (.processingFailed 5)] := by
      decide +kernel
    obtain ⟨⟨results, last⟩, hresults, hfailed⟩ := Option.map_eq_some_iff.1 hrun
    exact ⟨results, last, hresults, hfailed, hsequence Clock.host _ _ _ _ hresults⟩
  · -- A call makes a session of its own.
    obtain ⟨-, hbuilt⟩ := errors_by_phase (.small 0) (Wasm.compiled_small []) Ticker.usualPace
    obtain ⟨hcalls, -⟩ := hbuilt _ _ (Processor.small_build [] 0)
    let before : Shared :=
      ⟨Pool.withSeed (.small ⟨.steps [], .steps []⟩ none) 0, ⟨0, 0⟩, []⟩
    have hwaiting : Calls.Reachable (Processor.small [] 0).factory 1 before
        ⟨before, .waiting [] ::ₘ 0⟩ := .step .start (.enter []) (by decide)
    have hbuilding := hwaiting.advance
    rw [Call.step_miss rfl] at hbuilding
    have hcall := Multiset.mem_cons_self (Call.building [] (Processor.small [] 0).factory.create) 0
    obtain ⟨session, hsession, -⟩ := (hcalls _ _ _ _ hbuilding).1 _ _ hcall
    exact ⟨_, hbuilding, hcall, session, hsession⟩

end EventSandbox
