import EventSandbox.Proofs.Guest.HostCall
import EventSandbox.Proofs.Guest.Path
import EventSandbox.Proofs.Guest.Traversal
import EventSandbox.Proofs.Session
import EventSandbox.Processor.Basic

/-!
# EventSandbox.Proofs.Guest.Startup — sessions of one guest begin alike

While its exports are unknown a guest gets nothing out of the host, not even the time
(`offline_closed`). So a start function, and with it the making of a session, asks for no time: it
goes the same way whoever is host and whenever it happens (`Timeless.unique`, `Timeless.follow`).
A guest of which one session could be made never fails to give another, and all are equal. Such a
session is the first of every processor that could be built (`Processor.build_yields`).
-/

namespace EventSandbox

namespace Run

variable {α β σ : Type} {P : α → Prop} {Q : β → Prop} {r : Run α} {a b : α}

/-- A run that never asks for the time, and ends only in ways that have a property. -/
inductive Timeless (P : α → Prop) : Run α → Prop
  | done {a : α} (h : P a) : Timeless P (done a)
  | endless : Timeless P endless
  | pause {rest : Unit → Run α} (h : Timeless P (rest ())) : Timeless P (pause rest)
  | emit {rest : Unit → Run α} (entry : LogRecord) (h : Timeless P (rest ())) :
      Timeless P (emit entry rest)
  | mark {rest : Unit → Run α} (what : Moment) (h : Timeless P (rest ())) :
      Timeless P (mark what rest)

namespace Timeless

theorem bind {f : α → Run β} (h : r.Timeless P) (hf : ∀ a, P a → (f a).Timeless Q) :
    (r.bind f).Timeless Q := by
  induction h with
  | done ha => exact hf _ ha
  | endless => exact .endless
  | pause _ ih => exact .pause ih
  | emit entry _ ih => exact .emit entry ih
  | mark what _ ih => exact .mark what ih

/-- Such a run has one end at most. -/
theorem unique (h : r.Timeless P) (ha : r.Yields a) (hb : r.Yields b) : a = b := by
  obtain ⟨heard, ha⟩ := ha
  obtain ⟨heard', hb⟩ := hb
  -- What a run does before its end is settled without a time, so both go the same way.
  induction h generalizing heard heard' with
  | done =>
    cases ha
    cases hb
    rfl
  | endless => cases ha
  | pause _ ih =>
    cases ha with
    | pause ha => cases hb with
      | pause hb => exact ih _ ha _ hb
  | emit entry _ ih =>
    cases ha with
    | emit _ ha => cases hb with
      | emit _ hb => exact ih _ ha _ hb
  | mark what _ ih =>
    cases ha with
    | mark _ ha => cases hb with
      | mark _ hb => exact ih _ ha _ hb

/-- If it has an end, it comes to it whoever is host. -/
theorem follow (h : r.Timeless P) (ha : r.Yields a) (host : Host σ) (s : σ) :
    ∃ s', r.follow host s = some (a, s') := by
  obtain ⟨heard, ha⟩ := ha
  induction h generalizing heard s with
  | done =>
    cases ha
    exact ⟨s, rfl⟩
  | endless => cases ha
  | pause _ ih =>
    cases ha with
    | pause ha => exact ih s _ ha
  | emit entry _ ih =>
    cases ha with
    | emit _ ha => exact ih _ _ ha
  | mark what _ ih =>
    cases ha with
    | mark _ ha => exact ih s _ ha

/-- Wherever it stands, it still comes to that end. -/
theorem rest_yields {r' : Run α} {heard : List Signal} (h : r.Timeless P) (hpath : r.Path heard r')
    (ha : r.Yields a) : r'.Yields a := by
  obtain ⟨heard', ha⟩ := ha
  -- A way that leads to the end leads there from each of its places.
  induction h generalizing heard heard' with
  | done =>
    cases hpath
    exact ⟨_, ha⟩
  | endless => cases ha
  | pause _ ih =>
    cases hpath with
    | here => exact ⟨_, ha⟩
    | pause hpath => cases ha with
      | pause ha => exact ih hpath _ ha
  | emit entry _ ih =>
    cases hpath with
    | here => exact ⟨_, ha⟩
    | emit _ hpath => cases ha with
      | emit _ ha => exact ih hpath _ ha
  | mark what _ ih =>
    cases hpath with
    | here => exact ⟨_, ha⟩
    | mark _ hpath => cases ha with
      | mark _ ha => exact ih hpath _ ha

end Timeless

end Run

/-! ## Guests without exports -/

/-- A computation that asks for no time while the exports are unknown, and leaves them so. -/
def Guarded.Offline {α : Type} (c : Guarded α) : Prop :=
  ∀ m : Machine, m.exports? = none → (c.run.run m).Timeless fun (_, m') => m'.exports? = none

namespace HostCall

variable {m : Machine} (malloc : Allocator) (request : HostRequest)

/-- While the exports are unknown a host call is refused, or its message dropped, whatever its
arguments are and whatever the allocator would do. -/
theorem perform_unresolved (hm : m.exports? = none) :
    (perform malloc request).run.run m =
      match request with
      | .log level _ _ =>
        .emit (.dropped level.toInt32 .exportsUnavailable) fun _ => .done (.ok .ok, m)
      | _ => .done (.error .exportsUnavailable, m) := by
  have hx : ¬ m.exports?.isSome := by simp [hm]
  -- All but `log` begin with the exports.
  cases request with
  | getField => simp only [perform, getField, run_resolved_bind, if_neg hx]
  | putField => simp only [perform, putField, run_resolved_bind, if_neg hx]
  | currentTime => simp only [perform, currentTime, run_resolved_bind, if_neg hx]
  | log level text length =>
    have hrecord : logRecord m level text length = .dropped level.toInt32 .exportsUnavailable := by
      simp [logRecord, hm]
    show Run.emit (logRecord m level text length) _ = _
    rw [hrecord]
    rfl

theorem timeless_perform (hm : m.exports? = none) :
    ((perform malloc request).run.run m).Timeless fun (_, m') => m'.exports? = none := by
  rw [perform_unresolved malloc request hm]
  cases request with
  | log => exact .emit _ (.done hm)
  | getField | putField | currentTime => exact .done hm

theorem timeless_answer (hm : m.exports? = none) :
    ((answer malloc request).run m).Timeless fun (_, m') => m'.exports? = none := by
  simp only [answer, Exec.run_bind, Exec.run_get, Exec.run_mark, Run.bind]
  refine .mark _ ((timeless_perform malloc request hm).bind ?_)
  rintro ⟨error | status, m'⟩ hm'
  · exact .emit _ (.mark _ (.done hm'))
  · exact .mark _ (.done hm')

end HostCall

namespace Guarded

/-- Nothing that a guest does asks for the time while its exports are unknown. -/
theorem offline_closed : Closed Offline where
  pure a := fun m hm => .done hm
  throw _ := fun m hm => .done hm
  bind hc hf := by
    intro m hm
    rw [Except.run_bind]
    refine (hc m hm).bind ?_
    rintro ⟨trap | a, m'⟩ hm'
    · exact .done hm'
    · exact hf a m' hm'
  get := fun m hm => .done hm
  ofPure hp := fun m hm => .done ((hp m).1.exports.trans hm)
  pause := fun m hm => .pause (.done hm)
  charge amount := fun m hm => .done hm
  checkpoint := by
    intro m hm
    rw [checkpoint, run_get_bind]
    cases m.meter.due? with
    | none => exact .done hm
    | some trap => exact .mark _ (.done hm)
  spin := by
    intro α m hm
    rw [run_spin]
    cases m.meter.spinTrap? with
    | none => exact .endless
    | some trap => exact .mark _ (.done hm)
  answer _ request := fun m hm =>
    (HostCall.timeless_answer _ request hm).bind fun _ hm' => .done hm'

end Guarded

/-! ## Making sessions -/

/-- While a guest is brought to life no event is bound, and what the host calls in the guest is not
known yet. -/
structure Machine.Starting (m : Machine) : Prop where
  event : m.event? = none
  exports : m.exports? = none

theorem Guest.prepare_eq_ok {g : Guest} {linker : Linker} {maxBytes : Nat} {meter : Meter}
    {m : Machine} (h : g.prepare linker maxBytes meter = .ok m) :
    ∃ fresh memory, g.freshMemory maxBytes = .ok fresh ∧ copyData g.data fresh = .ok memory ∧
      m =
        { memory, globals := g.globals, holdings := g.holdings, event? := none, exports? := none,
          meter } := by
  unfold prepare at h
  simp only [bind, Except.bind] at h
  split at h
  · cases h
  split at h
  · cases h
  split at h
  · cases h
  · cases h
    exact ⟨_, _, ‹_›, ‹_›, rfl⟩

theorem Guest.prepare_starting {g : Guest} {linker : Linker} {maxBytes : Nat} {meter : Meter}
    {m : Machine} (h : g.prepare linker maxBytes meter = .ok m) : m.Starting := by
  obtain ⟨_, _, -, -, rfl⟩ := prepare_eq_ok h
  exact ⟨rfl, rfl⟩

theorem Guest.timeless_instantiate (g : Guest) (linker : Linker) (maxBytes : Nat) (meter : Meter) :
    (g.instantiate linker maxBytes meter).Timeless fun _ => True := by
  unfold instantiate
  cases hprepare : g.prepare linker maxBytes meter with
  | error fault => exact .done trivial
  | ok m =>
    dsimp only
    unfold runStart
    -- The start function runs without exports, so it is never told the time.
    cases g.start? with
    | none => exact .done trivial
    | some steps =>
      have hm := (prepare_starting hprepare).exports
      refine (Guarded.offline_closed.enter Code.maxActivations (.steps steps) 0 m hm).bind ?_
      rintro ⟨trap | word, m'⟩ -
      · exact .done trivial
      · exact .done trivial

/-- The making of a session asks for no time. -/
theorem SessionFactory.timeless_create (f : SessionFactory) :
    f.create.Timeless fun _ => True := by
  obtain ⟨meter, hmeter⟩ := f.exists_meter
  rw [create_run hmeter]
  refine (f.guest.timeless_instantiate f.linker f.execution.maxMemoryBytes meter).bind ?_
  intro made _
  exact .done trivial

/-- A processor is built around a session that its factory has made. -/
theorem Processor.build_yields {config : ProcessorConfig}
    {module : Except ProcessorError CompiledModule} {pace : Nat} {p : Processor}
    {pool : Pool Session} (h : (build config module pace).Yields (.ok (p, pool))) :
    ∃ seed, p.factory.create.Yields (.ok seed) ∧
      pool = Pool.withSeed seed config.maxCachedSessions.toNat := by
  unfold build at h
  split at h
  · obtain ⟨_, ⟨⟩⟩ := h
  · obtain ⟨_, ⟨⟩⟩ := h
  · obtain ⟨error | seed, hcreate, hrest⟩ := Run.yields_bind h
    · obtain ⟨_, ⟨⟩⟩ := hrest
    · obtain ⟨_, ⟨⟩⟩ := hrest
      exact ⟨seed, hcreate, rfl⟩

/-! ## A small module -/

/-- A module with a page of memory and a handler that makes some steps. -/
def CompiledModule.small (steps : List Step) : CompiledModule where
  guest :=
    { Guest.empty with
      minPages := 1
      maxPages? := some 1
      memoryName? := some Guest.memoryName
      functions :=
        [⟨Guest.mallocName, FuncType.malloc, .steps []⟩,
          ⟨Guest.processName, FuncType.process, .steps steps⟩] }
  contentHash := ""

/-- A configuration that keeps a number of sessions and limits nothing but memory. -/
def ProcessorConfig.small (maxCachedSessions : UInt64) : ProcessorConfig :=
  ⟨maxCachedSessions, [], ⟨false, false, 1⟩, ⟨0, 0, 1⟩⟩

namespace Processor

variable (steps : List Step) (maxCachedSessions : UInt64)

/-- A processor of the small module, whose calls have no deadline. -/
def small : Processor :=
  ⟨factoryOf (.small steps) (.small maxCachedSessions) Ticker.usualPace, "", []⟩

/-- A guest without a start function is brought to life under the small module's configuration. -/
theorem create_of_small {g : Guest} {m : Machine}
    (hprepare : g.prepare (small [] 0).factory.linker 0x100000 ⟨none, none⟩ = .ok m)
    (hstart : g.start? = none) :
    { (small [] 0).factory with guest := g }.create =
      .done ({ (small [] 0).factory with guest := g }.equip (.ok m)) := by
  -- The factory is made a variable so that its configuration is not computed at every step.
  generalize hf : { (small [] 0).factory with guest := g } = f
  have hmeter : Meter.ofBudget f.engine f.ticker f.budget = .ok ⟨none, none⟩ := by
    subst hf
    rfl
  have hbytes : f.execution.maxMemoryBytes = 0x100000 := by
    subst hf
    exact Nat.one_mul _
  apply SessionFactory.create_of_prepared hmeter
  · rw [hbytes]
    subst hf
    exact hprepare
  · subst hf
    exact hstart

theorem small_create : (small steps maxCachedSessions).factory.create =
    .done (.ok (Session.small ⟨.steps [], .steps steps⟩ none)) :=
  create_of_small (g := (CompiledModule.small steps).guest) rfl rfl

theorem small_build : (build (.small maxCachedSessions) (.ok (.small steps))).Yields
    (.ok (small steps maxCachedSessions,
      Pool.withSeed (Session.small ⟨.steps [], .steps steps⟩ none) maxCachedSessions.toNat)) := by
  refine ⟨[], ?_⟩
  show Run.Path (Run.bind (small steps maxCachedSessions).factory.create _) [] _
  rw [small_create]
  exact .here _

end Processor

end EventSandbox
