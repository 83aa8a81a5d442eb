import EventSandbox.Proofs.Cli.Confluence
import EventSandbox.Proofs.Guest.Creation

/-!
# EventSandbox.Proofs.Cli.Ending — runs that come to their end

Nothing but its guest can keep a run from coming to its end.

1. If no call of the guest goes on for ever (`SessionFactory.AlwaysEnds`), the run ends once the
   guest has been loaded (`Opens.ends`).
2. So it is with every guest if a call is limited, by fuel or by a deadline
   (`alwaysEnds_of_limits`). The start function is limited as well, and so such a run ends
   whatever it is given (`run_ends`).
-/

namespace EventSandbox

/-! ## Guests -/

namespace SessionFactory

variable {f : SessionFactory} {s : Session} {ω : Type} {host : Run.Host ω}

/-- No call of a session goes on for ever, whatever times its guest is told. -/
def AlwaysEnds (f : SessionFactory) : Prop :=
  ∀ s : Session, s.Reachable f → ∀ event trace, ¬ (s.guestProcess event).Traced trace none

theorem alwaysEnds_of_limits {trap : Trap} (h : f.meter.limits trap) : f.AlwaysEnds := by
  intro s hs event
  have hmeter := ofBudget_eq f
  rw [← hs.belongsTo.engine, ← hs.belongsTo.ticker, ← hs.belongsTo.budget] at hmeter
  exact Session.guestProcess_ends hmeter h event

/-- Whoever is told the time whenever it is asked for sees such a call to its end. -/
theorem AlwaysEnds.follow (h : f.AlwaysEnds) (hs : s.Reachable f)
    (hnow : ∀ w, (host.now w).isSome) (event : Fields) (w : ω) :
    ∃ ended w', (s.guestProcess event).follow host w = some (ended, w') := by
  obtain ⟨trace, htraced⟩ := Run.exists_traced_follow hnow (s.guestProcess event) w
  rcases hfollow : (s.guestProcess event).follow host w with _ | ⟨ended, w'⟩
  · rw [hfollow] at htraced
    exact absurd htraced (h s hs event trace)
  · exact ⟨ended, w', rfl⟩

end SessionFactory

/-- A call of a guest is limited. -/
def EngineConfig.Limited (engine : EngineConfig) : Prop :=
  engine.fuelMetering ∨ engine.epochInterruption

/-- A limit of the engine is a limit of the meter. -/
theorem EngineConfig.Limited.meter {config : ProcessorConfig} (h : config.engine.Limited)
    (module : CompiledModule) (pace : Nat) :
    ∃ trap, (Processor.factoryOf module config pace).meter.limits trap := by
  rcases h with hfuel | hepoch
  · refine ⟨.outOfFuel, ?_⟩
    simp [Meter.limits, SessionFactory.meter, SessionFactory.budget, Budget.ofConfig,
      Processor.factoryOf, hfuel]
  · refine ⟨.interrupted, ?_⟩
    simp [Meter.limits, SessionFactory.meter, SessionFactory.budget, Budget.ofConfig,
      Processor.factoryOf, Ticker.workIn?, hepoch]

/-! ## Calls -/

namespace Processor

variable {p : Processor} {fresh s : Session} {pool : Pool Session} {ω : Type} {host : Run.Host ω}

theorem visit_ends (h : p.factory.AlwaysEnds) (hnow : ∀ w, (host.now w).isSome)
    (hs : s.Reachable p.factory) (event : Fields) (w : ω) :
    ∃ r, visit host.beside event s (pool, w) = some r := by
  obtain ⟨ended, w', hfollow⟩ := h.follow hs hnow event w
  unfold visit
  rw [Run.follow_beside, hfollow]
  exact ⟨_, rfl⟩

/-- Whether a call finds a session or makes one, it comes to its end. -/
theorem process_ends (h : p.factory.AlwaysEnds) (hfresh : p.factory.create.Yields (.ok fresh))
    (hnow : ∀ w, (host.now w).isSome) (hpool : pool.Ready p.factory) (event : Fields) (w : ω) :
    ∃ r, p.process host.beside event (pool, w) = some r := by
  rcases hpop : pool.pop with ⟨_ | session, popped⟩
  · obtain ⟨w', hcreate⟩ := p.factory.timeless_create.follow hfresh host w
    rw [process_of_empty hpop, Run.follow_beside, hcreate]
    exact visit_ends h hnow (.fresh hfresh) event w'
  · obtain ⟨hs, -⟩ := hpool.pop_some hpop
    rw [process_of_idle hpop]
    exact visit_ends h hnow hs event w

end Processor

namespace Cli

/-! ## Records -/

/-- A part of a run that comes to its end and leaves the pool with sessions of the guest only. -/
def Ends {α : Type} (f : SessionFactory) (x : Option (α × List Report × Shared)) : Prop :=
  ∃ a, Gives f x (some a)

namespace Ends

variable {α β : Type} {f : SessionFactory}

theorem pure {a : α} {reports : List Report} {s : Shared} (h : s.pool.Ready f) :
    Ends f (some (a, reports, s)) :=
  ⟨a, .pure h⟩

theorem bind {x : Option (α × List Report × Shared)} (h : Ends f x)
    {k : α × List Report × Shared → Option (β × List Report × Shared)}
    (hk : ∀ a reports s, s.pool.Ready f → Ends f (k (a, reports, s))) : Ends f (x.bind k) := by
  obtain ⟨a, hresult, hready⟩ := h
  obtain ⟨⟨a, reports, s⟩, rfl, ⟨⟩⟩ := Option.map_eq_some_iff.1 hresult
  exact hk a reports s (hready _ rfl)

variable {p : Processor} {fresh : Session} {s : Shared} (h : p.factory.AlwaysEnds)
  (hfresh : p.factory.create.Yields (.ok fresh))

include h hfresh

theorem process (r : Record) (hs : s.pool.Ready p.factory) :
    Ends p.factory (r.process p.factory s) := by
  rw [Record.process_eq]
  cases r.event? with
  | none => exact .pure hs
  | some event =>
    have hclock : ∀ j, (Clock.host.now j).isSome := fun _ => rfl
    obtain ⟨ending, hprocess⟩ := p.process_ends h hfresh hclock hs event ⟨s.clock, []⟩
    obtain ⟨hready, -⟩ := p.process_ended hfresh hs event ⟨s.clock, []⟩ ending hprocess
    dsimp only
    rw [hprocess]
    exact .pure hready

theorem processAll (records : List Record) (hs : s.pool.Ready p.factory) :
    Ends p.factory (processAll p.factory records s) := by
  induction records generalizing s with
  | nil => exact .pure hs
  | cons r records ih =>
    refine (Ends.process h hfresh r hs).bind fun r reports s hs => ?_
    refine (ih hs).bind fun rest more s hs => ?_
    exact .pure hs

theorem processShares (shares : List (List Record)) (hs : s.pool.Ready p.factory) :
    Ends p.factory (processShares p.factory shares s) := by
  induction shares generalizing s with
  | nil => exact .pure hs
  | cons share shares ih =>
    refine (Ends.processAll h hfresh share hs).bind fun share reports s hs => ?_
    refine (ih hs).bind fun rest more s hs => ?_
    exact .pure hs

end Ends

/-! ## Runs -/

variable {env : Environment Id} {a : Arguments} {l : Loaded} {bytes : Bytes} {p : Progress}

/-- The events of a run are processed to the last one. -/
theorem runEvents_ends (hends : l.processor.factory.AlwaysEnds) {fresh : Session}
    (hfresh : l.processor.factory.create.Yields (.ok fresh))
    (hpool : l.pool.Ready l.processor.factory) (workers : Nat) (records : List Record)
    (p : Progress) : ∃ ending, runEvents l workers records p = some ending := by
  obtain ⟨shares, hgives⟩ := Ends.processShares (s := ⟨l.pool, l.clock, []⟩) hends hfresh
    (share (max workers 1) records) hpool
  obtain ⟨⟨shares, reports, s⟩, hprocess, -⟩ := Option.map_eq_some_iff.1 hgives.result
  unfold runEvents
  dsimp only
  rw [hprocess]
  exact ⟨_, rfl⟩

/-- A run whose guest has been loaded ends if each of its calls does. -/
theorem Opens.ends (h : Opens env a l bytes p) (hends : l.processor.factory.AlwaysEnds) :
    ∃ ending, runWith env a = some ending := by
  obtain ⟨fresh, capacity, hfresh, hpool⟩ := h.seed
  rw [h.runWith_eq]
  rcases readEvents (.ok bytes) p with ending | ⟨records, p'⟩
  · exact ⟨ending, rfl⟩
  · have hready : l.pool.Ready l.processor.factory := hpool ▸ .withSeed hfresh capacity
    exact runEvents_ends hends hfresh hready _ records p'

/-- Under a limit a guest is loaded or fails to load, and then no call of it goes on for ever. -/
theorem load_ends {config : ProcessorConfig} (h : config.engine.Limited) (path : String)
    (pace : Nat) (clock : Clock) (module : Except ProcessorError CompiledModule) (p : Progress) :
    (∃ ending, load path config pace clock module p = some (.error ending)) ∨
    ∃ l p', load path config pace clock module p = some (.ok (l, p')) ∧
      l.processor.factory.AlwaysEnds := by
  cases hvalid : config.validate with
  | error error =>
    unfold load
    rw [hvalid]
    exact .inl ⟨_, rfl⟩
  | ok u =>
    cases module with
    | error error =>
      unfold load
      rw [hvalid]
      exact .inl ⟨_, rfl⟩
    | ok module =>
      obtain ⟨trap, hlimits⟩ := h.meter module pace
      obtain ⟨made, hmade⟩ := SessionFactory.create_ends rfl hlimits
      obtain ⟨journal, hfollow⟩ :=
        (Processor.factoryOf module config pace).timeless_create.follow hmade Clock.host ⟨clock, []⟩
      obtain ⟨fail, told, hload⟩ := load_compiled hvalid path pace clock module p
      have hloaded := hload config.maxCachedSessions
      rw [hfollow] at hloaded
      rcases made with error | seed
      · exact .inl ⟨_, hloaded⟩
      · exact .inr ⟨_, _, hloaded, SessionFactory.alwaysEnds_of_limits hlimits⟩

/-- If its configuration limits a call, a run comes to its end, whatever its guest and its input
are. -/
theorem run_ends (env : Environment Id) (args : List String)
    (hlimited : ∀ a file, Arguments.parse args env.configVariable? = .ok a →
      loadConfig env a = .ok file → file.processor.engine.Limited) :
    ∃ ending, run env args = some ending := by
  cases hargs : Arguments.parse args env.configVariable? with
  | error stop =>
    unfold run
    rw [hargs]
    exact ⟨_, rfl⟩
  | ok a =>
  rw [run_eq_runWith hargs]
  -- Stage by stage: what fails ends the run.
  cases hfile : loadConfig env a with
  | error ending => exact ⟨ending, by simp only [runWith_eq, hfile]⟩
  | ok file =>
  cases hpath : (a.module? <|> file.module?.map (·.path)) with
  | none => exact ⟨_, by simp only [runWith_eq, hfile, hpath]; rfl⟩
  | some path =>
  cases hmodule : loadModule env path (a.progress file) with
  | error ending => exact ⟨ending, by simp only [runWith_eq, hfile, hpath, hmodule]⟩
  | ok module =>
  have hengine : (a.processor file).engine.Limited := hlimited a file hargs hfile
  rcases load_ends hengine path env.pace env.clock module (a.progress file) with
    ⟨ending, hload⟩ | ⟨l, p, hload, hends⟩
  · exact ⟨ending, by simp only [runWith_eq, hfile, hpath, hmodule, hload]⟩
  rcases hevents : openEvents env a.events? p with ending | reason | bytes
  · exact ⟨ending, by simp only [runWith_eq, hfile, hpath, hmodule, hload, hevents]⟩
  · exact ⟨_, by simp only [runWith_eq, hfile, hpath, hmodule, hload, hevents]; rfl⟩
  · exact (Opens.intro hfile hpath hmodule hload hevents).ends hends

-- Both limits are on by default.
example : EngineConfig.default.Limited := .inl rfl

end Cli

end EventSandbox
