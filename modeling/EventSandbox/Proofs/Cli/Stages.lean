import EventSandbox.Cli.Program
import EventSandbox.Proofs.Cli.Lines
import EventSandbox.Proofs.Guest.Startup

/-!
# EventSandbox.Proofs.Cli.Stages — a run up to its events

`Opens env a l bytes p` says that all goes well until the events are read: the configuration and the
module are found and load, and the stream of events can be opened. What is left of the run then
depends on nothing else (`Opens.runWith_eq`): the lines are read, all of them before any is
processed (`readEvents_text`, `readEvents_spoiled`).
-/

namespace EventSandbox.Cli

/-! ## Loading -/

/-- The configuration that a guest is loaded under: the command line counts before the file. -/
def Arguments.processor (a : Arguments) (file : ConfigFile) : ProcessorConfig :=
  { file.processor with
    maxCachedSessions := a.maxCachedSessions?.getD file.processor.maxCachedSessions }

/-- A run that has read its configuration. -/
def Arguments.progress (a : Arguments) (file : ConfigFile) : Progress :=
  ⟨file.log.filter, a.jsonLogs || file.log.json, []⟩

/-- A run, stage by stage. -/
theorem runWith_eq (env : Environment Id) (a : Arguments) :
    runWith env a =
      match loadConfig env a with
      | .error ending => some ending
      | .ok file =>
        match a.module? <|> file.module?.map (·.path) with
        | none => some ((a.progress file).fail [noModule])
        | some path =>
          match loadModule env path (a.progress file) with
          | .error ending => some ending
          | .ok module =>
            match load path (a.processor file) env.pace env.clock module (a.progress file) with
            | none => none
            | some (.error ending) => some ending
            | some (.ok (l, p)) =>
              match openEvents env a.events? p with
              | .error ending => some ending
              | .ok stream =>
                match readEvents stream p with
                | .error ending => some ending
                | .ok (records, p) => runEvents l (a.workers?.getD env.units).toNat records p :=
  rfl

/-- What is seen of a run from outside: its exit code and its output. -/
def Ending.shown (ending : Ending) : UInt8 × Bytes := (ending.exitCode, ending.output)

/-- Everything goes well until the events are read. -/
inductive Opens (env : Environment Id) (a : Arguments) : Loaded → Bytes → Progress → Prop
  | intro {file : ConfigFile} {path : String} {module : Except ProcessorError CompiledModule}
      {l : Loaded} {bytes : Bytes} {p : Progress} (hfile : loadConfig env a = .ok file)
      (hpath : (a.module? <|> file.module?.map (·.path)) = some path)
      (hmodule : loadModule env path (a.progress file) = .ok module)
      (hload : load path (a.processor file) env.pace env.clock module (a.progress file) =
        some (.ok (l, p)))
      (hevents : openEvents env a.events? p = .ok (.ok bytes)) : Opens env a l bytes p

variable {env : Environment Id} {a : Arguments} {l : Loaded} {bytes : Bytes} {p p' : Progress}

theorem run_eq_runWith {args : List String}
    (h : Arguments.parse args env.configVariable? = .ok a) : run env args = runWith env a := by
  unfold run
  rw [h]

/-- There is one way in which all can go well. -/
theorem Opens.unique {l' : Loaded} {bytes' : Bytes} (h : Opens env a l bytes p)
    (h' : Opens env a l' bytes' p') : l' = l ∧ bytes' = bytes ∧ p' = p := by
  obtain ⟨hfile, hpath, hmodule, hload, hevents⟩ := h
  obtain ⟨hfile', hpath', hmodule', hload', hevents'⟩ := h'
  obtain rfl := Except.ok.inj (hfile.symm.trans hfile')
  obtain rfl := Option.some.inj (hpath.symm.trans hpath')
  obtain rfl := Except.ok.inj (hmodule.symm.trans hmodule')
  cases hload.symm.trans hload'
  cases hevents.symm.trans hevents'
  exact ⟨rfl, rfl, rfl⟩

/-- What is left of the run. -/
theorem Opens.runWith_eq (h : Opens env a l bytes p) :
    runWith env a =
      match readEvents (.ok bytes) p with
      | .error ending => some ending
      | .ok (records, p) => runEvents l (a.workers?.getD env.units).toNat records p := by
  obtain ⟨hfile, hpath, hmodule, hload, hevents⟩ := h
  rw [Cli.runWith_eq]
  simp only [hfile, hpath, hmodule, hload, hevents]

/-- Loading a compiled module looks at the number of idle sessions only to make room for them. -/
theorem load_compiled {config : ProcessorConfig} (hvalid : config.validate = .ok ())
    (path : String) (pace : Nat) (clock : Clock) (module : CompiledModule) (p : Progress) :
    ∃ (fail : ProcessorError → Clock.Journal → Ending) (told : Clock.Journal → Progress),
      ∀ capacity : UInt64,
        load path { config with maxCachedSessions := capacity } pace clock (.ok module) p =
          ((Processor.factoryOf module config pace).create.follow Clock.host ⟨clock, []⟩).map
            fun (made, journal) =>
              match made with
              | .error error => .error (fail error journal)
              | .ok seed =>
                .ok (⟨⟨Processor.factoryOf module config pace, module.contentHash, config.params⟩,
                  Pool.withSeed seed capacity.toNat, journal.clock⟩, told journal) := by
  let heard (journal : Clock.Journal) : Progress :=
    ((p.tell [.engineReady]).tell [.moduleCompiled]).tell (journal.records.reverse.map .guest)
  refine ⟨fun error journal =>
      (heard journal).fail (("Failed to load module " ++ path) :: messagesOf error),
    fun journal => (heard journal).tell [.processorReady, .moduleLoaded path], ?_⟩
  intro capacity
  have hvalid' : ({ config with maxCachedSessions := capacity } : ProcessorConfig).validate =
      .ok () := hvalid
  unfold load
  rw [hvalid']
  dsimp only
  -- The first session is made before its pool, so only the pool depends on the number.
  let factory := Processor.factoryOf module config pace
  show Option.bind (Run.follow _ (Run.bind factory.create _) _) _ = _
  rw [Run.follow_bind]
  rcases factory.create.follow Clock.host ⟨clock, []⟩ with
    _ | ⟨_ | seed, journal⟩ <;> rfl

/-- A guest that loads has made a first session, which the pool has been built around. -/
theorem load_yields {path : String} {config : ProcessorConfig} {pace : Nat} {clock : Clock}
    {module : Except ProcessorError CompiledModule}
    (h : load path config pace clock module p = some (.ok (l, p'))) :
    (Processor.build config module pace).Yields (.ok (l.processor, l.pool)) := by
  unfold load at h
  unfold Processor.build
  dsimp only at h
  -- Each stage before the last one would have ended the loading.
  cases hvalid : config.validate with
  | error error =>
    rw [hvalid] at h
    cases h
  | ok u =>
    rw [hvalid] at h
    cases module with
    | error error => cases h
    | ok module =>
      obtain ⟨⟨built, journal⟩, hfollow, hbuilt⟩ := Option.bind_eq_some_iff.1 h
      cases built with
      | error error => cases hbuilt
      | ok built =>
        obtain ⟨processor, pool⟩ := built
        cases hbuilt
        exact Run.yields_of_follow hfollow

theorem Opens.seed (h : Opens env a l bytes p) :
    ∃ fresh capacity, l.processor.factory.create.Yields (.ok fresh) ∧
      l.pool = Pool.withSeed fresh capacity := by
  obtain ⟨-, -, -, hload, -⟩ := h
  obtain ⟨fresh, hfresh, hpool⟩ := Processor.build_yields (load_yields hload)
  exact ⟨fresh, _, hfresh, hpool⟩

/-! ## Reading -/

/-- What is reported of records that hold no event. -/
def invalidEvents (records : List Record) : List Report :=
  records.filterMap fun r => if r.event?.isNone then some (.invalidEvent r.line) else none

theorem readEvents_text (h : ∀ line ∈ splitLines bytes, IsText line) :
    readEvents (.ok bytes) p =
      .ok (recordsFrom 1 (splitLines bytes),
        p.tell (invalidEvents (recordsFrom 1 (splitLines bytes)))) := by
  unfold readEvents
  dsimp only
  rw [readRecords_text h]
  rfl

/-- The first line that is not text ends the run. -/
theorem readEvents_spoiled {before rest : List Bytes} {line : Bytes}
    (hlines : splitLines bytes = before ++ line :: rest) (hbefore : ∀ line ∈ before, IsText line)
    (hline : ¬ IsText line) :
    readEvents (.ok bytes) p =
      .error ((p.tell (invalidEvents (recordsFrom 1 before))).fail
        ["Failed to read line " ++ toString (1 + before.length), notUtf8]) := by
  unfold readEvents
  dsimp only
  rw [hlines, readRecords_spoiled hbefore hline]
  rfl

/-! ## A small world -/

/-- A world with one module, whose guest makes some steps, and some input. -/
def Environment.small (steps : List Step) (input : Bytes) : Environment Id where
  units := 2
  configVariable? := none
  find _ := .content ⟨Wasm.magic, some (CompiledModule.small steps).guest⟩
  input
  pace := Ticker.usualPace
  clock := ⟨0, 0⟩

/-- A command line that names a module. -/
def Arguments.small : Arguments := { empty with module? := some "g" }

theorem Arguments.parse_small : parse ["g"] none = .ok small := by decide +kernel

theorem loadModule_small (steps : List Step) (input : Bytes) (p : Progress) :
    loadModule (.small steps input) "g" p = .ok (.ok (.small steps)) := by
  unfold loadModule
  -- The module compiles alike whether the path says that it is in text form or not.
  cases isTextPath "g" with
  | false => rfl
  | true => rfl

/-- The configuration of a run in a small world. -/
def smallConfig : ProcessorConfig := Arguments.small.processor (.default 2)

/-- What is left of a run in a small world. -/
theorem run_small_eq (steps : List Step) (input : Bytes) :
    run (.small steps input) ["g"] =
      match load "g" smallConfig Ticker.usualPace ⟨0, 0⟩ (.ok (.small steps))
        (Arguments.small.progress (.default 2)) with
      | none => none
      | some (.error ending) => some ending
      | some (.ok (l, p)) =>
        match readEvents (.ok input) p with
        | .error ending => some ending
        | .ok (records, p) => runEvents l 2 records p := by
  have hconfig : loadConfig (.small steps input) .small = .ok (.default 2) := rfl
  have hpath : (Arguments.small.module? <|> (ConfigFile.default 2).module?.map (·.path)) =
      some "g" := rfl
  rw [run_eq_runWith Arguments.parse_small, runWith_eq, hconfig]
  dsimp only
  rw [hpath]
  dsimp only
  rw [loadModule_small]
  rfl

/-- What the sessions of the module of a small world are made from. -/
def smallFactory (steps : List Step) : SessionFactory :=
  Processor.factoryOf (.small steps) smallConfig Ticker.usualPace

theorem create_smallFactory (steps : List Step) :
    ∃ s, (smallFactory steps).create = .done (.ok s) ∧
      s.machine.exports? = some ⟨.steps [], .steps steps⟩ ∧ s.machine.memory.size = pageSize ∧
      Meter.ofBudget s.engine s.ticker s.budget = .ok ⟨some 10000000, some 100000000000⟩ := by
  have hmeter : Meter.ofBudget smallConfig.engine (.ticking Ticker.usualPace)
      (Budget.ofConfig smallConfig.engine smallConfig.execution) =
        .ok ⟨some 10000000, some 100000000000⟩ := rfl
  have hbytes : smallConfig.execution.maxMemoryBytes = 128 * 0x100000 := rfl
  -- The factory is made a variable so that its configuration is not computed at every step.
  generalize hf : smallFactory steps = f
  obtain ⟨m, hprepare, hsize⟩ : ∃ m, f.guest.prepare f.linker (128 * 0x100000)
      ⟨some 10000000, some 100000000000⟩ = .ok m ∧ m.memory.size = pageSize := by
    subst hf
    refine ⟨_, rfl, ?_⟩
    dsimp only
    rw [Memory.size_zeros]
    exact Nat.one_mul pageSize
  rw [← hbytes] at hprepare
  subst hf
  have hcreate := SessionFactory.create_of_prepared hmeter hprepare rfl
  exact ⟨_, hcreate, rfl, hsize, hmeter⟩

/-- Whatever its steps are, the module is ready for the events of its input. -/
theorem exists_opens_small (steps : List Step) :
    ∃ l p, (∀ input, Opens (.small steps input) .small l input p) ∧
      l.processor.factory = smallFactory steps := by
  have hvalid : smallConfig.validate = .ok () := rfl
  obtain ⟨fail, told, hload⟩ := load_compiled hvalid "g" Ticker.usualPace ⟨0, 0⟩ (.small steps)
    (Arguments.small.progress (.default 2))
  obtain ⟨s, hcreate, -⟩ := create_smallFactory steps
  refine ⟨⟨⟨smallFactory steps, "", []⟩, Pool.withSeed s 2, ⟨0, 0⟩⟩, told ⟨⟨0, 0⟩, []⟩,
    fun input => ?_, rfl⟩
  refine .intro rfl rfl (loadModule_small steps input _) ((hload 2).trans ?_) rfl
  unfold smallFactory at hcreate
  rw [hcreate]
  rfl

/-- Of three lines one is blank and one holds no event; the one that is left is written again. -/
theorem run_small :
    (run (.small [] (utf8 "\x7b\x7d\n\n[]")) ["g"]).map Ending.shown =
      some (1, utf8 "\x7b\x7d\n") := by
  rw [run_small_eq]
  decide +kernel

end EventSandbox.Cli
