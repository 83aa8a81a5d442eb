import EventSandbox.Proofs.Cli.Schedule
import EventSandbox.Proofs.Cli.Stages
import EventSandbox.Proofs.Processor.Independent

/-!
# EventSandbox.Proofs.Cli.Confluence — what workers and idle sessions change

The number of workers says how the records are divided, and that of idle sessions how often a new
session is made. If the guest lets nothing of its earlier events show, neither can be seen in what a
run writes: each record becomes what it becomes alone in a new session (`Record.alone`).

1. So it is in every order in which a crew may make its steps (`Crew.Booked.alone`).
2. So it is in a run, which fails to come to its end just if one of its records alone would
   (`runEvents_alone`).
3. Up to its events a run goes the same way whatever the two numbers are (`runWith_resized`).
-/

namespace EventSandbox.Cli

variable {f : SessionFactory} {fresh : Session} {time : Int64}

/-! ## Records -/

/-- What becomes of a record that is processed alone in a session; nothing if the guest never comes
back. -/
def Record.alone (fresh : Session) (time : Int64) (r : Record) : Option Record :=
  match r.event? with
  | none => some r
  | some event => (fresh.alone time event).map (Record.finish r.line)

/-- In every interleaving a record becomes what it becomes alone. -/
theorem Task.Became.alone {t : Traffic} (ht : t.Isolated f) (h : f.HistoryIndependent)
    (hfresh : f.create.Yields (.ok fresh)) (time : Int64) {task : Task} {r : Record}
    (hbecame : task.Became t r) : some r = task.record.alone fresh time := by
  cases hbecame with
  | blank line => rfl
  | @visited line client past hclient hpast hvisit hevent halone =>
    have houtcome := ht.outcome_eq h hfresh hvisit time
    show _ = Option.map _ (fresh.alone time client.event)
    rw [← hevent, ← houtcome]
    rfl

/-- Whatever the order of steps was, the records that workers have put down in the end are what
those of the input become alone. -/
theorem Crew.Booked.alone {shares : List (List Record)} {c : Crew} {t : Traffic}
    {desks : List Desk} (hbooked : c.Booked shares t desks) (ht : t.Isolated f) (hdone : c.Done)
    (h : f.HistoryIndependent) (hfresh : f.create.Yields (.ok fresh)) (time : Int64) :
    shares.flatten.map (Record.alone fresh time) = c.records.map some := by
  obtain ⟨htaken, -⟩ := hbooked.done hdone
  have hbecame := hbooked.became ht hdone
  rw [← htaken]
  generalize tasksOf desks = tasks at hbecame
  generalize c.records = records at hbecame
  induction hbecame with
  | nil => rfl
  | cons htask _ ih =>
    rw [List.map_cons, List.map_cons, List.map_cons, ih, htask.alone ht h hfresh time]

/-! ## Worker after worker -/

/-- What a part of a run gives, and that it leaves the pool with sessions of the guest only. -/
structure Gives {α : Type} (f : SessionFactory) (x : Option (α × List Report × Shared))
    (a? : Option α) : Prop where
  result : x.map Prod.fst = a?
  ready : ∀ r ∈ x, r.2.2.pool.Ready f

namespace Gives

variable {α β : Type}

theorem pure {a : α} {reports : List Report} {s : Shared} (h : s.pool.Ready f) :
    Gives f (some (a, reports, s)) (some a) := by
  refine ⟨rfl, ?_⟩
  rintro _ ⟨⟩
  exact h

theorem bind {x : Option (α × List Report × Shared)} {a? : Option α} (h : Gives f x a?)
    {k : α × List Report × Shared → Option (β × List Report × Shared)} {g : α → Option β}
    (hk : ∀ a reports s, s.pool.Ready f → Gives f (k (a, reports, s)) (g a)) :
    Gives f (x.bind k) (a?.bind g) := by
  obtain ⟨rfl, hready⟩ := h
  cases x with
  | none => exact ⟨rfl, nofun⟩
  | some r => exact hk r.1 r.2.1 r.2.2 (hready r rfl)

variable {p : Processor} {s : Shared} (h : p.factory.HistoryIndependent)
  (hfresh : p.factory.create.Yields (.ok fresh)) (time : Int64)

include h hfresh

theorem process (r : Record) (hs : s.pool.Ready p.factory) :
    Gives p.factory (r.process p.factory s) (r.alone fresh time) := by
  rw [Record.process_eq]
  unfold Record.alone
  cases r.event? with
  | none => exact .pure hs
  | some event =>
    have hclock : ∀ j, (Clock.host.now j).isSome := fun _ => rfl
    obtain ⟨houtcome, hready⟩ :=
      p.process_alone h hfresh hclock hs event ⟨s.clock, []⟩ time
    -- The pool is as it should be whatever the event became.
    constructor
    · dsimp only
      rw [← houtcome, Option.map_map, Option.map_map]
      rfl
    · intro r hr
      obtain ⟨⟨outcome, pool, journal⟩, hprocess, rfl⟩ := Option.map_eq_some_iff.1 hr
      exact hready _ hprocess

theorem processAll (records : List Record) (hs : s.pool.Ready p.factory) :
    Gives p.factory (processAll p.factory records s) (records.mapM (Record.alone fresh time)) := by
  induction records generalizing s with
  | nil => exact .pure hs
  | cons r records ih =>
    rw [List.mapM_cons]
    refine (Gives.process h hfresh time r hs).bind fun r reports s hs => ?_
    refine (ih hs).bind fun rest more s hs => ?_
    exact .pure hs

theorem processShares (shares : List (List Record)) (hs : s.pool.Ready p.factory) :
    Gives p.factory (processShares p.factory shares s)
      (shares.mapM (List.mapM (Record.alone fresh time))) := by
  induction shares generalizing s with
  | nil => exact .pure hs
  | cons share shares ih =>
    rw [List.mapM_cons]
    refine (Gives.processAll h hfresh time share hs).bind fun share reports s hs => ?_
    refine (ih hs).bind fun rest more s hs => ?_
    exact .pure hs

end Gives

/-- Processing lists of records one after another is processing all of them. -/
theorem mapM_flatten {α β : Type} (g : α → Option β) (lists : List (List α)) :
    (lists.mapM (List.mapM g)).map List.flatten = lists.flatten.mapM g := by
  induction lists with
  | nil => rfl
  | cons list lists ih =>
    rw [List.mapM_cons, List.flatten_cons, List.mapM_append, ← ih]
    cases list.mapM g with
    | none => rfl
    | some made => cases lists.mapM (List.mapM g) <;> rfl

/-! ## Runs -/

/-- What is seen of a run that ends with some records. -/
def shownOf (records : List Record) : UInt8 × Bytes :=
  (if failures records = 0 then 0 else 1, output records)

/-- A run shows what its records become alone, whatever the number of workers is. -/
theorem runEvents_alone {l : Loaded} (h : l.processor.factory.HistoryIndependent)
    (hfresh : l.processor.factory.create.Yields (.ok fresh))
    (hpool : l.pool.Ready l.processor.factory) (time : Int64) (workers : Nat)
    (records : List Record) (p : Progress) :
    (runEvents l workers records p).map Ending.shown =
      (records.mapM (Record.alone fresh time)).map shownOf := by
  have hworkers : 1 ≤ max workers 1 := Nat.le_max_right _ _
  have hstart : (Shared.mk l.pool l.clock []).pool.Ready l.processor.factory := hpool
  have hgives := Gives.processShares h hfresh time (share (max workers 1) records) hstart
  rw [← flatten_share hworkers records, ← mapM_flatten, ← hgives.result]
  unfold runEvents
  rw [Option.map_map, Option.map_map]
  simp only [flatten_share hworkers]
  cases processShares l.processor.factory (share (max workers 1) records) ⟨l.pool, l.clock, []⟩ <;>
    rfl

/-! ## Stages that do not see the two numbers -/

/-- Loading fails alike whatever the number of idle sessions is, or it gives the same processor. -/
theorem load_alike (config : ProcessorConfig) (capacity : UInt64) (path : String) (pace : Nat)
    (clock : Clock) (module : Except ProcessorError CompiledModule) (p : Progress) :
    (∃ stop? : Option Ending, load path config pace clock module p = stop?.map .error ∧
      load path { config with maxCachedSessions := capacity } pace clock module p =
        stop?.map .error) ∨
    ∃ l l' p', load path config pace clock module p = some (.ok (l, p')) ∧
      load path { config with maxCachedSessions := capacity } pace clock module p =
        some (.ok (l', p')) ∧
      l'.processor = l.processor := by
  have hvalidate : ({ config with maxCachedSessions := capacity } : ProcessorConfig).validate =
      config.validate := rfl
  cases hvalid : config.validate with
  | error error =>
    rw [hvalid] at hvalidate
    unfold load
    rw [hvalid, hvalidate]
    exact .inl ⟨some _, rfl, rfl⟩
  | ok u =>
    cases module with
    | error error =>
      rw [hvalid] at hvalidate
      unfold load
      rw [hvalid, hvalidate]
      exact .inl ⟨some _, rfl, rfl⟩
    | ok module =>
      -- The first session is made before there is a pool to keep it.
      obtain ⟨fail, told, hload⟩ := load_compiled hvalid path pace clock module p
      have hsame := hload config.maxCachedSessions
      rw [hload capacity, hsame]
      rcases (Processor.factoryOf module config pace).create.follow Clock.host ⟨clock, []⟩ with
        _ | ⟨error | seed, journal⟩
      · exact .inl ⟨none, rfl, rfl⟩
      · exact .inl ⟨some _, rfl, rfl⟩
      · exact .inr ⟨_, _, _, rfl, rfl, rfl⟩

/-- A command line that asks for other numbers. -/
def Arguments.resized (a : Arguments) (workers? maxCachedSessions? : Option UInt64) : Arguments :=
  { a with workers?, maxCachedSessions? }

section Resized

variable {env : Environment Id} {a : Arguments} {workers? maxCachedSessions? : Option UInt64}

@[simp] theorem loadConfig_resized :
    loadConfig env (a.resized workers? maxCachedSessions?) = loadConfig env a := rfl

@[simp] theorem Arguments.module_resized :
    (a.resized workers? maxCachedSessions?).module? = a.module? := rfl

@[simp] theorem Arguments.events_resized :
    (a.resized workers? maxCachedSessions?).events? = a.events? := rfl

@[simp] theorem Arguments.progress_resized :
    (a.resized workers? maxCachedSessions?).progress = a.progress := rfl

theorem Arguments.processor_resized (file : ConfigFile) :
    (a.resized workers? maxCachedSessions?).processor file =
      { a.processor file with
        maxCachedSessions := maxCachedSessions?.getD file.processor.maxCachedSessions } := rfl

/-- A run with other numbers goes the same way, or at least as far as to its events and with the
same processor. -/
theorem runWith_resized (env : Environment Id) (a : Arguments)
    (workers? maxCachedSessions? : Option UInt64) :
    runWith env (a.resized workers? maxCachedSessions?) = runWith env a ∨
      ∃ l l' bytes p, Opens env a l bytes p ∧
        Opens env (a.resized workers? maxCachedSessions?) l' bytes p ∧
        l'.processor = l.processor := by
  rw [runWith_eq, runWith_eq]
  simp only [loadConfig_resized, Arguments.module_resized, Arguments.events_resized,
    Arguments.progress_resized]
  -- The stages are gone through one by one. Only the loading of the processor reads a number, and
  -- the number of workers is not read before the events.
  cases hfile : loadConfig env a with
  | error ending => exact .inl rfl
  | ok file =>
    dsimp only
    cases hpath : a.module? <|> file.module?.map (·.path) with
    | none => exact .inl rfl
    | some path =>
      dsimp only
      cases hmodule : loadModule env path (a.progress file) with
      | error ending => exact .inl rfl
      | ok module =>
        dsimp only
        rw [Arguments.processor_resized]
        rcases load_alike (a.processor file) _ path env.pace env.clock module (a.progress file) with
          ⟨stop?, hload, hload'⟩ | ⟨l, l', p, hload, hload', hprocessor⟩
        · rw [hload, hload']
          cases stop? <;> exact .inl rfl
        · rw [hload, hload']
          dsimp only
          rcases hevents : openEvents env a.events? p with ending | reason | bytes
          · exact .inl rfl
          · exact .inl rfl
          · exact .inr ⟨l, l', bytes, p, .intro hfile hpath hmodule hload hevents,
              .intro hfile hpath hmodule hload' hevents, hprocessor⟩

end Resized

/-! ## Any numbers and any order -/

variable {env : Environment Id} {args args' : List String} {a : Arguments} {l : Loaded}
  {bytes : Bytes} {p : Progress} {workers? maxCachedSessions? : Option UInt64}

/-- What is seen of a run from its events on does not depend on the numbers that it is given. -/
theorem Opens.shown (hopens : Opens env a l bytes p) (h : l.processor.factory.HistoryIndependent)
    (hfresh : l.processor.factory.create.Yields (.ok fresh)) (time : Int64) :
    (runWith env a).map Ending.shown =
      match readEvents (.ok bytes) p with
      | .error ending => some ending.shown
      | .ok (records, _) => (records.mapM (Record.alone fresh time)).map shownOf := by
  obtain ⟨seed, capacity, hseed, hpool⟩ := hopens.seed
  have hready : l.pool.Ready l.processor.factory := by
    rw [hpool]
    exact .withSeed hseed capacity
  rw [hopens.runWith_eq]
  rcases readEvents (.ok bytes) p with ending | ⟨records, p⟩
  · rfl
  · exact runEvents_alone h hfresh hready time _ records p

/-- If the guest lets nothing of its earlier events show, a run shows the same whatever the number
of workers and that of idle sessions is, and so it does in every order in which the workers may make
their steps: each record becomes what it becomes alone in a new session. -/
theorem run_confluent (hargs : Arguments.parse args env.configVariable? = .ok a)
    (hargs' : Arguments.parse args' env.configVariable? =
      .ok (a.resized workers? maxCachedSessions?))
    (h : ∀ l bytes p, Opens env a l bytes p → l.processor.factory.HistoryIndependent) :
    (run env args').map Ending.shown = (run env args).map Ending.shown ∧
      ∀ l bytes p, Opens env a l bytes p →
        ∃ fresh, l.processor.factory.create.Yields (.ok fresh) ∧ ∀ time,
          (∀ records p', readEvents (.ok bytes) p = .ok (records, p') →
            (run env args).map Ending.shown =
              (records.mapM (Record.alone fresh time)).map shownOf) ∧
          ∀ workers records, 1 ≤ workers →
            Divided workers records (share workers records) ∧
            ∀ capacity clock log c,
              Crew.Reachable l.processor.factory ⟨Pool.withSeed fresh capacity, clock, log⟩
                (share workers records) c →
              c.Done → records.map (Record.alone fresh time) = c.records.map some := by
  rw [run_eq_runWith hargs, run_eq_runWith hargs']
  constructor
  · -- Either both runs stop before the events, or both process them with the same processor.
    rcases runWith_resized env a workers? maxCachedSessions? with
      hsame | ⟨l, l', bytes, p, hopens, hopens', hprocessor⟩
    · rw [hsame]
    · have hindependent := h l bytes p hopens
      obtain ⟨fresh, -, hfresh, -⟩ := hopens.seed
      rw [hopens.shown hindependent hfresh 0]
      rw [← hprocessor] at hindependent hfresh
      exact hopens'.shown hindependent hfresh 0
  · -- In any crew each record becomes what it becomes alone, so the order of steps cannot be seen.
    intro l bytes p hopens
    have hindependent := h l bytes p hopens
    obtain ⟨fresh, -, hfresh, -⟩ := hopens.seed
    refine ⟨fresh, hfresh, fun time => ⟨?_, ?_⟩⟩
    · intro records p' hread
      rw [hopens.shown hindependent hfresh time, hread]
    · intro workers records hworkers
      have hdivided := divided_share hworkers records
      refine ⟨hdivided, ?_⟩
      intro capacity clock log c hc hdone
      obtain ⟨k, t, desks, -, hbooked, hisolated⟩ := hc.isolated hfresh
      have halone := hbooked.alone hisolated hdone hindependent hfresh time
      rw [hdivided.flatten] at halone
      exact halone

/-! ## A guest that stamps its events -/

/-- The guest that stamps its events has all it needs in a small world. -/
theorem stamper_smallFactory {fresh : Session}
    (hfresh : (smallFactory stamping).create.Yields (.ok fresh)) : Stamper fresh := by
  obtain ⟨s, hcreate, hexports, hsize, hmeter⟩ := create_smallFactory stamping
  rw [hcreate, Run.yields_done, Except.ok.injEq] at hfresh
  subst hfresh
  refine ⟨hexports, ⟨_, hmeter, rfl⟩, ?_⟩
  rw [hsize]
  decide

/-- Of four lines one is blank and one holds no event. -/
def smallInput : Bytes := utf8 "[]\n\x7b\"a\":null\x7d\n\n\x7b\"b\":true\x7d"

/-- What the guest makes of its events. -/
def smallOutput : Bytes :=
  utf8 "\x7b\"\":[7],\"a\":null\x7d\n\x7b\"\":[7],\"b\":true\x7d\n"

theorem run_stamping_small :
    (run (.small stamping smallInput) ["g"]).map Ending.shown = some (1, smallOutput) := by
  rw [run_small_eq]
  decide +kernel

theorem recordsFrom_smallInput : recordsFrom 1 (splitLines smallInput) =
    [⟨1, none⟩, ⟨2, some [("a", .null)]⟩, ⟨4, some [("b", .bool true)]⟩] := rfl

/-- Three workers and no idle sessions, against two of each. Of the two workers each has an event,
and stamps it. -/
theorem run_confluent_small :
    (run (.small stamping smallInput) ["-w", "3", "--max-cached-sessions=0", "g"]).map
      Ending.shown = some (1, smallOutput) ∧
    ∃ (fresh : Session) (capacity : Nat) (clock : Clock) (c : Crew),
      Crew.Reachable (smallFactory stamping) ⟨Pool.withSeed fresh capacity, clock, []⟩
        [[⟨1, none⟩, ⟨2, some [("a", .null)]⟩], [⟨4, some [("b", .bool true)]⟩]] c ∧
      c.Done ∧ c.records.map some =
        [some ⟨1, none⟩, some ⟨2, some [("", stamp), ("a", .null)]⟩,
          some ⟨4, some [("", stamp), ("b", .bool true)]⟩] := by
  have hargs' : Arguments.parse ["-w", "3", "--max-cached-sessions=0", "g"] none =
      .ok (Arguments.small.resized (some 3) (some 0)) := by decide +kernel
  obtain ⟨l, p, hopens, hfactory⟩ := exists_opens_small stamping
  have h : ∀ l bytes p, Opens (.small stamping smallInput) .small l bytes p →
      l.processor.factory.HistoryIndependent := by
    intro l' bytes p' hopens'
    obtain ⟨rfl, -, -⟩ := (hopens _).unique hopens'
    rw [hfactory]
    exact historyIndependent_of_stamper fun _ => stamper_smallFactory
  obtain ⟨hsame, hall⟩ := run_confluent Arguments.parse_small hargs' h
  obtain ⟨fresh, hfresh, halone⟩ := hall l _ p (hopens _)
  obtain ⟨-, hcrew⟩ := halone 0
  obtain ⟨-, hrecords⟩ := hcrew 2 (recordsFrom 1 (splitLines smallInput)) (by decide)
  obtain ⟨seed, capacity, hseed, hpool⟩ := (hopens smallInput).seed
  rw [hfactory] at hfresh hseed hrecords
  have hstamper := stamper_smallFactory hfresh
  -- The run itself lets worker after worker finish, which is one of the orders, and it begins with
  -- a session like any other new one.
  obtain ⟨ending, hending, -⟩ := Option.map_eq_some_iff.1 run_stamping_small
  have htext : ∀ line ∈ splitLines smallInput, IsText line := by decide +kernel
  rw [run_eq_runWith Arguments.parse_small, (hopens _).runWith_eq, readEvents_text htext] at hending
  obtain ⟨c, -, hc, hdone, -⟩ := runEvents_done hending
  obtain ⟨s, hcreate, -⟩ := create_smallFactory stamping
  rw [hcreate, Run.yields_done, Except.ok.injEq] at hfresh hseed
  obtain rfl : seed = fresh := hseed.symm.trans hfresh
  rw [hpool, hfactory] at hc
  refine ⟨hsame.trans run_stamping_small, seed, capacity, l.clock, c, hc, hdone, ?_⟩
  rw [← hrecords capacity l.clock [] c hc hdone, recordsFrom_smallInput]
  simp only [List.map, Record.alone, hstamper.alone]
  rfl

end EventSandbox.Cli
