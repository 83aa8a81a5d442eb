import EventSandbox.Processor.Nested
import EventSandbox.Proofs.Guest.Startup
import EventSandbox.Proofs.Processor.Process

/-!
# EventSandbox.Proofs.Processor.Sequence — calls one after another

Whoever makes one call after another does not see that there is a pool.

1. A processor that keeps a session uses that one for every event, and what the guest has in memory
   goes from event to event, whichever way each of them ends (`processAll_kept`).
2. A processor that keeps none makes a session for every event, always the same one
   (`processAll_fresh`).
-/

namespace EventSandbox

variable {ω : Type} {host : Run.Host ω}

/-! ## What is compared -/

/-- Processes events one after another; shows the state of the pool after each. -/
def Processor.processAll (p : Processor) (host : Run.Host (Pool Session × ω)) :
    List Fields → Pool Session × ω → Option (List (Outcome × PoolStats) × Pool Session × ω)
  | [], s => some ([], s)
  | event :: events, s => do
    let (outcome, pool, w) ← p.process host event s
    let (rest, s) ← p.processAll host events (pool, w)
    pure ((outcome, pool.stats) :: rest, s)

/-- Processes events one after another on one session. -/
def Session.processAll (host : Run.Host ω) :
    List Fields → Session × ω → Option (List Session.Ended × Session × ω)
  | [], s => some ([], s)
  | event :: events, (session, w) => do
    let (ended, w) ← (session.guestProcess event).follow host w
    let (rest, s) ← processAll host events (ended.session, w)
    pure (ended :: rest, s)

/-- Processes each event on the same new session. Something may happen whenever it is made. -/
def Session.processEach (fresh : Session) (host : Run.Host ω) (born : ω → ω) :
    List Fields → ω → Option (List Session.Ended × ω)
  | [], w => some ([], w)
  | event :: events, w => do
    let (ended, w) ← (fresh.guestProcess event).follow host (born w)
    let (rest, w) ← fresh.processEach host born events w
    pure (ended :: rest, w)

/-! ## A pool that keeps a session -/

variable {p : Processor} {session fresh : Session} {born : ω → ω}

theorem Processor.process_kept {capacity created : Nat} (hcapacity : 1 ≤ capacity) (event : Fields)
    (w : ω) :
    p.process host.beside event (⟨[session], capacity, created⟩, w) =
      ((session.guestProcess event).follow host w).map fun (ended, w) =>
        (ended.outcome, ⟨[ended.session], capacity, created⟩, w) := by
  rw [process_of_idle rfl]
  unfold visit
  rw [Run.follow_beside, Option.map_map]
  congr 1
  funext ⟨ended, w⟩
  have hput : (Pool.put ⟨[], capacity, created⟩ ended.session).2 =
      ⟨[ended.session], capacity, created⟩ :=
    congrArg Prod.snd (if_pos hcapacity)
  exact congrArg (fun pool => (ended.outcome, pool, w)) hput

/-- A processor with one idle session is that session. -/
theorem Processor.processAll_kept {capacity created : Nat} (hcapacity : 1 ≤ capacity)
    (events : List Fields) (session : Session) (w : ω) :
    p.processAll host.beside events (⟨[session], capacity, created⟩, w) =
      (Session.processAll host events (session, w)).map fun (ends, session, w) =>
        (ends.map fun ended => (ended.outcome, ⟨capacity, 1, created⟩),
          ⟨[session], capacity, created⟩, w) := by
  induction events generalizing session w with
  | nil => rfl
  | cons event events ih =>
    unfold processAll Session.processAll
    rw [process_kept hcapacity]
    -- If this event never ends, none of the later ones is reached.
    rcases (session.guestProcess event).follow host w with _ | ⟨ended, w⟩
    · rfl
    · show Option.bind (p.processAll host.beside events (⟨[ended.session], _, _⟩, w)) _ =
        Option.map _ (Option.bind (Session.processAll host events (ended.session, w)) _)
      rw [ih]
      cases Session.processAll host events (ended.session, w) <;> rfl

/-! ## A pool that keeps none -/

theorem Processor.process_fresh {created : Nat}
    (hfresh : ∀ w, p.factory.create.follow host w = some (.ok fresh, born w)) (event : Fields)
    (w : ω) :
    p.process host.beside event (⟨[], 0, created⟩, w) =
      ((fresh.guestProcess event).follow host (born w)).map fun (ended, w) =>
        (ended.outcome, ⟨[], 0, created + 1⟩, w) := by
  rw [process_of_empty rfl, Run.follow_beside, hfresh]
  show visit host.beside event fresh (⟨[], 0, created + 1⟩, born w) = _
  unfold visit
  rw [Run.follow_beside, Option.map_map]
  rfl

/-- A processor that keeps no session makes one for every event. -/
theorem Processor.processAll_fresh {created : Nat}
    (hfresh : ∀ w, p.factory.create.follow host w = some (.ok fresh, born w))
    (events : List Fields) (w : ω) :
    p.processAll host.beside events (⟨[], 0, created⟩, w) =
      (fresh.processEach host born events w).map fun (ends, w) =>
        (ends.mapIdx fun i ended => (ended.outcome, ⟨0, 0, created + i + 1⟩),
          ⟨[], 0, created + ends.length⟩, w) := by
  induction events generalizing created w with
  | nil => rfl
  | cons event events ih =>
    unfold processAll Session.processEach
    rw [process_fresh hfresh]
    rcases (fresh.guestProcess event).follow host (born w) with _ | ⟨ended, w⟩
    · rfl
    · show Option.bind (p.processAll host.beside events (⟨[], 0, created + 1⟩, w)) _ =
        Option.map _ (Option.bind (fresh.processEach host born events w) _)
      rw [ih]
      rcases fresh.processEach host born events w with _ | ⟨ends, w⟩
      · rfl
      · have hindex : ∀ i, created + (i + 1) + 1 = created + 1 + i + 1 := by omega
        have hlength : created + (ends.length + 1) = created + 1 + ends.length := by omega
        simp [List.mapIdx_cons, hindex, hlength, Pool.stats, Pool.idleCount]

/-- While the clock stands still, what becomes of an event depends on that event alone. -/
theorem Session.processEach_still {time : Int64} (h : ∀ w, host.now w = some (time, w))
    (events : List Fields) (w : ω) :
    (fresh.processEach host born events w).map Prod.fst =
      events.mapM fun event =>
        ((fresh.guestProcess event).follow (.still time) ()).map Prod.fst := by
  induction events generalizing w with
  | nil => rfl
  | cons event events ih =>
    rw [List.mapM_cons, ← Run.follow_still h _ (born w)]
    unfold processEach
    rcases (fresh.guestProcess event).follow host (born w) with _ | ⟨ended, w⟩
    · rfl
    · show Option.map _ (Option.bind (fresh.processEach host born events w) _) =
        Option.bind (events.mapM _) _
      rw [← ih w]
      cases fresh.processEach host born events w <;> rfl

/-! ## Either way -/

/-- Calls that are made one after another are calls of `guestProcess`: on one session throughout if
the processor keeps any, else on a new session each, always the same. `born` is what the host sees
when a session is made. A processor that keeps sessions never makes a second one; one that keeps
none makes one for every call, and what becomes of an event depends on that event alone, and on
the time. -/
theorem processAll_refines {config : ProcessorConfig}
    {module : Except ProcessorError CompiledModule} {pace : Nat} {p : Processor}
    {pool : Pool Session} (hbuild : (Processor.build config module pace).Yields (.ok (p, pool)))
    {ω : Type} (host : Run.Host ω) :
    ∃ (fresh : Session) (born : ω → ω),
      (∀ w, p.factory.create.follow host w = some (.ok fresh, born w)) ∧
      (1 ≤ config.maxCachedSessions.toNat →
        pool.stats = ⟨config.maxCachedSessions.toNat, 1, 0⟩ ∧
        ∀ events w, p.processAll host.beside events (pool, w) =
          (Session.processAll host events (fresh, w)).map fun (ends, session, w) =>
            (ends.map fun ended => (ended.outcome, ⟨config.maxCachedSessions.toNat, 1, 0⟩),
              ⟨[session], config.maxCachedSessions.toNat, 0⟩, w)) ∧
      (config.maxCachedSessions.toNat = 0 →
        pool.stats = ⟨0, 0, 0⟩ ∧
        (∀ events w, p.processAll host.beside events (pool, w) =
          (fresh.processEach host born events w).map fun (ends, w) =>
            (ends.mapIdx fun i ended => (ended.outcome, ⟨0, 0, i + 1⟩),
              ⟨[], 0, ends.length⟩, w)) ∧
        ∀ time, (∀ w, host.now w = some (time, w)) → ∀ events w,
          (fresh.processEach host born events w).map Prod.fst =
            events.mapM fun event =>
              ((fresh.guestProcess event).follow (.still time) ()).map Prod.fst) := by
  obtain ⟨fresh, hfresh, rfl⟩ := Processor.build_yields hbuild
  choose born hborn using p.factory.timeless_create.follow hfresh host
  refine ⟨fresh, born, hborn, fun hcapacity => ?_, fun hcapacity => ?_⟩
  · -- With room for one session the pool is that session, and it comes back after every event.
    have hpool : Pool.withSeed fresh config.maxCachedSessions.toNat =
        ⟨[fresh], config.maxCachedSessions.toNat, 0⟩ :=
      congrArg Prod.snd (if_pos hcapacity)
    rw [hpool]
    exact ⟨rfl, fun events w => Processor.processAll_kept hcapacity events fresh w⟩
  · -- Without room every event gets a session of its own.
    rw [hcapacity]
    refine ⟨rfl, fun events w => ?_, fun time hstill => Session.processEach_still hstill⟩
    have h := @Processor.processAll_fresh ω host p fresh born 0 hborn events w
    simp only [Nat.zero_add] at h
    exact h

/-- Steps that count the calls in a global and return the number, but trap in the second call. -/
def counting (i : Fin 4) : List Step :=
  [ .setGlobal i (.binary .add (.global i) (.const 1)),
    .branch (.binary .eq (.global i) (.const 2)) [.trap] [],
    .ret (.global i) ]

/-- On one session the count goes on after the trap; on new ones it never gets to it. -/
theorem processAll_refines_counting :
    (∃ ends : List Session.Ended, ends.map (·.result.toOption) = [some 1, none, some 3] ∧
      ((Processor.small (counting 0) 1).processAll Clock.host.beside [[], [], []]
        (Pool.withSeed (.small ⟨.steps [], .steps (counting 0)⟩ none) 1, ⟨⟨0, 0⟩, []⟩)).map
          Prod.fst =
        some (ends.map fun ended => (ended.outcome, ⟨1, 1, 0⟩))) ∧
    ∃ ends : List Session.Ended, ends.map (·.result.toOption) = [some 1, some 1, some 1] ∧
      ((Processor.small (counting 0) 0).processAll Clock.host.beside [[], [], []]
        (Pool.withSeed (.small ⟨.steps [], .steps (counting 0)⟩ none) 0, ⟨⟨0, 0⟩, []⟩)).map
          Prod.fst =
        some (ends.mapIdx fun i ended => (ended.outcome, ⟨0, 0, i + 1⟩)) := by
  let session := Session.small ⟨.steps [], .steps (counting 0)⟩ none
  have hnew : ∀ {n fresh born}, (∀ w, (Processor.small (counting 0) n).factory.create.follow
      Clock.host w = some (.ok fresh, born w)) → fresh = session ∧ born = id := by
    intro n fresh born hborn
    simp only [Processor.small_create, Run.follow, Option.some.injEq, Prod.mk.injEq,
      Except.ok.injEq] at hborn
    exact ⟨(hborn ⟨⟨0, 0⟩, []⟩).1.symm, funext fun w => (hborn w).2.symm⟩
  constructor
  · -- The session that is kept counts its calls, also the one that failed.
    obtain ⟨fresh, born, hborn, hkept, -⟩ :=
      processAll_refines (Processor.small_build (counting 0) 1) Clock.host
    obtain ⟨rfl, rfl⟩ := hnew hborn
    have hends : ((Session.processAll Clock.host [[], [], []] (session, ⟨⟨0, 0⟩, []⟩)).map fun r =>
        r.1.map (·.result.toOption)) = some [some 1, none, some 3] := by
      decide +kernel
    obtain ⟨⟨ends, rest⟩, hrun, hcodes⟩ := Option.map_eq_some_iff.1 hends
    refine ⟨ends, hcodes, (congrArg _ ((hkept (by decide)).2 _ _)).trans ?_⟩
    rw [hrun]
    rfl
  · -- Every session counts from the start.
    obtain ⟨fresh, born, hborn, -, hnone⟩ :=
      processAll_refines (Processor.small_build (counting 0) 0) Clock.host
    obtain ⟨rfl, rfl⟩ := hnew hborn
    have hends : ((session.processEach Clock.host id [[], [], []] ⟨⟨0, 0⟩, []⟩).map fun r =>
        r.1.map (·.result.toOption)) = some [some 1, some 1, some 1] := by
      decide +kernel
    obtain ⟨⟨ends, rest⟩, hrun, hcodes⟩ := Option.map_eq_some_iff.1 hends
    refine ⟨ends, hcodes, (congrArg _ ((hnone (by decide)).2.1 _ _)).trans ?_⟩
    rw [hrun]
    rfl

end EventSandbox
