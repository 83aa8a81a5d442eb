import EventSandbox.Proofs.Processor.Traffic

/-!
# EventSandbox.Proofs.Processor.Process — one call that nobody interrupts

`Processor.process` in two cases: the pool has a session idle (`process_of_idle`) or has none
(`process_of_empty`). Either way what follows is one visit, after which the session goes back.

The same are steps of one call (`Call.Steps.process`), and so one of the orders in which calls may
make their steps (`Calls.Reachable.process`).
-/

namespace EventSandbox

namespace Processor

variable {ω : Type} {p : Processor} {host : Run.Host (Pool Session × ω)} {event : Fields}
  {pool popped : Pool Session} {session : Session} {w : ω}

/-- What a call does that has a session. -/
def visit (host : Run.Host (Pool Session × ω)) (event : Fields) (session : Session)
    (s : Pool Session × ω) : Option (Outcome × Pool Session × ω) :=
  ((session.guestProcess event).follow host s).map fun (ended, pool, w) =>
    (ended.outcome, (pool.put ended.session).2, w)

theorem process_of_idle (hpop : pool.pop = (some session, popped)) :
    p.process host event (pool, w) = visit host event session (popped, w) := by
  unfold process acquire
  dsimp only
  rw [hpop]
  exact Option.map_eq_bind.symm

theorem process_of_empty (hpop : pool.pop = (none, popped)) :
    p.process host event (pool, w) =
      (p.factory.create.follow host (popped, w)).bind fun (made, pool, w) =>
        match made with
        | .error error => some (⟨.error error, event⟩, pool, w)
        | .ok session => visit host event session (pool.countBuilt, w) := by
  unfold process acquire
  dsimp only
  rw [hpop]
  dsimp only
  rcases p.factory.create.follow host (popped, w) with _ | ⟨_ | session, pool, w⟩
  · rfl
  · rfl
  · exact Option.map_eq_bind.symm

end Processor

/-! ## As steps among others -/

/-- Whether a run has a step to make. -/
def Run.goesOn {α : Type} : Run α → Bool
  | .done _ | .endless => false
  | _ => true

namespace Call

/-- A call makes some steps, and nobody else does. -/
inductive Steps (f : SessionFactory) : Call → Shared → Call → Shared → Prop
  | refl (call : Call) (s : Shared) : Steps f call s call s
  | next {call call' : Call} {s s' : Shared}
      (h : Steps f (call.step f s).1 (call.step f s).2 call' s') : Steps f call s call' s'

namespace Steps

variable {f : SessionFactory} {s s' s'' : Shared} {call call' call'' : Call} {event : Fields}
  {outcome : Outcome} {pool : Pool Session} {journal : Clock.Journal}

theorem trans (h : Steps f call s call' s') (h' : Steps f call' s' call'' s'') :
    Steps f call s call'' s'' := by
  induction h with
  | refl => exact h'
  | next _ ih => exact .next (ih h')

/-- A call follows a computation to its end. -/
theorem follow {α : Type} {during : Run α → Call} {run : Run α} {a : α}
    (hstep : ∀ s run, run.goesOn →
      (during run).step f s = (during (stepRun s run).1, (stepRun s run).2))
    (hrun : run.follow Clock.host ⟨s.clock, s.records⟩ = some (a, journal)) :
    Steps f (during run) s (during (.done a)) ⟨s.pool, journal.clock, journal.records⟩ := by
  -- It is enough to make one step and to follow what is left.
  have hnext : ∀ {s run s'}, run.goesOn →
      Steps f (during (stepRun s run).1) (stepRun s run).2 (during (.done a)) s' →
      Steps f (during run) s (during (.done a)) s' := by
    intro s run s' hgoes h
    refine .next ?_
    rw [hstep s run hgoes]
    exact h
  induction run generalizing s with
  | done b =>
    cases hrun
    exact .refl _ _
  | endless => cases hrun
  | pause next ih => exact hnext rfl (ih () hrun)
  | mark what next ih => exact hnext rfl (ih () hrun)
  | emit entry next ih => exact hnext rfl (@ih () { s with records := entry :: s.records } hrun)
  | readClock resume ih =>
    exact hnext rfl (@ih _ { s with clock := s.clock.advance } hrun)

/-- A call that has a session makes its visit and gives the session back. -/
theorem visit {session : Session}
    (hvisit : Processor.visit Clock.host.beside event session (s.pool, ⟨s.clock, s.records⟩) =
      some (outcome, pool, journal)) :
    Steps f (.running (session.guestProcess event)) s (.finished outcome)
      ⟨pool, journal.clock, journal.records⟩ := by
  have hstep : ∀ s (run : Run Session.Ended), run.goesOn → (running run).step f s =
      (running (stepRun s run).1, (stepRun s run).2) := by
    intro s run hgoes
    cases run with
    | done | endless => cases hgoes
    | _ => rfl
  unfold Processor.visit at hvisit
  rw [Run.follow_beside, Option.map_map] at hvisit
  obtain ⟨⟨ended, journal⟩, hrun, ⟨⟩⟩ := Option.map_eq_some_iff.1 hvisit
  exact (follow hstep hrun).trans (.next (.next (.refl _ _)))

/-- A call that nobody interrupts is `Processor.process`. -/
theorem process {p : Processor}
    (hprocess : p.process Clock.host.beside event (s.pool, ⟨s.clock, s.records⟩) =
      some (outcome, pool, journal)) :
    Steps p.factory (.waiting event) s (.finished outcome)
      ⟨pool, journal.clock, journal.records⟩ := by
  -- Every step of the building is a step of the call.
  have hstep : ∀ s (run : Run (Except ProcessorError Session)), run.goesOn →
      (building event run).step p.factory s =
        (building event (stepRun s run).1, (stepRun s run).2) := by
    intro s run hgoes
    cases run with
    | done | endless => cases hgoes
    | _ => rfl
  refine .next ?_
  rcases hpop : s.pool.pop with ⟨_ | session, popped⟩
  · -- A new session is made first, which may fail.
    rw [Processor.process_of_empty hpop, Run.follow_beside] at hprocess
    rw [step_miss hpop]
    obtain ⟨_, hmade, hrest⟩ := Option.bind_eq_some_iff.1 hprocess
    obtain ⟨⟨made, between⟩, hrun, rfl⟩ := Option.map_eq_some_iff.1 hmade
    have hfollow := follow (s := { s with pool := popped }) hstep hrun
    refine hfollow.trans (.next ?_)
    cases made with
    | error error =>
      cases hrest
      exact .refl _ _
    | ok session => exact .next (visit hrest)
  · rw [Processor.process_of_idle hpop] at hprocess
    rw [step_take hpop]
    exact visit hprocess

end Steps

/-! ## Without what was logged before -/

/-- A step adds to the log, and does not look at it. -/
theorem step_log (f : SessionFactory) (s : Shared) (old : List LogRecord) (call : Call) :
    call.step f { s with records := s.records ++ old } =
      ((call.step f s).1,
        { (call.step f s).2 with records := (call.step f s).2.records ++ old }) := by
  cases call with
  | waiting event =>
    rcases hpop : s.pool.pop with ⟨_ | session, pool⟩
    · rw [step_miss hpop]
      exact step_miss hpop
    · rw [step_take hpop]
      exact step_take hpop
  | building event run =>
    rcases run with (error | session) | _ | _ | _ | _ | _ <;> rfl
  | running run =>
    cases run <;> rfl
  | built | returning | finished | lost => rfl

theorem Steps.log {f : SessionFactory} {s s' : Shared} {call call' : Call}
    (h : Steps f call s call' s') (old : List LogRecord) :
    Steps f call { s with records := s.records ++ old } call'
      { s' with records := s'.records ++ old } := by
  induction h with
  | refl => exact .refl _ _
  | next _ ih =>
    refine .next ?_
    rw [step_log]
    exact ih

/-! ## In two parts -/

theorem follow_toClock {α : Type} (run : Run α) (clock : Clock) (records : List LogRecord) :
    (run.toClock records).1.follow Clock.host ⟨clock, (run.toClock records).2⟩ =
      run.follow Clock.host ⟨clock, records⟩ := by
  induction run generalizing records with
  | done | endless | readClock => rfl
  | pause rest ih => exact ih () records
  | mark what rest ih => exact ih () records
  | emit entry rest ih => exact ih () (entry :: records)

/-- What the end of a call leaves behind, as calls share it. -/
def leave (ending : Outcome × Pool Session × Clock.Journal) : Outcome × Shared :=
  (ending.1, ⟨ending.2.1, ending.2.2.clock, ending.2.2.records⟩)

theorem toEnd_settle (s : Shared) (event : Fields) (session : Session) :
    (settle s (session.guestProcess event)).1.toEnd (settle s (session.guestProcess event)).2 =
      (Processor.visit Clock.host.beside event session (s.pool, ⟨s.clock, s.records⟩)).map
        leave := by
  unfold Processor.visit settle toEnd followAlone
  dsimp only
  rw [follow_toClock, Run.follow_beside]
  cases (session.guestProcess event).follow Clock.host ⟨s.clock, s.records⟩ <;> rfl

/-- A call that is stopped where its guest asks for the time, and then goes on, is
`Processor.process`. -/
theorem toEnd_toClock (p : Processor) (s : Shared) (event : Fields) :
    (toClock p.factory s event).1.toEnd (toClock p.factory s event).2 =
      (p.process Clock.host.beside event (s.pool, ⟨s.clock, s.records⟩)).map leave := by
  unfold toClock
  rcases hpop : s.pool.pop with ⟨_ | session, popped⟩
  · rw [Processor.process_of_empty hpop, Run.follow_beside]
    dsimp only
    unfold followAlone
    rcases p.factory.create.follow Clock.host ⟨s.clock, s.records⟩ with
      _ | ⟨error | session, journal⟩
    · rfl
    · rfl
    · exact toEnd_settle ⟨popped.countBuilt, journal.clock, journal.records⟩ event session
  · rw [Processor.process_of_idle hpop]
    exact toEnd_settle { s with pool := popped } event session

end Call

namespace Calls.Reachable

variable {f : SessionFactory} {k : Nat} {before s s' : Shared} {rest : Multiset Call}
  {call call' : Call} {event : Fields} {outcome : Outcome} {pool : Pool Session}
  {journal : Clock.Journal}

/-- Steps of one call are steps of the calls. -/
theorem steps (h : Reachable f k before ⟨s, call ::ₘ rest⟩) (hsteps : call.Steps f s call' s') :
    Reachable f k before ⟨s', call' ::ₘ rest⟩ := by
  induction hsteps with
  | refl => exact h
  | next _ ih => exact ih h.advance

/-- A call that nobody interrupts is `Processor.process`. -/
theorem process {p : Processor} (h : Reachable p.factory k before ⟨s, .waiting event ::ₘ rest⟩)
    (hprocess : p.process Clock.host.beside event (s.pool, ⟨s.clock, s.records⟩) =
      some (outcome, pool, journal)) :
    Reachable p.factory k before
      ⟨⟨pool, journal.clock, journal.records⟩, .finished outcome ::ₘ rest⟩ :=
  h.steps (.process hprocess)

end Calls.Reachable

/-! ## Taking turns -/

namespace Calls

/-- Two calls that take turns, step by step. -/
def takeTurns (f : SessionFactory) :
    (turns : Nat) → Shared → Call → Call → Shared × Call × Call
  | 0, s, a, b => (s, a, b)
  | turns + 1, s, a, b =>
    let (a, s) := a.step f s
    let (b, s) := b.step f s
    takeTurns f turns s a b

theorem Reachable.takeTurns {f : SessionFactory} {k : Nat} {before s : Shared} {a b : Call}
    (h : Reachable f k before ⟨s, {a, b}⟩) (turns : Nat) :
    Reachable f k before ⟨(Calls.takeTurns f turns s a b).1,
      {(Calls.takeTurns f turns s a b).2.1, (Calls.takeTurns f turns s a b).2.2}⟩ := by
  induction turns generalizing s a b with
  | zero => exact h
  | succ turns ih =>
    have hfirst := h.advance
    rw [← Multiset.insert_eq_cons, Multiset.pair_comm] at hfirst
    have hsecond := hfirst.advance
    rw [← Multiset.insert_eq_cons, Multiset.pair_comm] at hsecond
    exact ih hsecond

end Calls

end EventSandbox
