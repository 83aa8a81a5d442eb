import EventSandbox.Cli.Program
import EventSandbox.Proofs.Cli.Crew
import EventSandbox.Proofs.Cli.Share

/-!
# EventSandbox.Proofs.Cli.Schedule — worker after worker is one of the orders

A run lets each worker finish before the next one starts. That is one of the orders in which a crew
may make its steps (`Crew.Reachable.processShares`), so what holds of every crew that is done holds
of what a run writes (`runEvents_done`).
-/

namespace EventSandbox.Cli

variable {p : Processor}

/-! ## One record -/

/-- The call of a record is `Processor.process`. -/
theorem Record.process_eq (p : Processor) (r : Record) (s : Shared) :
    r.process p.factory s =
      match r.event? with
      | none => some (r, [], s)
      | some event =>
        (p.process Clock.host.beside event (s.pool, ⟨s.clock, []⟩)).map
          fun (outcome, pool, journal) =>
            (Record.finish r.line outcome,
              journal.records.reverse.map .guest ++ Record.reports r.line outcome,
              ⟨pool, journal.clock, journal.records⟩) := by
  unfold Record.process
  cases r.event? with
  | none => rfl
  | some event =>
    have h := Call.toEnd_toClock p { s with records := [] } event
    dsimp only
    rw [h]
    cases p.process Clock.host.beside event (s.pool, ⟨s.clock, []⟩) <;> rfl

namespace Crew

variable {f : SessionFactory} {before s s' : Shared} {given : List (List Record)}
  {first rest : List Worker} {w : Worker} {line : Nat} {call call' : Call} {r r' : Record}
  {reports : List Report} {finished waiting records records' : List Record} {log : List LogRecord}

theorem Reachable.work (h : Reachable f before given ⟨s, first ++ w :: rest⟩) :
    Reachable f before given ⟨(w.step f s).2, first ++ (w.step f s).1 :: rest⟩ :=
  h.step (.work rfl)

/-- A worker makes some steps of its call. -/
theorem Reachable.serve
    (h : Reachable f before given ⟨s, first ++ ⟨finished, some (line, call), waiting⟩ :: rest⟩)
    (hsteps : call.Steps f s call' s') :
    Reachable f before given
      ⟨s', first ++ ⟨finished, some (line, call'), waiting⟩ :: rest⟩ := by
  induction hsteps with
  | refl => exact h
  | @next call _ s _ _ ih =>
    by_cases hover : ∃ outcome, call = .finished outcome
    · -- A call that is over makes no step.
      obtain ⟨outcome, rfl⟩ := hover
      exact ih h
    · have hwork := h.work
      rw [Worker.step_call hover] at hwork
      exact ih hwork

/-- A worker takes a record and processes it to its end. What has been logged before makes no
difference. -/
theorem Reachable.process (hprocess : r.process p.factory s = some (r', reports, s'))
    (h : Reachable p.factory before given
      ⟨{ s with records := log }, first ++ ⟨finished, none, r :: waiting⟩ :: rest⟩) :
    ∃ log', Reachable p.factory before given
      ⟨{ s' with records := log' }, first ++ ⟨r' :: finished, none, waiting⟩ :: rest⟩ := by
  obtain ⟨line, _ | event⟩ := r
  · cases hprocess
    exact ⟨log, h.work⟩
  · rw [Record.process_eq] at hprocess
    obtain ⟨⟨outcome, pool, journal⟩, hrun, ⟨⟩⟩ := Option.map_eq_some_iff.1 hprocess
    have hsteps := (Call.Steps.process (s := { s with records := [] }) hrun).log log
    exact ⟨_, (h.work.serve hsteps).work⟩

/-! ## Many records -/

/-- A worker processes all its records. -/
theorem Reachable.processAll (hprocess : processAll p.factory records s =
      some (records', reports, s'))
    (h : Reachable p.factory before given
      ⟨{ s with records := log }, first ++ ⟨finished, none, records⟩ :: rest⟩) :
    ∃ log', Reachable p.factory before given
      ⟨{ s' with records := log' },
        first ++ ⟨records'.reverse ++ finished, none, []⟩ :: rest⟩ := by
  induction records generalizing s finished records' reports log with
  | nil =>
    cases hprocess
    exact ⟨log, h⟩
  -- The record that is first is processed, and the rest from the state that it leaves.
  | cons r records ih =>
    unfold Cli.processAll at hprocess
    obtain ⟨⟨r', reports', s₁⟩, hr, hrest⟩ := Option.bind_eq_some_iff.1 hprocess
    obtain ⟨⟨rest', more, s₂⟩, hall, ⟨⟩⟩ := Option.bind_eq_some_iff.1 hrest
    obtain ⟨log₁, h₁⟩ := h.process hr
    obtain ⟨log₂, h₂⟩ := ih hall h₁
    refine ⟨log₂, ?_⟩
    rw [List.reverse_cons, List.append_assoc]
    exact h₂

/-- A worker that has nothing left to do. -/
def ready (records : List Record) : Worker := ⟨records.reverse, none, []⟩

/-- Worker after worker processes its records. -/
theorem Reachable.processShares {shares shares' : List (List Record)}
    (hprocess : processShares p.factory shares s = some (shares', reports, s'))
    (h : Reachable p.factory before given
      ⟨{ s with records := log }, first ++ shares.map Worker.start⟩) :
    ∃ log', Reachable p.factory before given
      ⟨{ s' with records := log' }, first ++ shares'.map ready⟩ := by
  induction shares generalizing s first shares' reports log with
  | nil =>
    cases hprocess
    exact ⟨log, h⟩
  | cons share shares ih =>
    unfold Cli.processShares at hprocess
    obtain ⟨⟨share', reports', s₁⟩, hshare, hrest⟩ := Option.bind_eq_some_iff.1 hprocess
    obtain ⟨⟨shares', more, s₂⟩, hall, ⟨⟩⟩ := Option.bind_eq_some_iff.1 hrest
    obtain ⟨log₁, h₁⟩ := Reachable.processAll hshare h
    rw [List.append_nil] at h₁
    -- The worker that has just finished is now one of those before the next.
    have hcut : first ++ ready share' :: shares.map Worker.start =
        (first ++ [ready share']) ++ shares.map Worker.start := by
      simp
    have h₂ : Reachable p.factory before given
        ⟨{ s₁ with records := log₁ }, (first ++ [ready share']) ++ shares.map Worker.start⟩ := by
      rw [← hcut]
      exact h₁
    obtain ⟨log₂, h₃⟩ := ih hall h₂
    refine ⟨log₂, ?_⟩
    rw [List.append_assoc] at h₃
    exact h₃

/-- The shares that are processed worker after worker are what a crew that is done has put down. -/
theorem exists_done {shares shares' : List (List Record)}
    (hprocess : processShares p.factory shares s = some (shares', reports, s')) :
    ∃ c, Reachable p.factory s shares c ∧ c.Done ∧ c.records = shares'.flatten := by
  have hstart : Reachable p.factory s shares
      ⟨{ s with records := s.records }, [] ++ shares.map Worker.start⟩ := .start
  obtain ⟨log, h⟩ := hstart.processShares hprocess
  refine ⟨_, h, ?_, ?_⟩
  · intro w hw
    obtain ⟨share, -, rfl⟩ := List.mem_map.1 hw
    exact ⟨rfl, rfl⟩
  · have hready : ∀ share, (ready share).finished.reverse = share := by
      intro share
      exact List.reverse_reverse share
    unfold Crew.records
    rw [List.nil_append, List.flatMap_map, List.flatMap_def]
    simp only [hready, List.map_id']

end Crew

/-- What a run writes is what a crew that is done has put down. -/
theorem runEvents_done {l : Loaded} {workers : Nat} {records : List Record} {p : Progress}
    {ending : Ending} (h : runEvents l workers records p = some ending) :
    ∃ c reports, Crew.Reachable l.processor.factory ⟨l.pool, l.clock, []⟩
        (share (max workers 1) records) c ∧
      c.Done ∧ ending = (p.tell reports).finish c.records := by
  unfold runEvents at h
  obtain ⟨⟨shares, reports, s⟩, hprocess, ⟨⟩⟩ := Option.bind_eq_some_iff.1 h
  obtain ⟨c, hc, hdone, hrecords⟩ := Crew.exists_done hprocess
  rw [← hrecords]
  exact ⟨c, _, hc, hdone, rfl⟩

end EventSandbox.Cli
