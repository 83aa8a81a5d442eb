import EventSandbox.Guest.Exec
import Mathlib.Tactic.Common

/-!
# EventSandbox.Proofs.Guest.Trace — what a run shows from beginning to end

`Run.Traced r trace end?` says that `r`, told some times or other, shows `trace` and comes to
`end?`, which is `none` for a run that goes on for ever. A run is a well-founded tree, so each has
a trace (`exists_traced`), and what is proved of all traces is proved of the run however it goes.

Traces are read off a computation piece by piece: `traced_bind` cuts the trace of a sequence in two,
and `Except.traced_bind` does so for a computation that may stop early, where the state that the
first part has left is kept in either case.
-/

namespace EventSandbox

/-- What a run shows: the records of its log and its moments, in one order. -/
inductive Label
  | record (entry : LogRecord)
  | moment (what : Moment)

namespace Run

variable {α β γ : Type}

theorem bind_done (r : Run α) : r.bind done = r := by
  induction r with
  | done | endless => rfl
  | pause rest ih | emit _ rest ih | mark _ rest ih => simp [bind, ih]
  | readClock resume ih => simp [bind, ih]

theorem bind_assoc (r : Run α) (f : α → Run β) (g : β → Run γ) :
    (r.bind f).bind g = r.bind fun a => (f a).bind g := by
  induction r with
  | done | endless => rfl
  | pause rest ih | emit _ rest ih | mark _ rest ih => simp [bind, ih]
  | readClock resume ih => simp [bind, ih]

instance : LawfulMonad Run :=
  LawfulMonad.mk' Run bind_done (fun _ _ => rfl) bind_assoc

/-! ## Traces -/

/-- A run, told some times, shows a trace and ends, or goes on for ever. -/
inductive Traced : Run α → List Label → Option α → Prop
  | done (a : α) : Traced (done a) [] (some a)
  | endless : Traced endless [] none
  | pause {rest : Unit → Run α} {trace end?} (h : Traced (rest ()) trace end?) :
      Traced (pause rest) trace end?
  | emit {rest : Unit → Run α} {trace end?} (entry : LogRecord) (h : Traced (rest ()) trace end?) :
      Traced (emit entry rest) (.record entry :: trace) end?
  | mark {rest : Unit → Run α} {trace end?} (what : Moment) (h : Traced (rest ()) trace end?) :
      Traced (mark what rest) (.moment what :: trace) end?
  | readClock {resume : Int64 → Run α} {trace end?} (time : Int64)
      (h : Traced (resume time) trace end?) : Traced (readClock resume) trace end?

variable {trace : List Label}

@[simp] theorem traced_done {a : α} {end? : Option α} :
    (done a).Traced trace end? ↔ trace = [] ∧ end? = some a := by
  constructor
  · rintro ⟨⟩
    exact ⟨rfl, rfl⟩
  · rintro ⟨rfl, rfl⟩
    exact .done a

@[simp] theorem traced_pure {a : α} {end? : Option α} :
    (pure a : Run α).Traced trace end? ↔ trace = [] ∧ end? = some a := traced_done

@[simp] theorem traced_endless {end? : Option α} :
    (endless : Run α).Traced trace end? ↔ trace = [] ∧ end? = none := by
  constructor
  · rintro ⟨⟩
    exact ⟨rfl, rfl⟩
  · rintro ⟨rfl, rfl⟩
    exact .endless

@[simp] theorem traced_pause {rest : Unit → Run α} {end? : Option α} :
    (pause rest).Traced trace end? ↔ (rest ()).Traced trace end? := by
  constructor
  · rintro ⟨⟩
    assumption
  · exact .pause

@[simp] theorem traced_emit {entry : LogRecord} {rest : Unit → Run α} {end? : Option α} :
    (emit entry rest).Traced trace end? ↔
      ∃ tail, trace = .record entry :: tail ∧ (rest ()).Traced tail end? := by
  constructor
  · rintro ⟨⟩
    exact ⟨_, rfl, ‹_›⟩
  · rintro ⟨tail, rfl, h⟩
    exact .emit entry h

@[simp] theorem traced_mark {what : Moment} {rest : Unit → Run α} {end? : Option α} :
    (mark what rest).Traced trace end? ↔
      ∃ tail, trace = .moment what :: tail ∧ (rest ()).Traced tail end? := by
  constructor
  · rintro ⟨⟩
    exact ⟨_, rfl, ‹_›⟩
  · rintro ⟨tail, rfl, h⟩
    exact .mark what h

@[simp] theorem traced_readClock {resume : Int64 → Run α} {end? : Option α} :
    (readClock resume).Traced trace end? ↔ ∃ time, (resume time).Traced trace end? := by
  constructor
  · rintro ⟨⟩
    exact ⟨_, ‹_›⟩
  · rintro ⟨time, h⟩
    exact .readClock time h

/-- What a run shows, and its end, when it is always told the same time. -/
def watch (time : Int64) : Run α → List Label × Option α
  | done a => ([], some a)
  | endless => ([], none)
  | pause rest => (rest ()).watch time
  | emit entry rest =>
    let (trace, end?) := (rest ()).watch time
    (.record entry :: trace, end?)
  | mark what rest =>
    let (trace, end?) := (rest ()).watch time
    (.moment what :: trace, end?)
  | readClock resume => (resume time).watch time

theorem traced_watch (r : Run α) (time : Int64) :
    r.Traced (r.watch time).1 (r.watch time).2 := by
  induction r with
  | done a => exact .done a
  | endless => exact .endless
  | pause rest ih => exact .pause (ih ())
  | emit entry rest ih => exact .emit entry (ih ())
  | mark what rest ih => exact .mark what (ih ())
  | readClock resume ih => exact .readClock time (ih time)

/-- Every run has a trace. -/
theorem exists_traced (r : Run α) : ∃ trace end?, r.Traced trace end? :=
  ⟨_, _, r.traced_watch 0⟩

/-- An end that is seen while the clock stands still is an end that a run can have. -/
theorem exists_traced_of_watch {r : Run α} {time : Int64} {a : α}
    (h : (r.watch time).2 = some a) : ∃ trace, r.Traced trace (some a) := by
  refine ⟨(r.watch time).1, ?_⟩
  rw [← h]
  exact r.traced_watch time

/-! ## Sequences -/

theorem Traced.bind_some {r : Run α} {f : α → Run β} {first rest : List Label} {a : α}
    {end? : Option β} (h : r.Traced first (some a)) (hf : (f a).Traced rest end?) :
    (r.bind f).Traced (first ++ rest) end? := by
  generalize hs : some a = last at h
  induction h with
  | done b =>
    cases hs
    exact hf
  | endless => cases hs
  | pause _ ih => exact .pause (ih hs)
  | emit entry _ ih => exact .emit entry (ih hs)
  | mark what _ ih => exact .mark what (ih hs)
  | readClock time _ ih => exact .readClock time (ih hs)

theorem Traced.bind_none {r : Run α} {f : α → Run β} {trace : List Label}
    (h : r.Traced trace none) : (r.bind f).Traced trace none := by
  generalize hs : none = last at h
  induction h with
  | done b => cases hs
  | endless => exact .endless
  | pause _ ih => exact .pause (ih hs)
  | emit entry _ ih => exact .emit entry (ih hs)
  | mark what _ ih => exact .mark what (ih hs)
  | readClock time _ ih => exact .readClock time (ih hs)

/-- The trace of a sequence is that of its first part and, if that part comes to an end, that of
its second part. -/
theorem traced_bind {r : Run α} {f : α → Run β} {end? : Option β} :
    (r.bind f).Traced trace end? ↔
      (∃ a first rest, r.Traced first (some a) ∧ (f a).Traced rest end? ∧ trace = first ++ rest) ∨
      (r.Traced trace none ∧ end? = none) := by
  constructor
  · intro h
    -- On the run itself: its first part is done where the sequence goes over to the second.
    induction r generalizing trace with
    | done a => exact .inl ⟨a, [], trace, .done a, h, rfl⟩
    | endless =>
      obtain ⟨rfl, rfl⟩ := traced_endless.1 h
      exact .inr ⟨.endless, rfl⟩
    | pause rest ih =>
      rcases ih () (traced_pause.1 h) with ⟨a, first, tail, ha, hf, rfl⟩ | ⟨hn, rfl⟩
      · exact .inl ⟨a, first, tail, .pause ha, hf, rfl⟩
      · exact .inr ⟨.pause hn, rfl⟩
    | emit entry rest ih =>
      obtain ⟨shown, rfl, hrest⟩ := traced_emit.1 h
      rcases ih () hrest with ⟨a, first, tail, ha, hf, rfl⟩ | ⟨hn, rfl⟩
      · exact .inl ⟨a, _, tail, .emit entry ha, hf, rfl⟩
      · exact .inr ⟨.emit entry hn, rfl⟩
    | mark what rest ih =>
      obtain ⟨shown, rfl, hrest⟩ := traced_mark.1 h
      rcases ih () hrest with ⟨a, first, tail, ha, hf, rfl⟩ | ⟨hn, rfl⟩
      · exact .inl ⟨a, _, tail, .mark what ha, hf, rfl⟩
      · exact .inr ⟨.mark what hn, rfl⟩
    | readClock resume ih =>
      obtain ⟨time, h⟩ := traced_readClock.1 h
      rcases ih time h with ⟨a, first, tail, ha, hf, rfl⟩ | ⟨hn, rfl⟩
      · exact .inl ⟨a, first, tail, .readClock time ha, hf, rfl⟩
      · exact .inr ⟨.readClock time hn, rfl⟩
  · rintro (⟨a, first, rest, ha, hf, rfl⟩ | ⟨hn, rfl⟩)
    · exact ha.bind_some hf
    · exact hn.bind_none

end Run

/-! ## Computations on the state of a guest -/

section Stateful

variable {α β ε : Type} {m : Machine} {trace : List Label}

theorem Exec.run_bind (c : Exec α) (f : α → Exec β) (m : Machine) :
    (c >>= f).run m = (c.run m).bind fun (a, m) => (f a).run m := rfl

/-- How a computation that may stop early goes on after its first part. -/
def Except.resume (f : α → ExceptT ε (StateT Machine Run) β) :
    Except ε α × Machine → Run (Except ε β × Machine)
  | (.ok a, m) => (f a).run.run m
  | (.error e, m) => .done (.error e, m)

@[simp] theorem Except.resume_ok (f : α → ExceptT ε (StateT Machine Run) β) (a : α) (m : Machine) :
    Except.resume f (.ok a, m) = (f a).run.run m := rfl

@[simp] theorem Except.resume_error (f : α → ExceptT ε (StateT Machine Run) β) (e : ε)
    (m : Machine) : Except.resume f (.error e, m) = .done (.error e, m) := rfl

theorem Except.run_bind (c : ExceptT ε (StateT Machine Run) α)
    (f : α → ExceptT ε (StateT Machine Run) β) (m : Machine) :
    (c >>= f).run.run m = (c.run.run m).bind (Except.resume f) := by
  show Run.bind _ _ = _
  congr 1
  funext p
  rcases p with ⟨_ | _, _⟩ <;> rfl

/-- The trace of a sequence of computations, cut where its first part ends. -/
theorem Except.traced_bind {c : ExceptT ε (StateT Machine Run) α}
    {f : α → ExceptT ε (StateT Machine Run) β} {end? : Option (Except ε β × Machine)} :
    ((c >>= f).run.run m).Traced trace end? ↔
      (∃ a m' first rest, (c.run.run m).Traced first (some (.ok a, m')) ∧
        ((f a).run.run m').Traced rest end? ∧ trace = first ++ rest) ∨
      (∃ e m', (c.run.run m).Traced trace (some (.error e, m')) ∧ end? = some (.error e, m')) ∨
      ((c.run.run m).Traced trace none ∧ end? = none) := by
  rw [Except.run_bind, Run.traced_bind]
  constructor
  · -- The first part has stopped early, has given a result, or goes on for ever.
    rintro (⟨⟨e | a, m'⟩, first, rest, hfirst, hrest, rfl⟩ | hforever)
    · obtain ⟨rfl, rfl⟩ := Run.traced_done.1 hrest
      exact .inr (.inl ⟨e, m', by simpa using hfirst, rfl⟩)
    · exact .inl ⟨a, m', first, rest, hfirst, hrest, rfl⟩
    · exact .inr (.inr hforever)
  · rintro (⟨a, m', first, rest, hfirst, hrest, rfl⟩ | ⟨e, m', hfirst, rfl⟩ | hforever)
    · exact .inl ⟨(.ok a, m'), first, rest, hfirst, hrest, rfl⟩
    · exact .inl ⟨(.error e, m'), trace, [], hfirst, .done _, by simp⟩
    · exact .inr hforever

end Stateful

end EventSandbox
