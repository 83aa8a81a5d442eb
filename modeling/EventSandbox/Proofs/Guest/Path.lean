import EventSandbox.Proofs.Guest.Trace

/-!
# EventSandbox.Proofs.Guest.Path — what a run has heard so far

`Run.Path r heard r'` says that `r` goes on as `r'` once it has exchanged the signals `heard` with
those around it: labels that it shows and times that it is told. Unlike a trace, a path may stop
anywhere, and it keeps the times. So the steps of a run that others interrupt are collected one by
one.

A path to the end is the run followed alone: told the same times, it writes the same records and
comes to the same end (`Path.follow`).
-/

namespace EventSandbox

/-- What passes between a run and those around it. -/
inductive Signal
  | shown (label : Label)
  | told (time : Int64)

namespace Signal

/-- What is seen of a signal from outside. -/
def label? : Signal → Option Label
  | shown label => some label
  | told _ => none

/-- The record that is written, if it is one. -/
def record? : Signal → Option LogRecord
  | shown (.record entry) => some entry
  | shown (.moment _) | told _ => none

/-- The time that is told, if it is one. -/
def time? : Signal → Option Int64
  | shown _ => none
  | told time => some time

end Signal

/-- What some signals show. -/
def labelsOf (heard : List Signal) : List Label := heard.filterMap Signal.label?

/-- The records that some signals write. -/
def recordsOf (heard : List Signal) : List LogRecord := heard.filterMap Signal.record?

/-- The times that some signals tell. -/
def timesOf (heard : List Signal) : List Int64 := heard.filterMap Signal.time?

namespace Run

variable {α β σ : Type}

/-! ## Paths -/

/-- A run exchanges some signals and goes on as another. -/
inductive Path : Run α → List Signal → Run α → Prop
  | here (r : Run α) : Path r [] r
  | pause {rest : Unit → Run α} {heard r'} (h : Path (rest ()) heard r') :
      Path (pause rest) heard r'
  | emit {rest : Unit → Run α} {heard r'} (entry : LogRecord) (h : Path (rest ()) heard r') :
      Path (emit entry rest) (.shown (.record entry) :: heard) r'
  | mark {rest : Unit → Run α} {heard r'} (what : Moment) (h : Path (rest ()) heard r') :
      Path (mark what rest) (.shown (.moment what) :: heard) r'
  | readClock {resume : Int64 → Run α} {heard r'} (time : Int64)
      (h : Path (resume time) heard r') : Path (readClock resume) (.told time :: heard) r'

/-- A run can come to an end. -/
def Yields (r : Run α) (a : α) : Prop := ∃ heard, r.Path heard (done a)

theorem Path.trans {r r' r'' : Run α} {heard more : List Signal} (h : r.Path heard r')
    (h' : r'.Path more r'') : r.Path (heard ++ more) r'' := by
  induction h with
  | here => exact h'
  | pause _ ih => exact .pause (ih h')
  | emit entry _ ih => exact .emit entry (ih h')
  | mark what _ ih => exact .mark what (ih h')
  | readClock time _ ih => exact .readClock time (ih h')

/-- A run that has ended exchanges nothing more. -/
theorem Path.of_done {a : α} {r : Run α} {heard : List Signal} (h : (done a).Path heard r) :
    heard = [] ∧ r = done a := by
  cases h
  exact ⟨rfl, rfl⟩

/-- What a run shows after a path is what it shows in all, less what it has shown. -/
theorem Path.traced {r r' : Run α} {heard : List Signal} (h : r.Path heard r')
    {trace : List Label} {end? : Option α} (h' : r'.Traced trace end?) :
    r.Traced (labelsOf heard ++ trace) end? := by
  induction h with
  | here => exact h'
  | pause _ ih => exact .pause (ih h')
  | emit entry _ ih => exact .emit entry (ih h')
  | mark what _ ih => exact .mark what (ih h')
  | readClock time _ ih => exact .readClock time (ih h')

/-- What a run does is settled by the times that it is told: if it comes to an end twice and has
been told the same, it has shown the same and come to the same end. -/
theorem Path.unique {r : Run α} {heard heard' : List Signal} {a a' : α}
    (h : r.Path heard (done a)) (h' : r.Path heard' (done a'))
    (htimes : timesOf heard = timesOf heard') : heard = heard' ∧ a = a' := by
  induction r generalizing heard heard' with
  | done b =>
    obtain ⟨rfl, ha⟩ := h.of_done
    obtain ⟨rfl, ha'⟩ := h'.of_done
    cases ha
    cases ha'
    exact ⟨rfl, rfl⟩
  | endless => cases h
  | pause rest ih =>
    cases h with
    | pause h => cases h' with
      | pause h' => exact ih () h h' htimes
  | emit entry rest ih =>
    cases h with
    | emit _ h => cases h' with
      | emit _ h' =>
        obtain ⟨rfl, rfl⟩ := ih () h h' htimes
        exact ⟨rfl, rfl⟩
  | mark what rest ih =>
    cases h with
    | mark _ h => cases h' with
      | mark _ h' =>
        obtain ⟨rfl, rfl⟩ := ih () h h' htimes
        exact ⟨rfl, rfl⟩
  | readClock resume ih =>
    -- Only here could the two part, but they are told the same.
    cases h with
    | @readClock _ rest _ time h => cases h' with
      | @readClock _ rest' _ time' h' =>
        have htold : time :: timesOf rest = time' :: timesOf rest' := htimes
        obtain ⟨rfl, hrest⟩ := List.cons.inj htold
        obtain ⟨rfl, rfl⟩ := ih time h h' hrest
        exact ⟨rfl, rfl⟩

/-! ## Following -/

/-- A host that tells times from a list and keeps the log, last record first. -/
def Host.reciting : Host (List Int64 × List LogRecord) where
  now := fun (times, records) =>
    match times with
    | [] => none
    | time :: rest => some (time, rest, records)
  log := fun record (times, records) => (times, record :: records)

/-- A path to the end is the run followed alone: told the same times, it writes the same records
and comes to the same end. -/
theorem Path.follow {r : Run α} {heard : List Signal} {a : α} (h : r.Path heard (done a))
    (before : List LogRecord) :
    r.follow Host.reciting (timesOf heard, before) =
      some (a, [], (recordsOf heard).reverse ++ before) := by
  generalize hend : done a = last at h
  induction h generalizing before with
  | here =>
    subst hend
    rfl
  | pause _ ih => exact ih before hend
  | mark _ _ ih => exact ih before hend
  | readClock _ _ ih => exact ih before hend
  -- The log is kept backwards, so what comes first in the run is at its end.
  | emit entry _ ih =>
    have h := ih (entry :: before) hend
    have hrecords : ∀ heard, (recordsOf (.shown (.record entry) :: heard)).reverse ++ before =
        (recordsOf heard).reverse ++ entry :: before := by
      simp [recordsOf, Signal.record?]
    rw [hrecords]
    exact h

theorem follow_readClock (host : Host σ) (resume : Int64 → Run α) (s : σ) :
    (readClock resume).follow host s =
      (host.now s).bind fun (time, s) => (resume time).follow host s := by
  rw [follow]
  cases host.now s <;> rfl

/-- A sequence is followed part after part. -/
theorem follow_bind (host : Host σ) (r : Run α) (k : α → Run β) (s : σ) :
    (r.bind k).follow host s = (r.follow host s).bind fun (a, s) => (k a).follow host s := by
  induction r generalizing s with
  | done | endless => rfl
  | pause rest ih => exact ih () s
  | emit entry rest ih => exact ih () _
  | mark what rest ih => exact ih () s
  -- Whoever is asked for the time may not answer, and then neither run goes on.
  | readClock resume ih =>
    unfold bind
    rw [follow_readClock, follow_readClock]
    cases host.now s with
    | none => rfl
    | some told => exact ih told.1 told.2

/-- A host that has a state beside another, which it leaves alone. -/
def Host.beside {ρ : Type} (host : Host σ) : Host (ρ × σ) where
  now := fun (p, s) => (host.now s).map fun (time, s) => (time, p, s)
  log := fun record (p, s) => (p, host.log record s)

theorem follow_beside {ρ : Type} (host : Host σ) (r : Run α) (p : ρ) (s : σ) :
    r.follow host.beside (p, s) = (r.follow host s).map fun (a, s) => (a, p, s) := by
  induction r generalizing s with
  | done | endless => rfl
  | pause rest ih => exact ih () s
  | emit entry rest ih => exact ih () _
  | mark what rest ih => exact ih () s
  | readClock resume ih =>
    have hnow : host.beside.now (p, s) = (host.now s).map fun (time, s) => (time, p, s) := rfl
    unfold follow
    rw [hnow]
    cases host.now s with
    | none => rfl
    | some told => exact ih told.1 told.2

/-- A host that tells the same time whenever it is asked, and keeps nothing. -/
def Host.still (time : Int64) : Host Unit where
  now _ := some (time, ())
  log _ _ := ()

/-- While the clock stands still, no run depends on its host. -/
theorem follow_still {host : Host σ} {time : Int64} (h : ∀ s, host.now s = some (time, s))
    (r : Run α) (s : σ) :
    (r.follow host s).map Prod.fst = (r.follow (Host.still time) ()).map Prod.fst := by
  induction r generalizing s with
  | done | endless => rfl
  | pause rest ih => exact ih () s
  | emit entry rest ih => exact ih () _
  | mark what rest ih => exact ih () s
  | readClock resume ih =>
    unfold follow
    rw [h s]
    exact ih time s

theorem yields_of_follow {host : Host σ} {r : Run α} {a : α} {s s' : σ}
    (h : r.follow host s = some (a, s')) : r.Yields a := by
  induction r generalizing s with
  | done b =>
    cases h
    exact ⟨[], .here _⟩
  | endless => cases h
  | pause rest ih =>
    obtain ⟨heard, hpath⟩ := ih () h
    exact ⟨heard, .pause hpath⟩
  | emit entry rest ih =>
    obtain ⟨heard, hpath⟩ := ih () h
    exact ⟨_, .emit entry hpath⟩
  | mark what rest ih =>
    obtain ⟨heard, hpath⟩ := ih () h
    exact ⟨_, .mark what hpath⟩
  | readClock resume ih =>
    unfold Run.follow at h
    split at h
    · obtain ⟨heard, hpath⟩ := ih _ h
      exact ⟨_, .readClock _ hpath⟩
    · cases h

/-- A run that is seen to end can come to that end. -/
theorem yields_of_traced {r : Run α} {trace : List Label} {a : α} (h : r.Traced trace (some a)) :
    r.Yields a := by
  generalize hs : some a = last at h
  induction h with
  | done b =>
    cases hs
    exact ⟨[], .here _⟩
  | endless => cases hs
  | pause _ ih =>
    obtain ⟨heard, hpath⟩ := ih hs
    exact ⟨heard, .pause hpath⟩
  | emit entry _ ih =>
    obtain ⟨heard, hpath⟩ := ih hs
    exact ⟨_, .emit entry hpath⟩
  | mark what _ ih =>
    obtain ⟨heard, hpath⟩ := ih hs
    exact ⟨_, .mark what hpath⟩
  | readClock time _ ih =>
    obtain ⟨heard, hpath⟩ := ih hs
    exact ⟨_, .readClock time hpath⟩

/-- Whoever is told a time whenever it asks for one sees the run to its end, if it has one. -/
theorem exists_traced_follow {host : Host σ} (hnow : ∀ s, (host.now s).isSome) (r : Run α) (s : σ) :
    ∃ trace, r.Traced trace ((r.follow host s).map Prod.fst) := by
  induction r generalizing s with
  | done a => exact ⟨[], .done a⟩
  | endless => exact ⟨[], .endless⟩
  | pause rest ih =>
    obtain ⟨trace, h⟩ := ih () s
    exact ⟨trace, .pause h⟩
  | emit entry rest ih =>
    obtain ⟨trace, h⟩ := ih () (host.log entry s)
    exact ⟨_, .emit entry h⟩
  | mark what rest ih =>
    obtain ⟨trace, h⟩ := ih () s
    exact ⟨_, .mark what h⟩
  -- The time that is told is one that the run may be told.
  | readClock resume ih =>
    obtain ⟨⟨time, s'⟩, htold⟩ := Option.isSome_iff_exists.1 (hnow s)
    obtain ⟨trace, h⟩ := ih time s'
    refine ⟨trace, .readClock time ?_⟩
    rw [follow_readClock, htold]
    exact h

theorem Yields.exists_traced {r : Run α} {a : α} (h : r.Yields a) :
    ∃ trace, r.Traced trace (some a) := by
  obtain ⟨heard, hpath⟩ := h
  exact ⟨_, hpath.traced (.done a)⟩

/-- A sequence comes to its end through the end of its first part. -/
theorem yields_bind {r : Run α} {f : α → Run β} {b : β} (h : (r.bind f).Yields b) :
    ∃ a, r.Yields a ∧ (f a).Yields b := by
  obtain ⟨heard, hpath⟩ := h
  -- Where the first part ends, the run is at the beginning of the second.
  induction r generalizing heard with
  | done a => exact ⟨a, ⟨[], .here _⟩, heard, hpath⟩
  | endless => cases hpath
  | pause rest ih =>
    cases hpath with
    | pause hrest =>
      obtain ⟨a, ⟨first, hfirst⟩, hlast⟩ := ih () _ hrest
      exact ⟨a, ⟨first, .pause hfirst⟩, hlast⟩
  | emit entry rest ih =>
    cases hpath with
    | emit _ hrest =>
      obtain ⟨a, ⟨first, hfirst⟩, hlast⟩ := ih () _ hrest
      exact ⟨a, ⟨_, .emit entry hfirst⟩, hlast⟩
  | mark what rest ih =>
    cases hpath with
    | mark _ hrest =>
      obtain ⟨a, ⟨first, hfirst⟩, hlast⟩ := ih () _ hrest
      exact ⟨a, ⟨_, .mark what hfirst⟩, hlast⟩
  | readClock resume ih =>
    cases hpath with
    | readClock time hrest =>
      obtain ⟨a, ⟨first, hfirst⟩, hlast⟩ := ih time _ hrest
      exact ⟨a, ⟨_, .readClock time hfirst⟩, hlast⟩

theorem Path.bind {r r' : Run α} {heard : List Signal} (h : r.Path heard r') (f : α → Run β) :
    (r.bind f).Path heard (r'.bind f) := by
  induction h with
  | here r => exact .here _
  | pause _ ih => exact .pause ih
  | emit entry _ ih => exact .emit entry ih
  | mark what _ ih => exact .mark what ih
  | readClock time _ ih => exact .readClock time ih

@[simp] theorem yields_done {a b : α} : (done a).Yields b ↔ a = b := by
  constructor
  · rintro ⟨heard, hpath⟩
    obtain ⟨-, hend⟩ := hpath.of_done
    cases hend
    rfl
  · rintro rfl
    exact ⟨[], .here _⟩

theorem yields_bind_iff {r : Run α} {f : α → Run β} {b : β} :
    (r.bind f).Yields b ↔ ∃ a, r.Yields a ∧ (f a).Yields b := by
  constructor
  · exact yields_bind
  · rintro ⟨a, ⟨first, hfirst⟩, rest, hrest⟩
    exact ⟨first ++ rest, (hfirst.bind f).trans hrest⟩

end Run

end EventSandbox
