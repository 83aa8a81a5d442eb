import EventSandbox.Proofs.Cli.Confluence
import EventSandbox.Proofs.Guest.Puts

/-!
# EventSandbox.Proofs.Cli.Chain — what a run writes, read by another

A run writes its events as lines of the form that it reads. If all numbers are integers, another run
reads each of them as the event that was written, unless it is nested too deep (`Chained.reread`).

How deep it is depends on what the guest has put. A value on its own may be nested as deep as a
whole event, and in the event it stands one level deeper. So one kind of value makes an event that
no run reads: the deepest that can be put (`Chained.nesting`, `deepest_unread`).
-/

namespace EventSandbox

/-! ## What a visit puts -/

namespace PastVisit

variable {past : PastVisit}

/-- What the guest has put in a visit. -/
def puts (past : PastVisit) : List (String × Value) := Session.puts past.event (labelsOf past.heard)

/-- All numbers in a visit's event, and those that the guest has put, are integers. -/
def Integral (past : PastVisit) : Prop :=
  (Value.object past.event).Integral ∧ ∀ field ∈ past.puts, field.2.Integral

theorem Heard.traced (h : past.Heard) :
    (past.found.guestProcess past.event).Traced (labelsOf past.heard) (some past.ended) := by
  have htraced := Run.Path.traced h (.done past.ended)
  rw [List.append_nil] at htraced
  exact htraced

/-- A guest that stamps its events puts its stamp in every visit, and nothing else. -/
theorem Heard.puts_of_stamper (h : past.Heard) (hs : Stamper past.found) :
    past.puts = [("", stamp)] := by
  obtain ⟨_, -, hputs, -⟩ := hs.of_traced h.traced
  exact hputs

end PastVisit

namespace Cli

variable {f : SessionFactory} {lines : List Bytes} {event : Fields}

/-! ## Reading what was written -/

theorem isText_toJson (v : Value) : IsText v.toJson := by
  unfold Value.toJson Value.toText
  rw [Utf8.utf8_ofList]
  exact ⟨Json.render v, rfl⟩

/-- The line of an event is not blank. -/
theorem isBlankLine_toJson (event : Fields) : isBlankLine (Value.object event).toJson = false := by
  unfold Value.toJson Value.toText
  rw [Utf8.utf8_ofList, isBlankLine_encode]
  exact Bool.and_eq_false_imp.2 fun h => absurd h (by decide)

/-- An event is read back from its line, if it is not nested too deep. -/
theorem eventOf?_toJson (hcanonical : (Value.object event).Canonical)
    (hintegral : (Value.object event).Integral) :
    eventOf? (Value.object event).toJson =
      if (Value.object event).nesting ≤ Json.maxNesting then some event else none := by
  rw [← Fields.ofJson_toJson hcanonical hintegral]
  unfold eventOf?
  cases Fields.ofJson (Value.object event).toJson <;> rfl

/-- What comes of reading the lines of events: a record for each, and its event if that is not
nested too deep. -/
def reread (number : Nat) (events : List Fields) : List Record :=
  (events.zipIdx number).map fun (event, n) =>
    ⟨n, if (Value.object event).nesting ≤ Json.maxNesting then some event else none⟩

theorem recordsFrom_events {events : List Fields}
    (hcanonical : ∀ event ∈ events, (Value.object event).Canonical)
    (hintegral : ∀ event ∈ events, (Value.object event).Integral) (number : Nat) :
    recordsFrom number (events.map fun event => (Value.object event).toJson) =
      reread number events := by
  induction events generalizing number with
  | nil => rfl
  | cons event events ih =>
    obtain ⟨hfirst, hrest⟩ := List.forall_mem_cons.1 hcanonical
    obtain ⟨hfirst', hrest'⟩ := List.forall_mem_cons.1 hintegral
    rw [List.map_cons, recordsFrom_cons, isBlankLine_toJson, ih hrest hrest',
      eventOf?_toJson hfirst hfirst']
    rfl

/-! ## Where events come from -/

/-- A visit has made an event out of one that was read. -/
structure Made (f : SessionFactory) (lines : List Bytes) (past : PastVisit) (event : Fields) :
    Prop where
  read : ∃ line ∈ lines, Fields.ofJson line = .ok past.event
  reachable : past.found.Reachable f
  heard : past.Heard
  outcome : past.ended.outcome = ⟨.ok (), event⟩

namespace Made

variable {past : PastVisit} (h : Made f lines past event)

include h

theorem event_eq : past.ended.event = event := congrArg Outcome.event h.outcome

theorem canonical : (Value.object event).Canonical := by
  obtain ⟨line, -, hread⟩ := h.read
  have hbefore := Value.canonical_ofJson (Fields.ofJson_eq_ok.1 hread)
  rw [← h.event_eq]
  exact Session.canonical_of_traced hbefore h.heard.traced

theorem integral (hpast : past.Integral) : (Value.object event).Integral := by
  rw [← h.event_eq]
  exact Session.integral_of_traced hpast.1 hpast.2 h.heard.traced

theorem nesting :
    (Value.object event).nesting ≤ Json.maxNesting ∨
      (Value.object event).nesting = Json.maxNesting + 1 ∧
        ∃ field ∈ past.puts, field.2.nesting = Json.maxNesting := by
  obtain ⟨line, -, hread⟩ := h.read
  have hbefore := Value.nesting_ofJson (Fields.ofJson_eq_ok.1 hread)
  rw [← h.event_eq]
  exact Session.nesting_of_traced hbefore h.heard.traced

end Made

theorem read_of_mem_recordsFrom {number : Nat} {r : Record} (h : r ∈ recordsFrom number lines)
    (hevent : r.event? = some event) : ∃ line ∈ lines, Fields.ofJson line = .ok event := by
  obtain ⟨⟨line, n⟩, hnumbered, rfl⟩ := List.mem_map.1 h
  have hline := (List.mem_filter.1 hnumbered).1
  refine ⟨line, List.fst_mem_of_mem_zipIdx hline, ?_⟩
  have hevent : eventOf? line = some event := hevent
  unfold eventOf? at hevent
  split at hevent
  · cases hevent
    assumption
  · cases hevent

/-- Each event that is left of records has been made in a visit of its own. -/
theorem exists_made {t : Traffic} (ht : t.Isolated f)
    (hheard : ∀ n, ∀ past ∈ t.visits n, past.Heard) {tasks : List Task} {records : List Record}
    (hbecame : List.Forall₂ (Task.Became t) tasks records)
    (hread : ∀ task ∈ tasks, ∀ event, task.record.event? = some event →
      ∃ line ∈ lines, Fields.ofJson line = .ok event) :
    ∃ pasts, List.Forall₂ (Made f lines) pasts (written records) := by
  induction hbecame with
  | nil => exact ⟨[], .nil⟩
  | @cons task r tasks records htask _ ih =>
    obtain ⟨hfirst, hrest⟩ := List.forall_mem_cons.1 hread
    obtain ⟨pasts, hpasts⟩ := ih hrest
    cases htask with
    | blank line => exact ⟨pasts, hpasts⟩
    | @visited line client past hclient hpast hvisit hevent halone =>
      obtain ⟨hreachable, -⟩ := (ht.whole past.number).reachable past hvisit
      have hread := hfirst client.event rfl
      rw [← hevent] at hread
      -- A call that fails leaves no event, so only the others are lines of the output.
      rcases houtcome : past.ended.outcome with ⟨error | ⟨⟩, event⟩
      · exact ⟨pasts, hpasts⟩
      · exact ⟨past :: pasts, .cons ⟨hread, hreachable, hheard _ past hvisit, houtcome⟩ hpasts⟩

/-! ## Runs -/

/-- What is written for events, each made in a visit, and what comes of reading it. -/
structure Chained (f : SessionFactory) (lines : List Bytes) (output : Bytes)
    (pasts : List PastVisit) (events : List Fields) : Prop where
  made : List.Forall₂ (Made f lines) pasts events
  lines : Lines output (events.map fun event => (Value.object event).toJson)
  /-- An event that is nested too deep is nested too deep by one, and holds a value that has been
  put and is nested as deep as can be. -/
  nesting : List.Forall₂ (fun past event =>
    (Value.object event).nesting ≤ Json.maxNesting ∨
      (Value.object event).nesting = Json.maxNesting + 1 ∧
        ∃ field ∈ past.puts, field.2.nesting = Json.maxNesting) pasts events
  /-- Every line is read as the event that it was written for, but for those nested too deep. -/
  reread : (∀ past ∈ pasts, past.Integral) →
    readRecords 1 (splitLines output) = ⟨reread 1 events, none⟩

theorem exists_of_mem_right {α β : Type} {R : α → β → Prop} {xs : List α} {ys : List β}
    (h : List.Forall₂ R xs ys) : ∀ y ∈ ys, ∃ x ∈ xs, R x y := by
  induction h with
  | nil => exact List.forall_mem_nil _
  | @cons x y xs ys hxy _ ih =>
    refine List.forall_mem_cons.2 ⟨⟨x, List.mem_cons_self, hxy⟩, fun z hz => ?_⟩
    obtain ⟨w, hw, hwz⟩ := ih z hz
    exact ⟨w, List.mem_cons_of_mem x hw, hwz⟩

theorem chained_of_made {pasts : List PastVisit} {records : List Record}
    (hmade : List.Forall₂ (Made f lines) pasts (written records)) :
    Chained f lines (output records) pasts (written records) where
  made := hmade
  lines := lines_iff.2 (splitLines_output records)
  nesting := hmade.imp fun past event h => h.nesting
  reread := by
    intro hintegral
    have hall := exists_of_mem_right hmade
    have htext : ∀ line ∈ (written records).map fun event => (Value.object event).toJson,
        IsText line := by
      intro line hline
      -- Only a line that is text can be read, and a printed value is.
      obtain ⟨event, -, rfl⟩ := List.mem_map.1 hline
      exact isText_toJson _
    rw [splitLines_output, readRecords_text htext, recordsFrom_events]
    · intro event hevent
      obtain ⟨past, -, hmade⟩ := hall event hevent
      exact hmade.canonical
    · intro event hevent
      obtain ⟨past, hpast, hmade⟩ := hall event hevent
      exact hmade.integral (hintegral past hpast)

/-- In whatever order the workers make their steps, what they put down in the end can be read. -/
theorem Crew.Reachable.exists_chained {fresh : Session} {capacity workers : Nat} {clock : Clock}
    {log : List LogRecord} {c : Crew} (hfresh : f.create.Yields (.ok fresh))
    (hworkers : 1 ≤ workers)
    (hc : Crew.Reachable f ⟨Pool.withSeed fresh capacity, clock, log⟩
      (share workers (recordsFrom 1 lines)) c) (hdone : c.Done) :
    ∃ pasts, Chained f lines (output c.records) pasts (written c.records) := by
  obtain ⟨k, t, desks, ht, hbooked, hisolated⟩ := hc.isolated hfresh
  obtain ⟨htaken, -⟩ := hbooked.done hdone
  rw [flatten_share hworkers] at htaken
  -- A record that was taken is a record of the input, so its event was read from a line.
  have hread : ∀ task ∈ tasksOf desks, ∀ event, task.record.event? = some event →
      ∃ line ∈ lines, Fields.ofJson line = .ok event := by
    intro task htask event hevent
    have hrecord : task.record ∈ recordsFrom 1 lines := by
      rw [← htaken]
      exact List.mem_map_of_mem htask
    exact read_of_mem_recordsFrom hrecord hevent
  have hheard := Traffic.heard_of_reachable hfresh ht
  obtain ⟨pasts, hmade⟩ := exists_made hisolated hheard (hbooked.became hisolated hdone) hread
  exact ⟨pasts, chained_of_made hmade⟩

variable {env : Environment Id} {args : List String} {a : Arguments} {l : Loaded} {bytes : Bytes}
  {p : Progress}

/-- In whatever order the workers make their steps, what is written in the end can be read: if all
numbers in the input and in what the guest puts are integers, reading the output gives back the
events that were written, but for those that are nested too deep. The same holds of a run. -/
theorem run_chained (hargs : Arguments.parse args env.configVariable? = .ok a)
    (h : Opens env a l bytes p) (hlines : Lines bytes lines) :
    (∀ workers clock log c, 1 ≤ workers →
      Crew.Reachable l.processor.factory ⟨l.pool, clock, log⟩
        (share workers (recordsFrom 1 lines)) c →
      c.Done →
        ∃ pasts, Chained l.processor.factory lines (output c.records) pasts (written c.records)) ∧
    ∀ ending, run env args = some ending →
      ∃ pasts events, Chained l.processor.factory lines ending.output pasts events := by
  obtain ⟨fresh, capacity, hfresh, hpool⟩ := h.seed
  constructor
  · intro workers clock log c hworkers hc hdone
    rw [hpool] at hc
    exact hc.exists_chained hfresh hworkers hdone
  · intro ending hending
    obtain rfl := lines_iff.1 hlines
    rw [run_eq_runWith hargs, h.runWith_eq] at hending
    rcases text_or_spoiled (splitLines bytes) with
      htext | ⟨before, line, rest, hcut, hbefore, hline⟩
    · rw [readEvents_text htext] at hending
      obtain ⟨c, reports, hc, hdone, rfl⟩ := runEvents_done hending
      rw [hpool] at hc
      obtain ⟨pasts, hchained⟩ := hc.exists_chained hfresh (Nat.le_max_right _ _) hdone
      exact ⟨pasts, _, hchained⟩
    · -- Nothing has been written.
      rw [readEvents_spoiled hcut hbefore hline] at hending
      cases hending
      exact ⟨[], [], .nil, .nil, .nil, fun _ => rfl⟩

/-! ## A guest that stamps its events -/

/-- There is no number in the small input. -/
theorem integral_smallInput : ∀ line ∈ splitLines smallInput, ∀ event,
    Fields.ofJson line = .ok event → (Value.object event).Integral := by
  have hlines : splitLines smallInput =
      [utf8 "[]", utf8 "\x7b\"a\":null\x7d", [], utf8 "\x7b\"b\":true\x7d"] := by
    decide +kernel
  have hnull : Fields.ofJson (utf8 "\x7b\"a\":null\x7d") = .ok [("a", .null)] := rfl
  have htrue : Fields.ofJson (utf8 "\x7b\"b\":true\x7d") = .ok [("b", .bool true)] := rfl
  rw [hlines]
  simp only [List.forall_mem_cons, hnull, htrue, Except.ok.injEq, forall_eq']
  exact ⟨nofun, ⟨trivial, trivial⟩, nofun, ⟨trivial, trivial⟩, List.forall_mem_nil _⟩

/-- The events of two lines are stamped and written, and are read back with their stamps. -/
theorem run_chained_small :
    ∃ ending : Ending, ∃ pasts events,
      run (.small stamping smallInput) ["g"] = some ending ∧
      Chained (smallFactory stamping) (splitLines smallInput) ending.output pasts events ∧
      (∀ past ∈ pasts, past.puts = [("", stamp)] ∧ past.Integral) ∧
      events.length = 2 ∧
      (∀ event ∈ events, event.get? "" = some stamp ∧
        (Value.object event).nesting ≤ Json.maxNesting) ∧
      readRecords 1 (splitLines ending.output) = ⟨reread 1 events, none⟩ := by
  obtain ⟨l, p, hopens, hfactory⟩ := exists_opens_small stamping
  obtain ⟨-, hrun⟩ := run_chained Arguments.parse_small (hopens _) (lines_iff.2 rfl)
  rw [hfactory] at hrun
  obtain ⟨ending, hending, hshown⟩ := Option.map_eq_some_iff.1 run_stamping_small
  obtain ⟨-, houtput⟩ := Prod.mk.inj hshown
  obtain ⟨pasts, events, hchained⟩ := hrun ending hending
  have hstamper {past : PastVisit} {event : Fields}
      (h : Made (smallFactory stamping) (splitLines smallInput) past event) :
      Stamper past.found :=
    stamper_of_reachable (fun _ => stamper_smallFactory) h.reachable
  have hpasts : ∀ past ∈ pasts, past.puts = [("", stamp)] ∧ past.Integral := by
    intro past hpast
    obtain ⟨event, -, hmade⟩ := exists_of_mem_right hchained.made.flip past hpast
    have hmade : Made (smallFactory stamping) _ past event := hmade
    obtain ⟨line, hline, hread⟩ := hmade.read
    have hputs := hmade.heard.puts_of_stamper (hstamper hmade)
    refine ⟨hputs, integral_smallInput line hline _ hread, ?_⟩
    rw [hputs]
    exact List.forall_mem_singleton.2 ⟨trivial, trivial⟩
  have hlength : events.length = 2 := by
    have hlines := congrArg List.length (lines_iff.1 hchained.lines)
    rw [houtput, List.length_map] at hlines
    exact hlines.symm.trans (by decide +kernel)
  refine ⟨ending, pasts, events, hending, hchained, hpasts, hlength, fun event hevent => ⟨?_, ?_⟩,
    hchained.reread fun past hpast => (hpasts past hpast).2⟩
  · obtain ⟨past, -, hmade⟩ := exists_of_mem_right hchained.made event hevent
    obtain ⟨s', -, -, hended⟩ := (hstamper hmade).of_traced hmade.heard.traced
    rw [← hmade.event_eq, Option.some.inj hended]
    exact (Fields.get?_insert _ "" stamp "").trans (if_pos rfl)
  · -- The stamp is not as deep as a value can be.
    obtain ⟨past, hpast, hshallow | ⟨-, field, hfield, hdeep⟩⟩ :=
      exists_of_mem_right hchained.nesting event hevent
    · exact hshallow
    · rw [(hpasts past hpast).1] at hfield
      rw [List.mem_singleton.1 hfield] at hdeep
      exact absurd hdeep (by decide)

/-! ## The deepest value -/

/-- A guest that puts arrays in an array, as deep as can be. -/
def deepest : List Step :=
  [ .fill (.const 0) (.const 0x5B) (.const 127), .fill (.const 127) (.const 0x5D) (.const 127),
    .putField (.const 0) (.const 0) (.const 0) (.const 254) ]

/-- An empty array in `n` arrays. -/
def nested : Nat → Value
  | 0 => .array []
  | n + 1 => .array [nested n]

theorem integral_nested (n : Nat) : (nested n).Integral := by
  induction n with
  | zero => trivial
  | succ n ih => exact ⟨ih, trivial⟩

/-- A run that gets through writes a line that no run reads as an event, though there is no number
in it. -/
theorem deepest_unread :
    (run (.small deepest (utf8 "\x7b\x7d\n")) ["g"]).map Ending.shown =
        some (0, (Value.object [("", nested 126)]).toJson ++ [ascii '\n']) ∧
      (Value.object [("", nested 126)]).Integral ∧
      eventOf? (Value.object [("", nested 126)]).toJson = none ∧
      (run (.small deepest ((Value.object [("", nested 126)]).toJson ++ [ascii '\n']))
        ["g"]).map Ending.shown = some (1, []) := by
  refine ⟨?_, ⟨integral_nested 126, trivial⟩, ?_, ?_⟩
  · rw [run_small_eq]
    decide +kernel
  · exact Option.isNone_iff_eq_none.1 (by decide +kernel)
  · rw [run_small_eq]
    decide +kernel

end Cli

end EventSandbox
