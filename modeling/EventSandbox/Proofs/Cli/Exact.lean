import EventSandbox.Proofs.Cli.Schedule
import EventSandbox.Proofs.Cli.Stages

/-!
# EventSandbox.Proofs.Cli.Exact — what a run writes, line for line

A run reads all of its input or nothing. If it reads it, every line that is not blank is one record,
every record goes to one worker, and what the workers have put down in the end is written in the
order of the input: one line for each record whose event was processed, with what that event has
become. The others are counted, and their number decides how the run ends.

This holds in whatever order the workers make their steps (`run_exact`), and of every run that comes
to its end. With a limit for the guest each run does (`run_ends`).
-/

namespace EventSandbox.Cli

/-- What is left of records when all is done. -/
structure Exact (records : List Record) (t : Traffic) (tasks : List Task) (c : Crew) : Prop where
  /-- Each record has been taken once, -/
  taken : tasks.map Task.record = records
  /-- and stands in its place as what its own event has become. -/
  became : List.Forall₂ (Task.Became t) tasks c.records
  /-- Each event that is left is one line. -/
  lines : Lines (output c.records)
    ((written c.records).map fun event => (Value.object event).toJson)
  total : (written c.records).length + failures c.records = records.length
  ending : ∀ p : Progress, (p.finish c.records).output = output c.records ∧
    ((p.finish c.records).exitCode = 0 ↔ failures c.records = 0)

variable {env : Environment Id} {args : List String} {a : Arguments} {l : Loaded} {bytes : Bytes}
  {p : Progress} {lines : List Bytes} {f : SessionFactory} {shares : List (List Record)} {c : Crew}
  {t : Traffic} {desks : List Desk}

theorem Progress.exitCode_finish (p : Progress) (records : List Record) :
    (p.finish records).exitCode = 0 ↔ failures records = 0 := by
  unfold finish
  dsimp only
  split_ifs with h
  · exact iff_of_true rfl h
  · exact iff_of_false (by decide) h

theorem Crew.Booked.exact (h : c.Booked shares t desks) (ht : t.Isolated f) (hdone : c.Done) :
    Exact shares.flatten t (tasksOf desks) c where
  taken := (h.done hdone).1
  became := h.became ht hdone
  lines := lines_iff.2 (splitLines_output c.records)
  total := by
    obtain ⟨htaken, hresults⟩ := h.done hdone
    have hlength : c.records.length = shares.flatten.length := by
      have hboth := congrArg List.length hresults
      rw [List.length_map, List.length_map] at hboth
      rw [← hboth, ← htaken, List.length_map]
    rw [written_add_failures, hlength]
  ending p := ⟨rfl, p.exitCode_finish c.records⟩

/-- A run whose input holds a line that is not text fails as a whole, and what it writes and reports
does not depend on the guest. Otherwise the lines that are not blank are divided among the workers;
in whatever order these make their steps, each record is with one worker, taken at most once and in
order, the calls are those of the records that have been taken, each as if it were alone, and when
all is done the output is exact. The run itself ends like that, unless a guest never comes back. -/
theorem run_exact (hargs : Arguments.parse args env.configVariable? = .ok a)
    (h : Opens env a l bytes p) (hlines : Lines bytes lines) :
    let workers := max (a.workers?.getD env.units).toNat 1
    let records := recordsFrom 1 lines
    (∀ before line rest, lines = before ++ line :: rest → (∀ line ∈ before, IsText line) →
      ¬ IsText line → ∃ ending, run env args = some ending ∧
        ending = (p.tell (invalidEvents (recordsFrom 1 before))).fail
          ["Failed to read line " ++ toString (1 + before.length), notUtf8] ∧
        ending.output = [] ∧ ending.exitCode = 1) ∧
    ((∀ line ∈ lines, IsText line) →
      Divided workers records (share workers records) ∧
      (∀ clock log c,
        Crew.Reachable l.processor.factory ⟨l.pool, clock, log⟩ (share workers records) c →
          ∃ t desks, c.Booked (share workers records) t desks ∧ t.Isolated l.processor.factory ∧
            (c.Done → Exact records t (tasksOf desks) c)) ∧
      ∀ ending, run env args = some ending → ∃ c reports,
        Crew.Reachable l.processor.factory ⟨l.pool, l.clock, []⟩ (share workers records) c ∧
        c.Done ∧ ending = (p.tell reports).finish c.records) := by
  intro workers records
  have hworkers : 1 ≤ workers := Nat.le_max_right _ _
  obtain rfl := lines_iff.1 hlines
  rw [run_eq_runWith hargs, h.runWith_eq]
  constructor
  · -- The spoiled line is found before anything is processed.
    intro before line rest hcut hbefore hline
    rw [readEvents_spoiled hcut hbefore hline]
    exact ⟨_, rfl, rfl, rfl, rfl⟩
  · intro htext
    have hdivided := divided_share hworkers records
    refine ⟨hdivided, ?_, ?_⟩
    · -- A crew in any order of steps, not only in that of the run.
      intro clock log c hc
      obtain ⟨fresh, capacity, hfresh, hpool⟩ := h.seed
      rw [hpool] at hc
      obtain ⟨k, t, desks, -, hbooked, hisolated⟩ := hc.isolated hfresh
      refine ⟨t, desks, hbooked, hisolated, ?_⟩
      intro hdone
      have hexact := hbooked.exact hisolated hdone
      rw [hdivided.flatten] at hexact
      exact hexact
    · -- The run lets worker after worker finish, and so ends as one of these crews.
      intro ending hending
      rw [readEvents_text htext] at hending
      obtain ⟨c, reports, hc, hdone, hending⟩ := runEvents_done hending
      exact ⟨c, invalidEvents records ++ reports, hc, hdone, by
        rw [hending, Progress.tell, Progress.tell, Progress.tell, List.append_assoc]⟩

/-- Of three lines one is blank, one holds no event; a byte that is no text ends the other run. -/
theorem run_exact_small :
    (∃ (l : Loaded) (c : Crew) (t : Traffic) (desks : List Desk) (ending : Ending),
      run (.small [] (utf8 "\x7b\x7d\n\n[]")) ["g"] = some ending ∧
      Crew.Reachable l.processor.factory ⟨l.pool, l.clock, []⟩
        (share 2 (recordsFrom 1 [utf8 "\x7b\x7d", [], utf8 "[]"])) c ∧
      c.Done ∧
      Exact (recordsFrom 1 [utf8 "\x7b\x7d", [], utf8 "[]"]) t (tasksOf desks) c ∧
      ending.output = output c.records ∧ ending.output = utf8 "\x7b\x7d\n" ∧
      ending.exitCode = 1) ∧
    ∃ ending : Ending, run (.small [] (utf8 "\x7b\x7d\n" ++ [0xFF])) ["g"] = some ending ∧
      ending.output = [] ∧ ending.exitCode = 1 := by
  let bytes := utf8 "\x7b\x7d\n\n[]"
  obtain ⟨l, p, hopens, -⟩ := exists_opens_small []
  constructor
  · -- The run that writes a line, and counts the one that holds no event.
    have hlines : Lines bytes [utf8 "\x7b\x7d", [], utf8 "[]"] := lines_iff.2 (by decide +kernel)
    obtain ⟨-, h⟩ := run_exact Arguments.parse_small (hopens _) hlines
    obtain ⟨-, hcrew, hend⟩ := h (by decide +kernel)
    obtain ⟨ending, hrun, hending⟩ := Option.map_eq_some_iff.1 run_small
    obtain ⟨c, reports, hc, hdone, rfl⟩ := hend ending hrun
    obtain ⟨t, desks, -, -, hexact⟩ := hcrew _ _ c hc
    obtain ⟨hcode, houtput⟩ := Prod.mk.inj hending
    exact ⟨l, c, t, desks, _, hrun, hc, hdone, hexact hdone, rfl, houtput, hcode⟩
  · -- The run that a byte which is no text ends.
    have hlines : Lines (utf8 "\x7b\x7d\n" ++ [0xFF]) [utf8 "\x7b\x7d", [0xFF]] :=
      lines_iff.2 (by decide +kernel)
    obtain ⟨h, -⟩ := run_exact Arguments.parse_small (hopens _) hlines
    obtain ⟨ending, hrun, -, houtput, hcode⟩ :=
      h [utf8 "\x7b\x7d"] [0xFF] [] rfl (by decide +kernel) (by decide +kernel)
    exact ⟨ending, hrun, houtput, hcode⟩

end EventSandbox.Cli
