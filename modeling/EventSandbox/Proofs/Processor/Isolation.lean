import EventSandbox.Proofs.Guest.Server
import EventSandbox.Proofs.Processor.Capacity
import EventSandbox.Proofs.Processor.Process
import Mathlib.Algebra.BigOperators.Group.Finset.Piecewise
import Mathlib.Algebra.Order.Group.Multiset

/-!
# EventSandbox.Proofs.Processor.Isolation — calls that overlap do not meet

However the steps of calls mix, each call is as if it were alone.

1. A session is in one place (`Traffic.holding_le`): idle, or with one call.
2. So what a call finds is what the last call with that session has left, and nobody touches it
   before it is given back (`Sound`).
3. What a call does in between is one run of `guestProcess` with its own event, and the host tells
   it of no other (`Visit.Reaches.alone`).

The history of every session is therefore a sequence of whole calls (`Whole`).
-/

namespace EventSandbox

open Pool

/-! ## Visits -/

/-- What a session is like when its next visit begins: new, or as the last visit has left it. -/
def Left (f : SessionFactory) : (history : List PastVisit) → Session → Prop
  | [], session => f.create.Yields (.ok session)
  | last :: _, session => session = last.ended.session

/-- Whatever the host has answered in a visit is about the event of that call. -/
def Visit.Served (visit : Visit) : Prop :=
  (Server.mk visit.event []).Accepts (labelsOf visit.heard)

/-- A visit is what processing its event alone does to the session that it has found: told the same
times, that writes the same records and ends alike. -/
structure PastVisit.Alone (past : PastVisit) : Prop where
  follow : (past.found.guestProcess past.event).follow Run.Host.reciting
    (timesOf past.heard, []) = some (past.ended, [], (recordsOf past.heard).reverse)
  served : past.Served

/-- A session has been visited by whole calls only, each of which has found what the one before has
left. -/
inductive Whole (f : SessionFactory) (number : Nat) : List PastVisit → Prop
  | nil : Whole f number []
  | cons {past : PastVisit} {history : List PastVisit} (h : Whole f number history)
      (hnumber : past.number = number) (hleft : Left f history past.found) (halone : past.Alone) :
      Whole f number (past :: history)

theorem Whole.alone {f : SessionFactory} {number : Nat} {history : List PastVisit}
    (h : Whole f number history) : ∀ past ∈ history, past.Alone := by
  induction h with
  | nil => exact List.forall_mem_nil _
  | cons _ _ _ halone ih => exact List.forall_mem_cons.2 ⟨halone, ih⟩

/-- How a call reports the end of its guest. -/
inductive Reports : Except ProcessorError Int32 → Except ProcessorError Unit → Prop
  | ok : Reports (.ok 0) (.ok ())
  | code {code : Int32} (h : code ≠ 0) :
      Reports (.ok code) (.error (.processingFailed code))
  | fault (error : ProcessorError) : Reports (.error error) (.error error)

theorem Processor.reports_resultOf (result : Except ProcessorError Int32) :
    Reports result (Processor.resultOf result) := by
  cases result with
  | error error => exact .fault error
  | ok code =>
    show Reports (.ok code) (if code = 0 then .ok () else .error (.processingFailed code))
    split
    · subst code
      exact .ok
    · exact .code ‹_›

/-- A visit has found what the history of its session has left, and has come to a point of its
run. -/
structure Visit.Reaches (f : SessionFactory) (history : List PastVisit) (visit : Visit)
    (run : Run Session.Ended) : Prop where
  left : Left f history visit.found
  path : (visit.found.guestProcess visit.event).Path visit.heard run

section Reaches

variable {f : SessionFactory} {history : List PastVisit} {visit : Visit} {run : Run Session.Ended}

theorem Visit.Reaches.served (h : visit.Reaches f history run) : visit.Served := by
  obtain ⟨trace, end?, hrest⟩ := run.exists_traced
  rcases Session.traced_guestProcess Server.follows_rules (h.path.traced hrest) with
    ⟨error, -, htrace, -⟩ | ⟨meter, exports, last?, hx, -, hfollows⟩
  · obtain ⟨hheard, -⟩ := List.append_eq_nil_iff.1 htrace
    unfold Visit.Served
    rw [hheard]
    exact trivial
  · obtain ⟨haccepts, -⟩ := hfollows ⟨visit.event, []⟩ ⟨rfl, by simp [Session.begin, hx]⟩
    exact (Server.accepts_append.1 haccepts).1

theorem Visit.Reaches.alone {past : PastVisit}
    (h : past.Reaches f history (.done past.ended)) : past.Alone where
  follow := by
    rw [h.path.follow, List.append_nil]
  served := h.served

end Reaches

/-- One step of a run, with what passes in it. -/
theorem Run.path_stepRun {α : Type} (run : Run α) (s : Shared) :
    run.Path (run.signals s.clock.now) (Call.stepRun s run).1 := by
  cases run with
  | done | endless => exact .here _
  | pause rest => exact .pause (.here _)
  | emit entry rest => exact .emit entry (.here _)
  | mark what rest => exact .mark what (.here _)
  | readClock resume => exact .readClock _ (.here _)

/-! ## Where sessions are -/

/-- The session that a call has. -/
def Client.number? (client : Client) : Option Nat :=
  match client.stage with
  | .built item => some item.number
  | .running visit _ | .lost (some visit) => some visit.number
  | .returning past => some past.number
  | _ => none

/-- The sessions that are idle or with a call. -/
def Traffic.holding (t : Traffic) : Multiset Nat :=
  ↑(t.pool.idle.map Numbered.number) + t.clients.filterMap Client.number?

/-- Callers of the pool have in their hands what calls have. -/
theorem Client.item_inHands (clients : Multiset Client) :
    (clients.filterMap Client.hold? + carried (clients.filterMap Client.op?)).map Hold.item =
      clients.filterMap Client.number? := by
  induction clients using Multiset.induction with
  | empty => rfl
  | cons client clients ih =>
    obtain ⟨event, stage⟩ := client
    rw [Multiset.map_add] at ih ⊢
    rcases stage with _ | _ | _ | _ | _ | _ | _ | _ | _ <;>
      simp [Multiset.filterMap_cons, op?, hold?, number?, ← ih]

/-- A session is in one place at most, and has been made. -/
theorem Traffic.holding_le {f : SessionFactory} {seed : Session} {capacity k : Nat} {clock : Clock}
    {records : List LogRecord} {t : Traffic}
    (h : Traffic.Reachable f k (Traffic.start seed capacity clock records) t) :
    t.holding ≤ Multiset.range t.made := by
  obtain ⟨s, hs, htracks⟩ := tracked h
  have haccounted := (Callers.inv_of_reachable hs.reachable).accounted
  unfold Callers.inHands at haccounted
  rw [htracks.made, htracks.pool, htracks.held, htracks.ops, Client.item_inHands] at haccounted
  exact Multiset.le_iff_exists_add.2 ⟨s.dropped, haccounted⟩

/-- Nobody else has the session that a call is about to give back. -/
theorem Traffic.alone_of_returning {t : Traffic} {event : Fields} {past : PastVisit}
    {rest : Multiset Client} (hholding : t.holding ≤ Multiset.range t.made)
    (hclient : t.clients = ⟨event, .returning past⟩ ::ₘ rest) :
    past.number < t.made ∧ (∀ item ∈ t.pool.idle, item.number ≠ past.number) ∧
      ∀ other ∈ rest, other.number? ≠ some past.number := by
  have hholds : t.holding = past.number ::ₘ
      (↑(t.pool.idle.map Numbered.number) + rest.filterMap Client.number?) := by
    unfold holding
    rw [hclient, Multiset.filterMap_cons_some Client.number? _ _ rfl, Multiset.add_cons]
  -- All numbers that are held are different, so this one is held here and nowhere else.
  rw [hholds] at hholding
  have hnodup := Multiset.nodup_of_le hholding (Multiset.nodup_range t.made)
  obtain ⟨halone, -⟩ := Multiset.nodup_cons.1 hnodup
  rw [Multiset.mem_add, not_or] at halone
  obtain ⟨hidle, hrest⟩ := halone
  refine ⟨Multiset.mem_range.1 (Multiset.mem_of_le hholding (Multiset.mem_cons_self _ _)),
    fun item hitem hn => hidle (hn ▸ List.mem_map_of_mem hitem), fun other hother hn => ?_⟩
  exact hrest ((Multiset.mem_filterMap _ _).2 ⟨other, hother, hn⟩)

/-! ## What every interleaving keeps -/

/-- The visit of a call that is over. -/
def Client.past? (client : Client) : Option PastVisit :=
  match client.stage with
  | .finished past => some past
  | _ => none

/-- All visits that are over. -/
def Traffic.pastVisits (t : Traffic) : Multiset PastVisit :=
  ∑ n ∈ Finset.range t.made, ↑(t.visits n)

theorem sum_record {made : Nat} (past : PastVisit) (visits : Nat → List PastVisit)
    (h : past.number < made) :
    ∑ n ∈ Finset.range made, (↑(past.record visits n) : Multiset PastVisit) =
      past ::ₘ ∑ n ∈ Finset.range made, ↑(visits n) := by
  have hsplit : ∀ n, (↑(past.record visits n) : Multiset PastVisit) =
      (if past.number = n then {past} else 0) + ↑(visits n) := by
    intro n
    split
    · subst n
      rw [past.record_self]
      rfl
    · rw [past.record_of_ne visits (Ne.symm ‹_›), zero_add]
  rw [Finset.sum_congr rfl fun n _ => hsplit n, Finset.sum_add_distrib, Finset.sum_ite_eq,
    if_pos (Finset.mem_range.2 h), Multiset.singleton_add]

/-- What is known of a call, given what its session's history is. -/
def Client.Sound (f : SessionFactory) (visits : Nat → List PastVisit) : Client → Prop
  | ⟨_, .waiting⟩ | ⟨_, .lost none⟩ => True
  | ⟨_, .building run⟩ => ∃ heard, f.create.Path heard run
  | ⟨_, .built item⟩ => Left f (visits item.number) item.session
  | ⟨event, .running visit run⟩ => visit.event = event ∧ visit.Reaches f (visits visit.number) run
  | ⟨event, .returning past⟩ =>
    past.event = event ∧ past.Reaches f (visits past.number) (.done past.ended)
  | ⟨event, .finished past⟩ => past.event = event ∧ past ∈ visits past.number
  | ⟨_, .failed _⟩ => False
  | ⟨event, .lost (some visit)⟩ =>
    visit.event = event ∧ visit.Reaches f (visits visit.number) .endless

/-- What every interleaving keeps. -/
structure Sound (f : SessionFactory) (t : Traffic) : Prop where
  whole : ∀ n, Whole f n (t.visits n)
  unused : ∀ n, t.made ≤ n → t.visits n = []
  idle : ∀ item ∈ t.pool.idle, Left f (t.visits item.number) item.session
  pastVisits : t.pastVisits = t.clients.filterMap Client.past?
  clients : ∀ client ∈ t.clients, client.Sound f t.visits

variable {f : SessionFactory} {t t' : Traffic} {client client' : Client} {rest : Multiset Client}
  {seed : Session} {past : PastVisit} {event : Fields} {visits : Nat → List PastVisit}

namespace Sound

theorem start (hseed : f.create.Yields (.ok seed)) (capacity : Nat) (clock : Clock)
    (records : List LogRecord) : Sound f (Traffic.start seed capacity clock records) where
  whole _ := .nil
  unused _ _ := rfl
  -- The pool holds the seed or nothing.
  idle item hitem := by
    have hitem : item ∈ (withSeed ⟨0, seed⟩ capacity : Pool Numbered).idle := hitem
    unfold withSeed offer at hitem
    split at hitem
    · rw [List.mem_singleton.1 hitem]
      exact hseed
    · cases hitem
  pastVisits := rfl
  clients _ hclient := absurd hclient (Multiset.notMem_zero _)

/-- A call goes on and no visit ends. -/
theorem turn (h : Sound f t) (hclient : t.clients = client ::ₘ rest)
    (hclient' : t'.clients = client' ::ₘ rest) (hsound : client'.Sound f t.visits)
    (hpast : client'.past? = client.past?) (hvisits : t'.visits = t.visits)
    (hmade : t.made ≤ t'.made) (hidle : t'.pool.idle ⊆ t.pool.idle) : Sound f t' where
  whole := hvisits ▸ h.whole
  unused n hn := by
    rw [hvisits]
    exact h.unused n (hmade.trans hn)
  idle item hitem := by
    rw [hvisits]
    exact h.idle item (hidle hitem)
  pastVisits := by
    -- Sessions that have been made since have no visits yet, so they add nothing to the sum.
    have hsum : t.pastVisits = ∑ n ∈ Finset.range t'.made, ↑(t.visits n) := by
      refine Finset.sum_subset (Finset.range_mono hmade) fun n _ hn => ?_
      rw [h.unused n (Nat.le_of_not_lt (mt Finset.mem_range.2 hn))]
      rfl
    unfold Traffic.pastVisits
    rw [hvisits, ← hsum, h.pastVisits, hclient, hclient', Multiset.filterMap_cons,
      Multiset.filterMap_cons, hpast]
  clients := by
    rw [hvisits, hclient', Multiset.forall_mem_cons]
    refine ⟨hsound, fun other hother => h.clients other ?_⟩
    rw [hclient]
    exact Multiset.mem_cons_of_mem hother

end Sound

/-- Who does not have the session whose visit ends sees no change. -/
theorem Client.Sound.record (h : client.Sound f visits)
    (hnumber : client.number? ≠ some past.number) : client.Sound f (past.record visits) := by
  -- Only the history of the session whose visit ends gets longer.
  have hother : ∀ n, some n = client.number? → past.record visits n = visits n := by
    intro n hn
    refine past.record_of_ne visits ?_
    rintro rfl
    exact hnumber hn.symm
  obtain ⟨event, stage⟩ := client
  cases stage with
  | waiting | building | failed => exact h
  | built item =>
    show Left f _ _
    rw [hother _ rfl]
    exact h
  | running visit run =>
    refine ⟨h.1, ?_⟩
    rw [hother _ rfl]
    exact h.2
  | returning own =>
    refine ⟨h.1, ?_⟩
    rw [hother _ rfl]
    exact h.2
  | finished own =>
    refine ⟨h.1, ?_⟩
    by_cases hn : own.number = past.number
    · rw [hn, past.record_self, ← hn]
      exact List.mem_cons_of_mem past h.2
    · rw [past.record_of_ne visits hn]
      exact h.2
  | lost visit? =>
    cases visit? with
    | none => exact trivial
    | some visit =>
      refine ⟨h.1, ?_⟩
      rw [hother _ rfl]
      exact h.2

theorem Pool.mem_put {ι : Type} {p : Pool ι} {item new : ι} (h : item ∈ (p.put new).2.idle) :
    item = new ∨ item ∈ p.idle := by
  unfold put offer at h
  split at h
  · exact List.mem_cons.1 h
  · exact .inr h

/-- A visit ends, and its session goes back to the pool. -/
theorem Sound.finish (h : Sound f t) (hholding : t.holding ≤ Multiset.range t.made)
    (hclient : t.clients = ⟨event, .returning past⟩ ::ₘ rest) :
    Sound f (t.next f ⟨event, .returning past⟩ rest) := by
  have hclients := h.clients
  rw [hclient, Multiset.forall_mem_cons] at hclients
  obtain ⟨⟨hevent, hreaches⟩, hothers⟩ := hclients
  -- No other call has the session, and it is not idle, so that nobody else relies on its history.
  obtain ⟨hmade, hidle, hrest⟩ := Traffic.alone_of_returning hholding hclient
  refine ⟨fun n => ?_, fun n hn => ?_, fun item hitem => ?_, ?_, ?_⟩
  · show Whole f n (past.record t.visits n)
    by_cases hn : n = past.number
    · subst hn
      rw [past.record_self]
      exact .cons (h.whole _) rfl hreaches.left hreaches.alone
    · rw [past.record_of_ne t.visits hn]
      exact h.whole n
  · show past.record t.visits n = []
    rw [past.record_of_ne t.visits (Nat.ne_of_gt (hmade.trans_le hn))]
    exact h.unused n hn
  · show Left f (past.record t.visits item.number) item.session
    rcases mem_put hitem with rfl | hitem
    · rw [past.record_self]
      rfl
    · rw [past.record_of_ne t.visits (hidle item hitem)]
      exact h.idle item hitem
  · have hpasts := h.pastVisits
    rw [hclient, Multiset.filterMap_cons_none _ _ rfl] at hpasts
    refine (sum_record past t.visits hmade).trans ((congrArg _ hpasts).trans ?_)
    exact (Multiset.filterMap_cons_some Client.past? _ _ rfl).symm
  · show ∀ other ∈ ⟨event, .finished past⟩ ::ₘ rest, other.Sound f (past.record t.visits)
    rw [Multiset.forall_mem_cons]
    refine ⟨⟨hevent, ?_⟩, fun other hother => (hothers other hother).record (hrest other hother)⟩
    rw [past.record_self]
    exact List.mem_cons_self

theorem Sound.step (hseed : f.create.Yields (.ok seed)) (h : Sound f t)
    (hholding : t.holding ≤ Multiset.range t.made) (hstep : t.Step f t') : Sound f t' := by
  cases hstep with
  | enter event =>
    exact ⟨h.whole, h.unused, h.idle,
      h.pastVisits.trans (Multiset.filterMap_cons_none _ _ rfl).symm,
      Multiset.forall_mem_cons.2 ⟨trivial, h.clients⟩⟩
  | pass clock => exact ⟨h.whole, h.unused, h.idle, h.pastVisits, h.clients⟩
  | @advance client rest hclient =>
    have hsound := h.clients client (hclient ▸ Multiset.mem_cons_self client rest)
    obtain ⟨event, stage⟩ := client
    cases stage with
    | waiting =>
      unfold Traffic.next
      rcases hpop : t.pool.pop with ⟨_ | item, pool⟩
      · rw [Client.step_miss hpop]
        obtain ⟨-, rfl⟩ := Callers.pop_eq_none hpop
        exact h.turn hclient rfl ⟨[], .here _⟩ rfl rfl le_rfl (List.Subset.refl _)
      · rw [Client.step_take hpop]
        obtain ⟨hidle, -, -⟩ := Callers.pop_eq_some hpop
        have hleft := h.idle item (hidle ▸ List.mem_cons_self)
        exact h.turn hclient rfl ⟨rfl, hleft, .here _⟩ rfl rfl le_rfl
          (hidle ▸ List.subset_cons_self item _)
    | building run =>
      obtain ⟨heard, hpath⟩ := hsound
      have hnext := hpath.trans (run.path_stepRun t.shared)
      rcases run with (error | session) | _ | _ | _ | _ | _
      · -- The guest has yielded a session once, so it always does.
        cases f.timeless_create.unique hseed ⟨heard, hpath⟩
      · refine h.turn hclient rfl ?_ rfl rfl (Nat.le_succ _) (List.Subset.refl _)
        show Left f (t.visits t.made) session
        rw [h.unused _ (Nat.le_refl _)]
        exact ⟨heard, hpath⟩
      · exact h.turn hclient rfl trivial rfl rfl le_rfl (List.Subset.refl _)
      all_goals
        exact h.turn hclient rfl ⟨_, hnext⟩ rfl rfl le_rfl (List.Subset.refl _)
    | built item =>
      exact h.turn hclient rfl ⟨rfl, hsound, .here _⟩ rfl rfl le_rfl (List.Subset.refl _)
    | running visit run =>
      obtain ⟨hevent, hleft, hpath⟩ := hsound
      have hnext := hpath.trans (run.path_stepRun t.shared)
      cases run with
      | done | endless =>
        exact h.turn hclient rfl ⟨hevent, hleft, hpath⟩ rfl rfl le_rfl (List.Subset.refl _)
      | _ =>
        exact h.turn hclient rfl ⟨hevent, hleft, hnext⟩ rfl rfl le_rfl (List.Subset.refl _)
    | returning past => exact h.finish hholding hclient
    | finished past | failed error | lost visit? =>
      exact h.turn hclient rfl hsound rfl rfl le_rfl (List.Subset.refl _)

theorem Sound.of_reachable {capacity k : Nat} {clock : Clock} {records : List LogRecord}
    (hseed : f.create.Yields (.ok seed))
    (h : Traffic.Reachable f k (Traffic.start seed capacity clock records) t) : Sound f t := by
  induction h with
  | start => exact .start hseed capacity clock records
  | step ht hstep _ ih => exact ih.step hseed (Traffic.holding_le ht) hstep

/-- A step ends a visit, or it leaves the visits that are over as they are. -/
theorem Client.visits_step (f : SessionFactory) (t : Traffic) (client : Client) :
    (client.step f t).2.visits = t.visits ∨
      ∃ event past, client = ⟨event, .returning past⟩ ∧
        (client.step f t).2.visits = past.record t.visits := by
  obtain ⟨event, stage⟩ := client
  -- Only a call that gives its session back adds a visit.
  cases stage with
  | waiting =>
    left
    rcases hpop : t.pool.pop with ⟨_ | item, pool⟩
    · rw [step_miss hpop]
    · rw [step_take hpop]
  | building run =>
    left
    rcases run with (error | session) | _ | _ | _ | _ | _ <;> rfl
  | running visit run =>
    left
    cases run <;> rfl
  | returning past => exact .inr ⟨event, past, rfl, rfl⟩
  | built | finished | failed | lost => exact .inl rfl

/-- What a visit that is over has heard is what its guest and the host have exchanged from its
beginning to its end. -/
def PastVisit.Heard (past : PastVisit) : Prop :=
  (past.found.guestProcess past.event).Path past.heard (.done past.ended)

theorem Traffic.heard_of_reachable {capacity k : Nat} {clock : Clock} {records : List LogRecord}
    (hseed : f.create.Yields (.ok seed))
    (h : Traffic.Reachable f k (Traffic.start seed capacity clock records) t) :
    ∀ n, ∀ past ∈ t.visits n, past.Heard := by
  induction h with
  | start => exact fun _ => List.forall_mem_nil _
  | @step t t' ht hstep _ ih =>
    cases hstep with
    | enter event => exact ih
    | pass clock => exact ih
    | @advance client rest hclient =>
      intro n past hpast
      have hpast : past ∈ (client.step f t).2.visits n := hpast
      -- The visits are what they were, or the last one of this call has come on top.
      rcases client.visits_step f t with hkept | ⟨event, last, rfl, hrecord⟩
      · rw [hkept] at hpast
        exact ih n past hpast
      · have hmem : (⟨event, .returning last⟩ : Client) ∈ t.clients :=
          hclient ▸ Multiset.mem_cons_self _ rest
        obtain ⟨-, hreaches⟩ := (Sound.of_reachable hseed ht).clients _ hmem
        rw [hrecord] at hpast
        -- It is on top of the history of its own session, and no other history has changed.
        by_cases hn : n = last.number
        · subst hn
          rw [last.record_self] at hpast
          rcases List.mem_cons.1 hpast with rfl | hbefore
          · exact hreaches.path
          · exact ih _ past hbefore
        · rw [last.record_of_ne t.visits hn] at hpast
          exact ih n past hpast

/-! ## Isolation -/

/-- Calls that overlap are whole calls, one after another on each session. -/
structure Traffic.Isolated (f : SessionFactory) (t : Traffic) : Prop where
  /-- No session is in two places. -/
  exclusive : t.holding.Nodup
  /-- What has happened to a session is a sequence of whole calls. -/
  whole : ∀ n, Whole f n (t.visits n)
  /-- These are the calls that are over, each of them once. -/
  accounted : t.pastVisits = t.clients.filterMap Client.past?
  /-- A guest that runs has been given the event of its caller, by a host that tells it of no other,
  and has begun where the last call with its session has ended. -/
  running : ∀ {client visit run}, client ∈ t.clients → client.stage = .running visit run →
    visit.event = client.event ∧ visit.Reaches f (t.visits visit.number) run ∧ visit.Served
  /-- A caller learns how its own event has been processed alone, in a visit of that history. -/
  finished : ∀ {client outcome}, client ∈ t.clients → client.call = .finished outcome →
    ∃ past, client.past? = some past ∧ past ∈ t.visits past.number ∧ past.event = client.event ∧
      past.Alone ∧ outcome.event = past.ended.event ∧ Reports past.ended.result outcome.result

theorem Sound.isolated (h : Sound f t) (hholding : t.holding ≤ Multiset.range t.made) :
    t.Isolated f where
  exclusive := Multiset.nodup_of_le hholding (Multiset.nodup_range t.made)
  whole := h.whole
  accounted := h.pastVisits
  running := by
    rintro ⟨event, stage⟩ visit run hclient rfl
    obtain ⟨hevent, hreaches⟩ := h.clients _ hclient
    exact ⟨hevent, hreaches, hreaches.served⟩
  finished := by
    rintro ⟨event, stage⟩ outcome hclient houtcome
    have hsound := h.clients _ hclient
    -- Only a call that has finished shows an outcome, and none has failed to make its session.
    cases stage with
    | finished past =>
      cases houtcome
      exact ⟨past, rfl, hsound.2, hsound.1, (h.whole _).alone past hsound.2, rfl,
        Processor.reports_resultOf past.ended.result⟩
    | failed error => exact hsound.elim
    | _ => cases houtcome

/-- However the steps of calls mix, each call is `guestProcess` alone: on its own event, with a
session that is new or as the last call has left it, and with what the guest's code says as its
result. The record that tells sessions apart leaves the calls as they are. -/
theorem calls_isolated {config : ProcessorConfig} {module : Except ProcessorError CompiledModule}
    {pace : Nat} {p : Processor} {pool : Pool Session}
    (hbuild : (Processor.build config module pace).Yields (.ok (p, pool))) :
    ∃ seed, pool = Pool.withSeed seed config.maxCachedSessions.toNat ∧
      ∀ k clock records,
        let before := Traffic.start seed config.maxCachedSessions.toNat clock records
        (∀ calls, Calls.Reachable p.factory k ⟨pool, clock, records⟩ calls ↔
          ∃ t, Traffic.Reachable p.factory k before t ∧ t.calls = calls) ∧
        ∀ t, Traffic.Reachable p.factory k before t → t.Isolated p.factory := by
  obtain ⟨seed, hseed, rfl⟩ := Processor.build_yields hbuild
  refine ⟨seed, rfl, fun k clock records => ⟨fun calls => ⟨fun h => ?_, ?_⟩, fun t ht => ?_⟩⟩
  · -- Whatever the calls do, they do with numbers as well,
    rw [← Traffic.start_shared] at h
    exact Traffic.Reachable.lift rfl h
  · -- and what is done with numbers is done without them.
    rintro ⟨t, ht, rfl⟩
    have h := ht.erase rfl
    rw [Traffic.start_shared] at h
    exact h
  · exact (Sound.of_reachable hseed ht).isolated (Traffic.holding_le ht)

/-- The steps of a guest that asks for the time and for a field, and returns what has come of
that. -/
def asking : List Step :=
  [.currentTime (.const 8), .getField (.const 0) (.const 0) (.const 0) (.const 4), .ret .status]

/-- What the two calls share at first: one session, and a clock. -/
def askingStart : Shared :=
  ⟨Pool.withSeed (Session.small ⟨.steps [], .steps asking⟩ none) 1, ⟨0, 1⟩, []⟩

/-- Two calls of that guest after some turns, one on the first session and one on a new one. -/
def askingTurns (turns : Nat) : Shared × Call × Call :=
  Calls.takeTurns (Processor.small asking 1).factory turns askingStart
    (.waiting [("", .null)]) (.waiting [])

theorem reachable_askingTurns (turns : Nat) :
    Calls.Reachable (Processor.small asking 1).factory 2 askingStart
      ⟨(askingTurns turns).1, {(askingTurns turns).2.1, (askingTurns turns).2.2}⟩ := by
  have hentered : Calls.Reachable (Processor.small asking 1).factory 2 askingStart
      ⟨askingStart, {.waiting [("", .null)], .waiting []}⟩ :=
    .step (.step .start (.enter []) (by decide)) (.enter _) (by decide)
  exact hentered.takeTurns turns

/-- After six turns both have been told the time and neither is over. In the end each has been told
of its own event. -/
theorem calls_isolated_two :
    (askingTurns 6).1.clock.now = 2 ∧
      (askingTurns 6).2.1.isOpen ∧ (askingTurns 6).2.2.isOpen ∧
      ∃ t : Traffic, t.shared = (askingTurns 13).1 ∧
        t.calls.calls = {.finished ⟨.ok (), [("", .null)]⟩,
          .finished ⟨.error (.processingFailed 3), []⟩} ∧
        t.Isolated (Processor.small asking 1).factory := by
  refine ⟨by decide +kernel, by decide +kernel, by decide +kernel, ?_⟩
  obtain ⟨seed, -, h⟩ := calls_isolated (Processor.small_build asking 1)
  obtain ⟨hcalls, hisolated⟩ := h 2 ⟨0, 1⟩ []
  obtain ⟨t, ht, hturns⟩ := (hcalls _).1 (reachable_askingTurns 13)
  have hends : (askingTurns 13).2 = (.finished ⟨.ok (), [("", .null)]⟩,
      .finished ⟨.error (.processingFailed 3), []⟩) := rfl
  refine ⟨t, congrArg Calls.shared hturns, ?_, hisolated t ht⟩
  rw [hturns, hends]

end EventSandbox
