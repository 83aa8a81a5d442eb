import EventSandbox.Processor.Interleaving
import EventSandbox.Proofs.Guest.Path
import EventSandbox.Proofs.Pool.Occupancy

/-!
# EventSandbox.Proofs.Processor.Traffic — the calls of a processor, with a record of them

Any number of calls come in, and their steps mix in any order (`Calls.Step`). What there is then to
see does not tell one session from another. `Traffic` is the same system with a record: sessions
have numbers, a client is known by the event that it came with, and every session keeps the list of
the visits that it has had.

The record does not change what happens: without it `Traffic` is `Calls`, step by step and in both
directions (`Step.erase`, `Step.lift`).
-/

namespace EventSandbox

/-! ## Pools of other items -/

namespace Pool

variable {α β : Type} (g : α → β) (p : Pool α)

/-- A pool with every item replaced by what stands for it. -/
def map : Pool β := ⟨p.idle.map g, p.capacity, p.created⟩

theorem pop_map : (p.map g).pop = (p.pop.1.map g, p.pop.2.map g) := by
  obtain ⟨_ | ⟨item, rest⟩, capacity, created⟩ := p <;> rfl

theorem offer_map (item : α) :
    (p.map g).offer (g item) = ((p.offer item).1, (p.offer item).2.map g) := by
  unfold offer map
  rw [List.length_map]
  split <;> rfl

end Pool

/-! ## Calls -/

/-- What a caller is told when its guest has ended. -/
def Session.Ended.outcome (ended : Session.Ended) : Outcome :=
  ⟨Processor.resultOf ended.result, ended.event⟩

/-- What calls share, and the calls: those that are open and those that are over. -/
structure Calls where
  shared : Shared
  calls : Multiset Call

section Pop

variable {f : SessionFactory} {s : Shared} {event : Fields} {session : Session}
  {pool : Pool Session}

theorem Call.step_take (hpop : s.pool.pop = (some session, pool)) :
    (waiting event).step f s = (running (session.guestProcess event), { s with pool }) := by
  unfold step
  rw [hpop]

theorem Call.step_miss (hpop : s.pool.pop = (none, pool)) :
    (waiting event).step f s = (building event f.create, { s with pool }) := by
  unfold step
  rw [hpop]

end Pop

/-- Whether a call is still to be finished. -/
def Call.isOpen : Call → Bool
  | .finished _ => false
  | _ => true

namespace Calls

/-- How many calls are open. -/
def openCount (s : Calls) : Nat := s.calls.countP (·.isOpen)

/-- A call comes in, makes the step that comes next in it, or the clock is set. -/
inductive Step (f : SessionFactory) (s : Calls) : Calls → Prop
  | enter (event : Fields) : Step f s { s with calls := .waiting event ::ₘ s.calls }
  | advance {call : Call} {rest : Multiset Call} (hcall : s.calls = call ::ₘ rest) :
      Step f s ⟨(call.step f s.shared).2, (call.step f s.shared).1 ::ₘ rest⟩
  | pass (clock : Clock) : Step f s { s with shared := { s.shared with clock } }

/-- The states that some order of steps reaches with at most `k` calls open at any time. -/
inductive Reachable (f : SessionFactory) (k : Nat) (before : Shared) : Calls → Prop
  | start : Reachable f k before ⟨before, 0⟩
  | step {s s' : Calls} (hs : Reachable f k before s) (h : s.Step f s') (hopen : s'.openCount ≤ k) :
      Reachable f k before s'

namespace Reachable

variable {f : SessionFactory} {k : Nat} {before s : Shared} {call : Call} {rest : Multiset Call}

theorem openCount_le {s : Calls} (h : Reachable f k before s) : s.openCount ≤ k := by
  cases h with
  | start => exact Nat.zero_le k
  | step _ _ hopen => exact hopen

/-- A call may always make its next step. -/
theorem advance (h : Reachable f k before ⟨s, call ::ₘ rest⟩) :
    Reachable f k before ⟨(call.step f s).2, (call.step f s).1 ::ₘ rest⟩ := by
  refine h.step (.advance rfl) (le_trans ?_ h.openCount_le)
  unfold openCount
  rw [Multiset.countP_cons, Multiset.countP_cons]
  -- A call that is over stays so.
  cases call with
  | finished outcome => exact Nat.le_refl _
  | _ =>
    refine Nat.add_le_add_left ?_ _
    show (if _ then _ else _) ≤ 1
    split <;> omega

end Reachable

end Calls

/-! ## Records -/

/-- A session, told apart from others. -/
structure Numbered where
  number : Nat
  session : Session

/-- What a call does with a session: which one, how it found it, and what has passed between the
guest and the host since. -/
structure Visit where
  number : Nat
  event : Fields
  found : Session
  heard : List Signal

/-- A visit that is over. -/
structure PastVisit extends Visit where
  ended : Session.Ended

namespace PastVisit

variable (past : PastVisit) (visits : Nat → List PastVisit)

/-- The visits of all sessions, with one more. -/
def record : Nat → List PastVisit :=
  Function.update visits past.number (past :: visits past.number)

@[simp] theorem record_self : past.record visits past.number = past :: visits past.number :=
  Function.update_self ..

theorem record_of_ne {n : Nat} (h : n ≠ past.number) : past.record visits n = visits n :=
  Function.update_of_ne h ..

end PastVisit

/-- How far a call has come. -/
inductive Stage
  | waiting
  | building (run : Run (Except ProcessorError Session))
  | built (item : Numbered)
  | running (visit : Visit) (run : Run Session.Ended)
  | returning (past : PastVisit)
  | finished (past : PastVisit)
  /-- No session could be made. -/
  | failed (error : ProcessorError)
  /-- Never comes back, nor does what it holds. -/
  | lost (visit? : Option Visit)

/-- Whoever makes a call, known by the event. -/
structure Client where
  event : Fields
  stage : Stage

/-- The call without its record. -/
def Client.call : Client → Call
  | ⟨event, .waiting⟩ => .waiting event
  | ⟨event, .building run⟩ => .building event run
  | ⟨event, .built item⟩ => .built event item.session
  | ⟨_, .running _ run⟩ => .running run
  | ⟨_, .returning past⟩ => .returning past.ended
  | ⟨_, .finished past⟩ => .finished past.ended.outcome
  | ⟨event, .failed error⟩ => .finished ⟨.error error, event⟩
  | ⟨_, .lost _⟩ => .lost

/-- The state of a processor with its record. -/
structure Traffic where
  pool : Pool Numbered
  clock : Clock
  records : List LogRecord
  clients : Multiset Client
  /-- How many sessions have been made. -/
  made : Nat
  /-- The visits that each session has had, last first. -/
  visits : Nat → List PastVisit

/-- What passes between a run and its host in the step that comes next. -/
def Run.signals {α : Type} (now : Int64) : Run α → List Signal
  | .emit entry _ => [.shown (.record entry)]
  | .mark what _ => [.shown (.moment what)]
  | .readClock _ => [.told now]
  | .done _ | .endless | .pause _ => []

namespace Traffic

/-- What calls share. -/
def shared (t : Traffic) : Shared := ⟨t.pool.map Numbered.session, t.clock, t.records⟩

/-- The calls without the record. -/
def calls (t : Traffic) : Calls := ⟨t.shared, t.clients.map Client.call⟩

/-- A processor around a first session. -/
def start (seed : Session) (capacity : Nat) (clock : Clock) (records : List LogRecord) :
    Traffic where
  pool := Pool.withSeed ⟨0, seed⟩ capacity
  clock
  records
  clients := 0
  made := 1
  visits := fun _ => []

theorem start_shared (seed : Session) (capacity : Nat) (clock : Clock) (records : List LogRecord) :
    (start seed capacity clock records).shared =
      ⟨Pool.withSeed seed capacity, clock, records⟩ := by
  have hoffer := (Pool.empty capacity).offer_map Numbered.session ⟨0, seed⟩
  exact congrArg (Shared.mk · clock records) (congrArg Prod.snd hoffer).symm

end Traffic

/-- A call takes a session. -/
def Stage.enter (event : Fields) (item : Numbered) : Stage :=
  .running ⟨item.number, event, item.session, []⟩ (item.session.guestProcess event)

/-- The step that comes next in a call, with its record. -/
def Client.step (f : SessionFactory) (t : Traffic) : Client → Client × Traffic
  | ⟨event, .waiting⟩ =>
    match t.pool.pop with
    | (some item, pool) => (⟨event, .enter event item⟩, { t with pool })
    | (none, pool) => (⟨event, .building f.create⟩, { t with pool })
  | ⟨event, .building run⟩ =>
    match run with
    | .done (.ok session) => (⟨event, .built ⟨t.made, session⟩⟩, { t with made := t.made + 1 })
    | .done (.error error) => (⟨event, .failed error⟩, t)
    | .endless => (⟨event, .lost none⟩, t)
    | run =>
      let (run, s) := Call.stepRun t.shared run
      (⟨event, .building run⟩, { t with clock := s.clock, records := s.records })
  | ⟨event, .built item⟩ => (⟨event, .enter event item⟩, { t with pool := t.pool.countBuilt })
  | ⟨event, .running visit run⟩ =>
    match run with
    | .done ended => (⟨event, .returning ⟨visit, ended⟩⟩, t)
    | .endless => (⟨event, .lost (some visit)⟩, t)
    | run =>
      let heard := visit.heard ++ run.signals t.clock.now
      let (run, s) := Call.stepRun t.shared run
      (⟨event, .running { visit with heard } run⟩,
        { t with clock := s.clock, records := s.records })
  | ⟨event, .returning past⟩ =>
    (⟨event, .finished past⟩,
      { t with
        pool := (t.pool.put ⟨past.number, past.ended.session⟩).2
        visits := past.record t.visits })
  | ⟨event, stage⟩ => (⟨event, stage⟩, t)

section Pop

variable {f : SessionFactory} {t : Traffic} {event : Fields} {item : Numbered}
  {pool : Pool Numbered}

theorem Client.step_take (hpop : t.pool.pop = (some item, pool)) :
    Client.step f t ⟨event, .waiting⟩ = (⟨event, .enter event item⟩, { t with pool }) := by
  unfold step
  dsimp only
  rw [hpop]

theorem Client.step_miss (hpop : t.pool.pop = (none, pool)) :
    Client.step f t ⟨event, .waiting⟩ = (⟨event, .building f.create⟩, { t with pool }) := by
  unfold step
  dsimp only
  rw [hpop]

end Pop

namespace Traffic

/-- The state after the step that comes next in one of the calls. -/
def next (f : SessionFactory) (t : Traffic) (client : Client) (rest : Multiset Client) : Traffic :=
  { (client.step f t).2 with clients := (client.step f t).1 ::ₘ rest }

/-- The steps of `Calls`, with the record kept. -/
inductive Step (f : SessionFactory) (t : Traffic) : Traffic → Prop
  | enter (event : Fields) : Step f t { t with clients := ⟨event, .waiting⟩ ::ₘ t.clients }
  | advance {client : Client} {rest : Multiset Client} (hclient : t.clients = client ::ₘ rest) :
      Step f t (t.next f client rest)
  | pass (clock : Clock) : Step f t { t with clock }

/-- The states that some order of steps reaches with at most `k` calls open at any time. -/
inductive Reachable (f : SessionFactory) (k : Nat) (before : Traffic) : Traffic → Prop
  | start : Reachable f k before before
  | step {t t' : Traffic} (ht : Reachable f k before t) (h : t.Step f t')
      (hopen : t'.calls.openCount ≤ k) : Reachable f k before t'

end Traffic

/-! ## The record changes nothing -/

section Erasure

variable {f : SessionFactory} {t t' : Traffic} {s' : Calls}

theorem Client.call_step (client : Client) :
    client.call.step f t.shared = ((client.step f t).1.call, (client.step f t).2.shared) := by
  obtain ⟨event, stage⟩ := client
  cases stage with
  | waiting =>
    -- The pools agree up to the numbers, so both have a session or neither has.
    have hpop := t.pool.pop_map Numbered.session
    rcases h : t.pool.pop with ⟨_ | item, pool⟩
    · rw [h] at hpop
      rw [Client.step_miss h]
      exact Call.step_miss hpop
    · rw [h] at hpop
      rw [Client.step_take h]
      exact Call.step_take hpop
  | building run =>
    rcases run with (error | session) | _ | _ | _ | _ | _ <;> rfl
  | built item => rfl
  | running visit run =>
    cases run <;> rfl
  | returning past =>
    have hoffer := t.pool.offer_map Numbered.session ⟨past.number, past.ended.session⟩
    unfold Client.call Call.step Client.step
    dsimp only [Traffic.shared, Pool.put]
    rw [hoffer]
    rfl
  | finished | failed | lost => rfl

namespace Traffic

theorem calls_next (client : Client) (rest : Multiset Client) :
    (t.next f client rest).calls =
      ⟨(client.call.step f t.shared).2,
        (client.call.step f t.shared).1 ::ₘ rest.map Client.call⟩ := by
  rw [client.call_step]
  unfold calls next
  rw [Multiset.map_cons]
  rfl

theorem Step.erase (h : t.Step f t') : t.calls.Step f t'.calls := by
  cases h with
  | enter event =>
    have h := Calls.Step.enter (f := f) (s := t.calls) event
    unfold calls at h ⊢
    rw [Multiset.map_cons]
    exact h
  | @advance client rest hclient =>
    have hcalls : t.calls.calls = client.call ::ₘ rest.map Client.call := by
      unfold calls
      rw [hclient, Multiset.map_cons]
    rw [calls_next]
    exact .advance hcalls
  | pass clock => exact .pass clock

/-- Every step of the calls is one that is recorded. -/
theorem Step.lift (h : t.calls.Step f s') : ∃ t', t.Step f t' ∧ t'.calls = s' := by
  cases h with
  | enter event =>
    refine ⟨_, .enter event, ?_⟩
    unfold calls
    rw [Multiset.map_cons]
    rfl
  | @advance call rest hcall =>
    have hmap : t.clients.map Client.call = call ::ₘ rest := hcall
    -- The call that makes the step belongs to some client, and the others stay what they are.
    have hmem : call ∈ t.clients.map Client.call := hmap ▸ Multiset.mem_cons_self call rest
    obtain ⟨client, hclient, rfl⟩ := Multiset.mem_map.1 hmem
    obtain ⟨others, hothers⟩ := Multiset.exists_cons_of_mem hclient
    rw [hothers, Multiset.map_cons] at hmap
    obtain rfl := (Multiset.cons_inj_right _).1 hmap
    exact ⟨_, .advance hothers, calls_next client others⟩
  | pass clock => exact ⟨_, .pass clock, rfl⟩

variable {k : Nat} {before : Traffic}

/-- The bound may be raised. -/
theorem Reachable.mono {k' : Nat} (hk : k ≤ k') (h : Reachable f k before t) :
    Reachable f k' before t := by
  induction h with
  | start => exact .start
  | step _ hstep hopen ih => exact .step ih hstep (hopen.trans hk)

theorem Reachable.erase (hbefore : before.clients = 0) (h : Reachable f k before t) :
    Calls.Reachable f k before.shared t.calls := by
  induction h with
  | start =>
    unfold calls
    rw [hbefore]
    exact .start
  | step _ hstep hopen ih => exact .step ih hstep.erase hopen

theorem Reachable.lift (hbefore : before.clients = 0) {s : Calls}
    (h : Calls.Reachable f k before.shared s) : ∃ t, Reachable f k before t ∧ t.calls = s := by
  induction h with
  | start =>
    refine ⟨before, .start, ?_⟩
    unfold calls
    rw [hbefore]
    rfl
  | step _ hstep hopen ih =>
    obtain ⟨t, ht, rfl⟩ := ih
    obtain ⟨t', hstep', rfl⟩ := Step.lift hstep
    exact ⟨t', .step ht hstep' hopen, rfl⟩

end Traffic

end Erasure

end EventSandbox
