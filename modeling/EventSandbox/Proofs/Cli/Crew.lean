import EventSandbox.Cli.Workers
import EventSandbox.Proofs.Processor.Isolation

/-!
# EventSandbox.Proofs.Cli.Crew — workers that share a processor

A crew is a processor with its workers, which make their steps in any order. Each worker has a desk
with the records that it has taken, and with each the call that was made for it (`Desk`). The desks
do not change what happens; they tell which call belongs to which record.

1. A worker takes its records in order, each of them once (`Desk.share`).
2. The calls of the processor are those of the records taken, and no others (`Crew.Booked`). So the
   crew is one of the interleavings of calls (`Crew.Reachable.booked`), in which each call is as if
   it were alone (`Crew.Reachable.isolated`).
3. When all is done every record has been put down by the worker it was given to, and what was put
   down is what became of its own call (`Crew.Booked.done`, `Crew.Booked.became`).
-/

namespace EventSandbox.Cli

/-! ## Crews -/

/-- What workers share, and the workers. -/
structure Crew where
  shared : Shared
  workers : List Worker

namespace Crew

/-- Workers that have been given their records and have not begun. -/
def start (before : Shared) (shares : List (List Record)) : Crew :=
  ⟨before, shares.map Worker.start⟩

/-- A worker makes the step that comes next for it, or the clock is set. -/
inductive Step (f : SessionFactory) (c : Crew) : Crew → Prop
  | work {first rest : List Worker} {w : Worker} (hworkers : c.workers = first ++ w :: rest) :
      Step f c ⟨(w.step f c.shared).2, first ++ (w.step f c.shared).1 :: rest⟩
  | pass (clock : Clock) : Step f c { c with shared := { c.shared with clock } }

/-- The states that some order of steps reaches. -/
inductive Reachable (f : SessionFactory) (before : Shared) (shares : List (List Record)) :
    Crew → Prop
  | start : Reachable f before shares (start before shares)
  | step {c c' : Crew} (hc : Reachable f before shares c) (h : c.Step f c') :
      Reachable f before shares c'

/-- All workers have come to an end. -/
def Done (c : Crew) : Prop := ∀ w ∈ c.workers, w.current? = none ∧ w.waiting = []

/-- What the workers have put down, in the order of the input. -/
def records (c : Crew) : List Record := c.workers.flatMap fun w => w.finished.reverse

end Crew

/-! ## Desks -/

/-- A record that a worker has taken, and its call if it holds an event. -/
structure Task where
  record : Record
  client? : Option Client

namespace Task

/-- What has become of the record, once that is known. -/
def result? (task : Task) : Option Record :=
  match task.client? with
  | none => some ⟨task.record.line, none⟩
  | some client =>
    match client.call with
    | .finished outcome => some (Record.finish task.record.line outcome)
    | _ => none

/-- The call is for the event of the record. -/
def Own (task : Task) : Prop := task.record.event? = task.client?.map Client.event

end Task

/-- A worker with the records that it has taken, the last first. -/
structure Desk where
  worker : Worker
  tasks : List Task

namespace Desk

/-- The records that the worker was given. -/
def share (desk : Desk) : List Record :=
  (desk.tasks.map Task.record).reverse ++ desk.worker.waiting

/-- The calls of the worker. -/
def clients (desk : Desk) : List Client := desk.tasks.filterMap Task.client?

/-- What a worker has put down is what has become of the records before the one in its hands. -/
structure Sound (desk : Desk) : Prop where
  own : ∀ task ∈ desk.tasks, task.Own
  hand :
    match desk.worker.current? with
    | none => desk.tasks.map Task.result? = desk.worker.finished.map some
    | some (line, call) =>
      ∃ client done, desk.tasks = ⟨⟨line, some client.event⟩, some client⟩ :: done ∧
        client.call = call ∧ done.map Task.result? = desk.worker.finished.map some

theorem sound_start (share : List Record) : Sound ⟨Worker.start share, []⟩ where
  own := List.forall_mem_nil _
  hand := rfl

end Desk

/-! ## A step at a desk -/

theorem Client.event_step (f : SessionFactory) (t : Traffic) (client : Client) :
    (client.step f t).1.event = client.event := by
  obtain ⟨event, stage⟩ := client
  cases stage with
  | waiting =>
    rcases hpop : t.pool.pop with ⟨_ | item, pool⟩
    · rw [Client.step_miss hpop]
    · rw [Client.step_take hpop]
  | building run =>
    rcases run with (error | session) | _ | _ | _ | _ | _ <;> rfl
  | running visit run =>
    cases run <;> rfl
  | built | returning | finished | failed | lost => rfl

theorem Worker.step_call {f : SessionFactory} {s : Shared} {finished waiting : List Record}
    {line : Nat} {call : Call} (h : ¬ ∃ outcome, call = .finished outcome) :
    Worker.step f s ⟨finished, some (line, call), waiting⟩ =
      (⟨finished, some (line, (call.step f s).1), waiting⟩, (call.step f s).2) := by
  cases call with
  | finished outcome => exact absurd ⟨outcome, rfl⟩ h
  | _ => rfl

/-- What a step of a worker does to the calls: nothing, or it makes a step of one of them. -/
structure Desk.Turns (f : SessionFactory) (t : Traffic) (others : Multiset Client) (desk : Desk)
    (t' : Traffic) (desk' : Desk) : Prop where
  step : t' = t ∨ t.Step f t'
  clients : t'.clients = ↑desk'.clients + others
  worker : (desk'.worker, t'.shared) = desk.worker.step f t.shared
  share : desk'.share = desk.share
  sound : desk'.Sound

namespace Desk

variable {f : SessionFactory} {t : Traffic} {others : Multiset Client} {finished : List Record}
  {waiting : List Record} {tasks : List Task}

/-- A worker whose hands are free takes the next record. -/
theorem turn_free (hsound : Sound ⟨⟨finished, none, waiting⟩, tasks⟩)
    (hclients : t.clients = ↑(clients ⟨⟨finished, none, waiting⟩, tasks⟩) + others) :
    ∃ t' desk', Turns f t others ⟨⟨finished, none, waiting⟩, tasks⟩ t' desk' := by
  obtain ⟨hown, hdone⟩ := hsound
  have hdone : tasks.map Task.result? = finished.map some := hdone
  rcases waiting with _ | ⟨⟨line, _ | event⟩, rest⟩
  · exact ⟨t, _, .inl rfl, hclients, rfl, rfl, hown, hdone⟩
  · -- A record without an event is put down at once.
    let task : Task := ⟨⟨line, none⟩, none⟩
    refine ⟨t, ⟨⟨⟨line, none⟩ :: finished, none, rest⟩, task :: tasks⟩, .inl rfl, hclients, rfl, ?_,
      ?_, ?_⟩
    · simp [share, task]
    · exact List.forall_mem_cons.2 ⟨rfl, hown⟩
    · exact congrArg (some ⟨line, none⟩ :: ·) hdone
  · let client : Client := ⟨event, .waiting⟩
    let task : Task := ⟨⟨line, some event⟩, some client⟩
    refine ⟨_, ⟨⟨finished, some (line, .waiting event), rest⟩, task :: tasks⟩, .inr (.enter event),
      ?_, rfl, ?_, ?_, ?_⟩
    · show client ::ₘ t.clients = _
      rw [hclients, ← Multiset.cons_add]
      rfl
    · simp [share, task]
    · exact List.forall_mem_cons.2 ⟨rfl, hown⟩
    · exact ⟨client, tasks, rfl, rfl, hdone⟩

/-- A worker with a record in its hands goes on with its call, or puts the record down. -/
theorem turn_busy {line : Nat} {call : Call}
    (hsound : Sound ⟨⟨finished, some (line, call), waiting⟩, tasks⟩)
    (hclients : t.clients = ↑(clients ⟨⟨finished, some (line, call), waiting⟩, tasks⟩) + others) :
    ∃ t' desk', Turns f t others ⟨⟨finished, some (line, call), waiting⟩, tasks⟩ t' desk' := by
  obtain ⟨hown, client, done, rfl, rfl, hdone⟩ := hsound
  obtain ⟨-, hown⟩ := List.forall_mem_cons.1 hown
  -- Either the call is over and its record is put down, or it makes its next step.
  by_cases hover : ∃ outcome, client.call = .finished outcome
  · obtain ⟨outcome, hcall⟩ := hover
    let task : Task := ⟨⟨line, some client.event⟩, some client⟩
    refine ⟨t, ⟨⟨Record.finish line outcome :: finished, none, waiting⟩, task :: done⟩, .inl rfl,
      hclients, ?_, rfl, ?_, ?_⟩
    · rw [hcall]
      rfl
    · exact List.forall_mem_cons.2 ⟨rfl, hown⟩
    · have hresult : task.result? = some (Record.finish line outcome) := by
        unfold Task.result?
        dsimp only [task]
        rw [hcall]
      show task.result? :: done.map Task.result? = _
      rw [hresult, hdone]
      rfl
  · have hmine : t.clients = client ::ₘ (↑(done.filterMap Task.client?) + others) := by
      rw [hclients, ← Multiset.cons_add]
      rfl
    have hstep := Client.call_step (f := f) (t := t) client
    refine ⟨t.next f client _, ⟨⟨finished, some (line, (client.step f t).1.call), waiting⟩,
      ⟨⟨line, some client.event⟩, some (client.step f t).1⟩ :: done⟩, .inr (.advance hmine), ?_, ?_,
      ?_, ?_, ?_⟩
    · exact (Multiset.cons_add _ _ _).symm
    · rw [Worker.step_call hover, hstep]
      rfl
    · simp [share]
    · refine List.forall_mem_cons.2 ⟨?_, hown⟩
      exact congrArg some (Client.event_step f t client).symm
    · refine ⟨(client.step f t).1, done, ?_, rfl, hdone⟩
      rw [Client.event_step]

theorem turn (desk : Desk) (hsound : desk.Sound)
    (hclients : t.clients = ↑desk.clients + others) :
    ∃ t' desk', Turns f t others desk t' desk' := by
  obtain ⟨⟨finished, _ | ⟨line, call⟩, waiting⟩, tasks⟩ := desk
  · exact turn_free hsound hclients
  · exact turn_busy hsound hclients

end Desk

/-! ## The books of a crew -/

/-- A crew, with the record of its processor and with desks for its workers. -/
structure Crew.Booked (shares : List (List Record)) (c : Crew) (t : Traffic) (desks : List Desk) :
    Prop where
  workers : desks.map Desk.worker = c.workers
  /-- Each worker has the records that it was given: those that it has taken and those that wait. -/
  shares : desks.map Desk.share = shares
  shared : t.shared = c.shared
  /-- The calls are those of the records that have been taken. -/
  clients : t.clients = ↑(desks.flatMap Desk.clients)
  sound : ∀ desk ∈ desks, desk.Sound

namespace Crew

variable {f : SessionFactory} {seed : Session} {capacity : Nat} {clock : Clock}
  {log : List LogRecord} {shares : List (List Record)} {c c' : Crew} {t : Traffic}
  {desks : List Desk}

theorem booked_start (seed : Session) (capacity : Nat) (clock : Clock) (log : List LogRecord)
    (shares : List (List Record)) :
    (start ⟨Pool.withSeed seed capacity, clock, log⟩ shares).Booked shares
      (Traffic.start seed capacity clock log)
      (shares.map fun share => ⟨Worker.start share, []⟩) where
  workers := by
    rw [List.map_map]
    rfl
  shares := by
    rw [List.map_map]
    exact List.map_id shares
  shared := Traffic.start_shared seed capacity clock log
  -- Nobody has taken anything, so there are no calls.
  clients := by
    have hnone : (shares.map fun share => (⟨Worker.start share, []⟩ : Desk)).flatMap Desk.clients =
        [] := by
      rw [List.flatMap_map]
      exact List.flatMap_eq_nil_iff.2 fun _ _ => rfl
    rw [hnone]
    rfl
  sound := by
    intro desk hdesk
    obtain ⟨share, -, rfl⟩ := List.mem_map.1 hdesk
    exact Desk.sound_start share

/-- A step of a crew is a step of one of its calls, or of none. -/
theorem Booked.step (h : c.Booked shares t desks) (hstep : c.Step f c') :
    ∃ t' desks', (t' = t ∨ t.Step f t') ∧ c'.Booked shares t' desks' := by
  cases hstep with
  | pass clock =>
    have hshared : ({ t with clock } : Traffic).shared = { c.shared with clock } := by
      rw [← h.shared]
      rfl
    exact ⟨{ t with clock }, desks, .inr (.pass clock), h.workers, h.shares, hshared, h.clients,
      h.sound⟩
  | @work first rest w hworkers =>
    -- The desk of the worker is found where the worker is, and its calls among those of all desks.
    have hmap := h.workers.trans hworkers
    obtain ⟨before, after, rfl, rfl, hafter⟩ := List.map_eq_append_iff.1 hmap
    obtain ⟨desk, after, rfl, rfl, rfl⟩ := List.map_eq_cons_iff.1 hafter
    have hclients : t.clients = ↑desk.clients +
        (↑(before.flatMap Desk.clients) + ↑(after.flatMap Desk.clients)) := by
      rw [h.clients, List.flatMap_append, List.flatMap_cons, ← Multiset.coe_add, ← Multiset.coe_add]
      exact add_left_comm _ _ _
    obtain ⟨t', desk', hturn⟩ := desk.turn (f := f) (h.sound desk (by simp)) hclients
    have hworker := hturn.worker
    rw [h.shared] at hworker
    refine ⟨t', before ++ desk' :: after, hturn.step, ?_, ?_, ?_, ?_, ?_⟩
    · rw [List.map_append, List.map_cons, ← congrArg Prod.fst hworker]
    · rw [← h.shares, List.map_append, List.map_append, List.map_cons, List.map_cons, hturn.share]
    · exact congrArg Prod.snd hworker
    · rw [hturn.clients, List.flatMap_append, List.flatMap_cons, ← Multiset.coe_add,
        ← Multiset.coe_add]
      exact add_left_comm _ _ _
    · intro other hother
      rcases List.mem_append.1 hother with hother | hother
      · exact h.sound other (by simp [hother])
      · rcases List.mem_cons.1 hother with rfl | hother
        · exact hturn.sound
        · exact h.sound other (by simp [hother])

/-- However a crew gets on, its processor has made some interleaving of calls. -/
theorem Reachable.booked
    (h : Reachable f ⟨Pool.withSeed seed capacity, clock, log⟩ shares c) :
    ∃ k t desks, Traffic.Reachable f k (Traffic.start seed capacity clock log) t ∧
      c.Booked shares t desks := by
  induction h with
  | start => exact ⟨0, _, _, .start, booked_start seed capacity clock log shares⟩
  | step _ hstep ih =>
    obtain ⟨k, t, desks, ht, hbooked⟩ := ih
    obtain ⟨t', desks', hturn, hbooked'⟩ := hbooked.step hstep
    rcases hturn with rfl | hturn
    · exact ⟨k, t', desks', ht, hbooked'⟩
    · have ht := ht.mono (Nat.le_max_left k t'.calls.openCount)
      exact ⟨_, t', desks', .step ht hturn (Nat.le_max_right _ _), hbooked'⟩

/-- In that interleaving each call is as if it were alone. -/
theorem Reachable.isolated (hseed : f.create.Yields (.ok seed))
    (h : Reachable f ⟨Pool.withSeed seed capacity, clock, log⟩ shares c) :
    ∃ k t desks, Traffic.Reachable f k (Traffic.start seed capacity clock log) t ∧
      c.Booked shares t desks ∧ t.Isolated f := by
  obtain ⟨k, t, desks, ht, hbooked⟩ := h.booked
  have hsound := Sound.of_reachable hseed ht
  exact ⟨k, t, desks, ht, hbooked, hsound.isolated (Traffic.holding_le ht)⟩

end Crew

/-! ## When all is done -/

/-- What has become of a record: without an event nothing, and else what its own event has become,
processed alone on the session that was found. -/
inductive Task.Became (t : Traffic) : Task → Record → Prop
  | blank (line : Nat) : Became t ⟨⟨line, none⟩, none⟩ ⟨line, none⟩
  | visited (line : Nat) {client : Client} {past : PastVisit} (hclient : client ∈ t.clients)
      (hpast : client.past? = some past) (hvisit : past ∈ t.visits past.number)
      (hevent : past.event = client.event) (halone : past.Alone) :
      Became t ⟨⟨line, some client.event⟩, some client⟩ (Record.finish line past.ended.outcome)

theorem Client.outcome_of_past? {client : Client} {past : PastVisit} {outcome : Outcome}
    (hpast : client.past? = some past) (hcall : client.call = .finished outcome) :
    outcome = past.ended.outcome := by
  obtain ⟨event, stage⟩ := client
  cases stage with
  | finished own =>
    cases hpast
    cases hcall
    rfl
  | _ => cases hpast

theorem Task.became {f : SessionFactory} {t : Traffic} (ht : t.Isolated f) {task : Task}
    (hown : task.Own) (hclients : ∀ client, task.client? = some client → client ∈ t.clients)
    {r : Record} (hresult : task.result? = some r) : task.Became t r := by
  obtain ⟨⟨line, event?⟩, client?⟩ := task
  obtain rfl : event? = client?.map Client.event := hown
  cases client? with
  | none =>
    cases hresult
    exact .blank line
  | some client =>
    have hclient := hclients client rfl
    unfold result? at hresult
    dsimp only at hresult
    -- Only a call that has finished has a result, and it has made a visit.
    split at hresult
    · rename_i outcome hcall
      cases hresult
      obtain ⟨past, hpast, hvisit, hevent, halone, -⟩ := ht.finished hclient hcall
      rw [Client.outcome_of_past? hpast hcall]
      exact .visited line hclient hpast hvisit hevent halone
    · cases hresult

/-- The records that have been taken, in the order of the input. -/
def tasksOf (desks : List Desk) : List Task := desks.flatMap fun desk => desk.tasks.reverse

namespace Crew

variable {f : SessionFactory} {shares : List (List Record)} {c : Crew} {t : Traffic}
  {desks : List Desk}

theorem Booked.mem_clients (h : c.Booked shares t desks) {task : Task}
    (htask : task ∈ tasksOf desks) {client : Client} (hclient : task.client? = some client) :
    client ∈ t.clients := by
  obtain ⟨desk, hdesk, htask⟩ := List.mem_flatMap.1 htask
  rw [h.clients, Multiset.mem_coe]
  refine List.mem_flatMap.2 ⟨desk, hdesk, ?_⟩
  exact List.mem_filterMap.2 ⟨task, List.mem_reverse.1 htask, hclient⟩

/-- When all is done, every record of the input has been taken and put down in its place. -/
theorem Booked.done (h : c.Booked shares t desks) (hdone : c.Done) :
    (tasksOf desks).map Task.record = shares.flatten ∧
      (tasksOf desks).map Task.result? = c.records.map some := by
  -- A worker that is done has nothing in its hands and nothing left to take.
  have hend : ∀ desk ∈ desks, desk.worker.current? = none ∧ desk.worker.waiting = [] := by
    intro desk hdesk
    refine hdone desk.worker ?_
    rw [← h.workers]
    exact List.mem_map_of_mem hdesk
  constructor
  · rw [← h.shares, tasksOf, List.map_flatMap, ← List.flatMap_def]
    refine List.flatMap_congr fun desk hdesk => ?_
    unfold Desk.share
    rw [(hend desk hdesk).2, List.append_nil, List.map_reverse]
  · unfold records tasksOf
    rw [← h.workers, List.map_flatMap, List.map_flatMap, List.flatMap_map]
    refine List.flatMap_congr fun desk hdesk => ?_
    have hhand := (h.sound desk hdesk).hand
    rw [(hend desk hdesk).1] at hhand
    rw [List.map_reverse, hhand, ← List.map_reverse]

/-- Then each has become what its own call has made of it. -/
theorem Booked.became (h : c.Booked shares t desks) (ht : t.Isolated f) (hdone : c.Done) :
    List.Forall₂ (Task.Became t) (tasksOf desks) c.records := by
  obtain ⟨-, hresults⟩ := h.done hdone
  have hbecame : ∀ task ∈ tasksOf desks, ∀ r, task.result? = some r → task.Became t r := by
    intro task htask r hr
    obtain ⟨desk, hdesk, hmem⟩ := List.mem_flatMap.1 htask
    have hown := (h.sound desk hdesk).own task (List.mem_reverse.1 hmem)
    exact Task.became ht hown (fun client hclient => h.mem_clients htask hclient) hr
  have hends : List.Forall₂ (fun task r => task.result? = some r) (tasksOf desks) c.records := by
    rw [← List.forall₂_eq_eq_eq, List.forall₂_map_left_iff, List.forall₂_map_right_iff] at hresults
    exact hresults
  have hboth := (List.forall₂_and_left _ _).2 ⟨hbecame, hends⟩
  exact hboth.imp fun task r h => h.1 r h.2

end Crew

end EventSandbox.Cli
