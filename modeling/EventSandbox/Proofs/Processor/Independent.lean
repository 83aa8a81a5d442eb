import EventSandbox.Proofs.Guest.Lifecycle
import EventSandbox.Proofs.Guest.Puts
import EventSandbox.Proofs.Processor.Isolation

/-!
# EventSandbox.Proofs.Processor.Independent — guests without a memory of their events

Sessions are used again, so what a guest keeps from one event may show in the next one. There are
guests that let nothing of it show (`SessionFactory.HistoryIndependent`): any session of theirs
deals with an event as a new one does.

For such a guest it makes no difference to a call which session it gets. A pool that holds nothing
but sessions of that guest goes on to do so (`Pool.Ready`), and what becomes of an event is what
becomes of it alone in a new session, whether nobody interrupts the call (`Processor.process_alone`)
or the steps of calls mix (`Traffic.Isolated.outcome_eq`).

A guest need not be idle for that. One that stamps its events writes to its memory and puts a field,
and each event shows the same stamp (`historyIndependent_of_stamper`).
-/

namespace EventSandbox

/-! ## Guests -/

/-- What an event shows of the session that has processed it: the result and what has become of the
event. -/
def Session.Ended.shown (ended : Session.Ended) : Except ProcessorError Int32 × Fields :=
  (ended.result, ended.event)

/-- Whatever a session has been through, it deals with every event as a new session does: if one
comes to an end, so does the other, and they show the same, whatever times they are told. -/
def SessionFactory.HistoryIndependent (f : SessionFactory) : Prop :=
  ∀ fresh s : Session, f.create.Yields (.ok fresh) → s.Reachable f →
    ∀ event trace trace' end? end?', (fresh.guestProcess event).Traced trace end? →
      (s.guestProcess event).Traced trace' end?' → Option.map Session.Ended.shown end?' =
        Option.map Session.Ended.shown end?

/-- What becomes of an event in a session, while the clock stands still; nothing if the guest never
comes back. -/
def Session.alone (s : Session) (time : Int64) (event : Fields) : Option Outcome :=
  ((s.guestProcess event).follow (.still time) ()).map fun (ended, _) => ended.outcome

/-- A caller learns no more than the event shows. -/
theorem Session.Ended.outcome_of_shown {end? end?' : Option Session.Ended}
    (h : end?'.map shown = end?.map shown) : end?'.map outcome = end?.map outcome := by
  let told : Except ProcessorError Int32 × Fields → Outcome := fun (result, event) =>
    ⟨Processor.resultOf result, event⟩
  have htold := congrArg (Option.map told) h
  rw [Option.map_map, Option.map_map] at htold
  exact htold

variable {f : SessionFactory} {fresh s : Session} {ω : Type} {host : Run.Host ω}

namespace SessionFactory.HistoryIndependent

variable (h : f.HistoryIndependent) (hfresh : f.create.Yields (.ok fresh)) (hs : s.Reachable f)

include h hfresh hs

/-- However a session processes an event to its end, it becomes what a new session makes of it. -/
theorem outcome_of_traced {event : Fields} {trace : List Label} {end? : Option Session.Ended}
    (hend : (s.guestProcess event).Traced trace end?) (time : Int64) :
    Option.map Session.Ended.outcome end? = fresh.alone time event := by
  have hstill : ∀ w, ((Run.Host.still time).now w).isSome := fun _ => rfl
  obtain ⟨trace', hnew⟩ := Run.exists_traced_follow hstill (fresh.guestProcess event) ()
  have hshown := h fresh s hfresh hs event _ _ _ _ hnew hend
  rw [Session.Ended.outcome_of_shown hshown]
  unfold Session.alone
  rw [Option.map_map]
  rfl

theorem outcome_of_follow (hnow : ∀ w, (host.now w).isSome) (event : Fields) (w : ω)
    (time : Int64) :
    ((s.guestProcess event).follow host w).map (fun (ended, _) => ended.outcome) =
      fresh.alone time event := by
  obtain ⟨trace, hend⟩ := Run.exists_traced_follow hnow (s.guestProcess event) w
  have houtcome := h.outcome_of_traced hfresh hs hend time
  rw [Option.map_map] at houtcome
  exact houtcome

end SessionFactory.HistoryIndependent

/-! ## One call after another -/

/-- A pool that holds nothing but sessions of a guest. -/
def Pool.Ready (f : SessionFactory) (pool : Pool Session) : Prop :=
  ∀ session ∈ pool.idle, session.Reachable f

namespace Pool.Ready

variable {pool popped : Pool Session}

theorem withSeed (hfresh : f.create.Yields (.ok fresh)) (capacity : Nat) :
    Ready f (Pool.withSeed fresh capacity) := by
  intro session hsession
  have hput : session ∈ ((Pool.empty capacity).put fresh).2.idle := hsession
  rcases Pool.mem_put hput with rfl | hempty
  · exact .fresh hfresh
  · cases hempty

theorem put (h : pool.Ready f) (hs : s.Reachable f) : Ready f (pool.put s).2 := by
  intro session hsession
  rcases Pool.mem_put hsession with rfl | hidle
  · exact hs
  · exact h session hidle

theorem pop_some (h : pool.Ready f) (hpop : pool.pop = (some s, popped)) :
    s.Reachable f ∧ popped.Ready f := by
  obtain ⟨hidle, -, -⟩ := Pool.Callers.pop_eq_some hpop
  unfold Ready at h
  rw [hidle] at h
  exact List.forall_mem_cons.1 h

end Pool.Ready

namespace Processor

variable {p : Processor} {pool : Pool Session}

/-- A call that has got a session processes its event there, and gives the session back. -/
theorem visit_ended (hs : s.Reachable f) (hpool : pool.Ready f) (event : Fields) (w : ω) :
    ∀ r ∈ visit host.beside event s (pool, w), r.2.1.Ready f ∧
      ∃ ended, (s.guestProcess event).Yields ended ∧ r.1 = ended.outcome := by
  intro r hr
  unfold visit at hr
  rw [Run.follow_beside, Option.map_map] at hr
  obtain ⟨⟨ended, w'⟩, hfollow, rfl⟩ := Option.map_eq_some_iff.1 hr
  have hyields := Run.yields_of_follow hfollow
  exact ⟨hpool.put (.next hs hyields), ended, hyields, rfl⟩

/-- A call that finds sessions of its guest, or none, processes its event in such a session. -/
theorem process_ended (hfresh : p.factory.create.Yields (.ok fresh)) (hpool : pool.Ready p.factory)
    (event : Fields) (w : ω) :
    ∀ r ∈ p.process host.beside event (pool, w), r.2.1.Ready p.factory ∧
      ∃ (s : Session) (ended : Session.Ended), s.Reachable p.factory ∧
        (s.guestProcess event).Yields ended ∧ r.1 = ended.outcome := by
  intro r hr
  rcases hpop : pool.pop with ⟨_ | session, popped⟩
  · -- A new session is made, and it is the same as any other new one.
    obtain ⟨-, rfl⟩ := Pool.Callers.pop_eq_none hpop
    obtain ⟨w', hcreate⟩ := p.factory.timeless_create.follow hfresh host w
    have hbuilt : popped.countBuilt.Ready p.factory := hpool
    rw [process_of_empty hpop, Run.follow_beside, hcreate] at hr
    obtain ⟨hready, ended, hended⟩ := visit_ended (.fresh hfresh) hbuilt event w' r hr
    exact ⟨hready, fresh, ended, .fresh hfresh, hended⟩
  · obtain ⟨hs, hpopped⟩ := hpool.pop_some hpop
    rw [process_of_idle hpop] at hr
    obtain ⟨hready, ended, hended⟩ := visit_ended hs hpopped event w r hr
    exact ⟨hready, session, ended, hs, hended⟩

/-- What a call of a guest without a memory makes of its event, in whichever session. -/
theorem visit_alone (h : f.HistoryIndependent) (hfresh : f.create.Yields (.ok fresh))
    (hnow : ∀ w, (host.now w).isSome) (hs : s.Reachable f) (event : Fields) (w : ω) (time : Int64) :
    (visit host.beside event s (pool, w)).map Prod.fst = fresh.alone time event := by
  unfold visit
  rw [Run.follow_beside, ← h.outcome_of_follow hfresh hs hnow event w time, Option.map_map,
    Option.map_map]
  rfl

/-- Whichever session a call gets, its event becomes what a new session makes of it. -/
theorem process_alone (h : p.factory.HistoryIndependent)
    (hfresh : p.factory.create.Yields (.ok fresh)) (hnow : ∀ w, (host.now w).isSome)
    (hpool : pool.Ready p.factory) (event : Fields) (w : ω) (time : Int64) :
    (p.process host.beside event (pool, w)).map Prod.fst = fresh.alone time event ∧
      ∀ r ∈ p.process host.beside event (pool, w), r.2.1.Ready p.factory := by
  refine ⟨?_, fun r hr => (process_ended hfresh hpool event w r hr).1⟩
  rcases hpop : pool.pop with ⟨_ | session, popped⟩
  · obtain ⟨w', hcreate⟩ := p.factory.timeless_create.follow hfresh host w
    rw [process_of_empty hpop, Run.follow_beside, hcreate]
    exact visit_alone h hfresh hnow (.fresh hfresh) event w' time
  · obtain ⟨hs, -⟩ := hpool.pop_some hpop
    rw [process_of_idle hpop]
    exact visit_alone h hfresh hnow hs event w time

end Processor

/-! ## Calls that overlap -/

/-- What a session is like that has been left by sessions of a guest. -/
theorem Left.reachable {history : List PastVisit} (h : Left f history s)
    (hhistory : ∀ past ∈ history, past.ended.session.Reachable f) : s.Reachable f := by
  cases history with
  | nil => exact .fresh h
  | cons last history =>
    have hs : s = last.ended.session := h
    rw [hs]
    exact hhistory last List.mem_cons_self

theorem PastVisit.Alone.yields {past : PastVisit} (h : past.Alone) :
    (past.found.guestProcess past.event).Yields past.ended :=
  Run.yields_of_follow h.follow

/-- Whatever sessions a history has gone through, they are sessions of its guest. -/
theorem Whole.reachable {number : Nat} {history : List PastVisit} (h : Whole f number history) :
    ∀ past ∈ history, past.found.Reachable f ∧ past.ended.session.Reachable f := by
  induction h with
  | nil => exact List.forall_mem_nil _
  | cons _ _ hleft halone ih =>
    have hfound := hleft.reachable fun past hpast => (ih past hpast).2
    exact List.forall_mem_cons.2 ⟨⟨hfound, .next hfound halone.yields⟩, ih⟩

/-- However the steps of calls mix, each event becomes what a new session makes of it. -/
theorem Traffic.Isolated.outcome_eq {t : Traffic} (ht : t.Isolated f) (h : f.HistoryIndependent)
    (hfresh : f.create.Yields (.ok fresh)) {past : PastVisit}
    (hpast : past ∈ t.visits past.number) (time : Int64) :
    some past.ended.outcome = fresh.alone time past.event := by
  have hwhole := ht.whole past.number
  obtain ⟨hfound, -⟩ := hwhole.reachable past hpast
  obtain ⟨trace, hend⟩ := (hwhole.alone past hpast).yields.exists_traced
  exact h.outcome_of_traced hfresh hfound hend time

/-! ## A guest that stamps its events -/

section Stamping

open HostCall

/-- What is put: an array with a number in it. -/
def stamp : Value := .array [.number (.int 7 (by decide) (by decide))]

/-- The steps of a guest that puts `[7]` into every event, under the empty name. -/
def stamping : List Step :=
  [.store32 (.const 0) (.const 0x5D375B), .putField (.const 0) (.const 0) (.const 0) (.const 3)]

/-- A session of such a guest, with enough of everything. -/
structure Stamper (s : Session) : Prop where
  exports : s.machine.exports? = some ⟨.steps [], .steps stamping⟩
  meter : ∃ meter, Meter.ofBudget s.engine s.ticker s.budget = .ok meter ∧ meter.due? = none
  room : 4 ≤ s.machine.memory.size

/-- The memory once the stamp has been written. -/
def stamped (m : Memory) : Memory := m.setSlice 0 (Memory.littleEndian 4 0x5D375B)

/-- The stamp is found where it has been written. -/
theorem puts_stamped {m : Machine} {before : Memory} (hroom : 4 ≤ before.size)
    (hm : m.memory = stamped before) : Puts m 0 0 0 3 "" stamp := by
  have hsize : 4 ≤ m.memory.size := by
    rw [hm, stamped, Memory.size_setSlice]
    exact hroom
  have hword : m.memory.slice 0 4 = Memory.littleEndian 4 0x5D375B := by
    have hfits : 0 + (Memory.littleEndian 4 0x5D375B).length ≤ before.size := hroom
    rw [hm]
    exact Memory.slice_setSlice_self _ hfits
  -- The stamp is three bytes long, and the word that is stored has one byte more.
  have hbytes : m.memory.slice 0 3 = stamp.toJson := by
    have htake := congrArg (List.take 3) hword
    exact htake
  refine ⟨⟨Nat.zero_le _, rfl⟩, stamp.toJson, ⟨?_, hbytes⟩, ?_⟩
  · exact Nat.le_trans (by decide) hsize
  · have hcanonical : stamp.Canonical := ⟨trivial, trivial⟩
    have hintegral : stamp.Integral := ⟨trivial, trivial⟩
    rw [Value.ofJson_toJson hcanonical hintegral]
    rfl

/-- The guest writes the stamp into its memory and puts it from there. -/
theorem run_stamping (malloc : Allocator) {m : Machine} {event : Fields}
    (hroom : 4 ≤ m.memory.size) (hx : m.exports?.isSome) (hevent : m.event? = some event) :
    ∃ labels, Session.puts event labels = [("", stamp)] ∧
      (Step.execAll malloc ⟨0, 0⟩ stamping).run.run m = .pause fun _ => .showing labels
        (.pause fun _ => .done (.ok (.next 0),
          { m with
            memory := stamped m.memory
            event? := some (event.insert "" stamp)
            meter := (m.meter.charge Meter.stepCost).charge Meter.stepCost })) := by
  let stored : Machine :=
    { m with memory := stamped m.memory, meter := m.meter.charge Meter.stepCost }
  let before : Machine := { stored with meter := stored.meter.charge Meter.stepCost }
  let call : CompletedCall := ⟨.putField 0 0 0 3, before, [.record (.fieldWritten "")], .ok .ok,
    { before with event? := some (event.insert "" stamp) }⟩
  have hbounds : Machine.inBounds m.memory 0 4 = true := decide_eq_true hroom
  have hstore : ((Step.store32 (.const 0) (.const 0x5D375B)).exec malloc ⟨0, 0⟩).run.run
      { m with meter := m.meter.charge Meter.stepCost } = .done (.ok (.next 0), stored) := by
    unfold Step.exec
    rw [Guarded.run_ofPure]
    show Run.done (((Machine.store 4 0 0x5D375B : Pure Unit) >>= _).run.run _) = _
    rw [Pure.run_bind, Machine.store, Pure.run_get_bind, if_pos hbounds]
    rfl
  have hputs : Puts before 0 0 0 3 "" stamp := puts_stamped hroom rfl
  have hanswer : (answer malloc (.putField 0 0 0 3)).run before =
      .showing call.labels (.done (0, call.after)) :=
    answer_of_shown call (perform_putField_of_puts hx hevent hputs)
  have hput : ((Step.putField (.const 0) (.const 0) (.const 0) (.const 3)).exec malloc
      ⟨0, 0⟩).run.run before = _ := Guarded.run_called before (answer malloc (.putField 0 0 0 3))
  rw [hanswer] at hput
  refine ⟨call.labels, ?_, ?_⟩
  · exact Session.puts_putField hputs
  · -- The first step shows nothing, and the guest falls off its end after the second one.
    have hlast := Guarded.run_execAll_cons [] hput
    rw [Run.showing_bind] at hlast
    rw [stamping, Guarded.run_execAll_cons (r := .done (0, stored)) _ hstore]
    simp only [Run.bind]
    rw [hlast]
    rfl

/-- What a call of such a session does: it goes on to put the stamp, and leaves a session of its
kind. -/
theorem Stamper.guestProcess (h : Stamper s) (event : Fields) :
    ∃ labels s', Stamper s' ∧ Session.puts event labels = [("", stamp)] ∧
      s.guestProcess event = .pause fun _ => .showing labels
        (.pause fun _ => .done ⟨.ok 0, event.insert "" stamp, s'⟩) := by
  obtain ⟨meter, hmeter, hdue⟩ := h.meter
  let m := s.begin event meter
  obtain ⟨labels, hputs, hrun⟩ := run_stamping (Code.allocator Code.maxActivations)
    (m := m) h.room (Option.isSome_iff_exists.2 ⟨_, h.exports⟩) rfl
  refine ⟨labels, { s with machine := { m with
    memory := stamped m.memory
    event? := none
    meter := (m.meter.charge Meter.stepCost).charge Meter.stepCost } }, ?_, hputs, ?_⟩
  · refine ⟨h.exports, h.meter, ?_⟩
    show 4 ≤ (stamped s.machine.memory).size
    rw [stamped, Memory.size_setSlice]
    exact h.room
  · rw [Session.guestProcess_run hmeter h.exports, Code.call, Guarded.run_enter hdue, hrun]
    simp only [Run.bind, Run.showing_bind]
    rfl

/-- However a call of such a session goes, it ends well, and the stamp is all that it has put. -/
theorem Stamper.of_traced (h : Stamper s) {event : Fields} {trace : List Label}
    {end? : Option Session.Ended} (htrace : (s.guestProcess event).Traced trace end?) :
    ∃ s', Stamper s' ∧ Session.puts event trace = [("", stamp)] ∧ end? =
      some ⟨.ok 0, event.insert "" stamp, s'⟩ := by
  obtain ⟨labels, s', hs', hputs, hrun⟩ := h.guestProcess event
  rw [hrun, Run.traced_pause, Run.traced_showing] at htrace
  obtain ⟨rest, rfl, htrace⟩ := htrace
  rw [Run.traced_pause, Run.traced_done] at htrace
  obtain ⟨rfl, rfl⟩ := htrace
  rw [List.append_nil]
  exact ⟨s', hs', hputs, rfl⟩

theorem Stamper.alone (h : Stamper s) (time : Int64) (event : Fields) :
    s.alone time event = some ⟨.ok (), event.insert "" stamp⟩ := by
  have hstill : ∀ w, ((Run.Host.still time).now w).isSome := fun _ => rfl
  obtain ⟨trace, htrace⟩ := Run.exists_traced_follow hstill (s.guestProcess event) ()
  obtain ⟨s', -, -, hend⟩ := h.of_traced htrace
  obtain ⟨r, hfollow, hr⟩ := Option.map_eq_some_iff.1 hend
  unfold Session.alone
  rw [hfollow]
  exact congrArg (fun ended => some (Session.Ended.outcome ended)) hr

theorem stamper_of_reachable (hf : ∀ fresh, f.create.Yields (.ok fresh) → Stamper fresh)
    (hs : s.Reachable f) : Stamper s := by
  induction hs with
  | fresh hfresh => exact hf _ hfresh
  | next _ hended ih =>
    obtain ⟨trace, htrace⟩ := hended.exists_traced
    obtain ⟨s', hs', -, hend⟩ := ih.of_traced htrace
    rw [Option.some.inj hend]
    exact hs'

/-- A guest that writes to its memory may still let nothing of its earlier events show. -/
theorem historyIndependent_of_stamper (hf : ∀ fresh, f.create.Yields (.ok fresh) → Stamper fresh) :
    f.HistoryIndependent := by
  intro fresh s hfresh hs event trace trace' end? end?' hnew hold
  obtain ⟨_, -, -, rfl⟩ := (hf fresh hfresh).of_traced hnew
  obtain ⟨_, -, -, rfl⟩ := (stamper_of_reachable hf hs).of_traced hold
  rfl

end Stamping

end EventSandbox
