import EventSandbox.Proofs.Session

/-!
# EventSandbox.Proofs.Guest.Limits — what becomes of a guest that reached a limit

A limit stops the function of the guest that is running. If that is the handler, the call ends and
says so. If it is the allocator, called by a `getField`, that call fails with an internal failure
and the handler goes on: nobody outside is told (`guestProcess_limits`).

The proof looks at every place of a trace where a limit stops the guest. Either nothing follows, or
the failure of the `getField` around it follows at once (`Stops`). The same look shows that
under a limit no call goes on for ever (`guestProcess_ends`).
-/

namespace EventSandbox

/-- Whether a limit of this kind is set. -/
def Meter.limits (meter : Meter) : Trap → Bool
  | .outOfFuel => meter.fuel?.isSome
  | .interrupted => meter.work?.isSome
  | _ => false

namespace Meter

variable {meter : Meter} {trap : Trap}

theorem limits_charge (meter : Meter) (amount : Nat) (trap : Trap) :
    (meter.charge amount).limits trap = meter.limits trap := by
  cases trap <;> simp [limits, charge]

theorem limits_of_due? (h : meter.due? = some trap) : meter.limits trap := by
  unfold due? at h
  split at h
  · cases h
    simp [limits, *]
  · split at h
    · cases h
      simp [limits, *]
    · cases h

theorem not_limits_of_spinTrap? (h : meter.spinTrap? = none) (trap : Trap) :
    meter.limits trap = false := by
  rcases meter with ⟨_ | fuel, _ | work⟩
  · cases trap <;> rfl
  all_goals cases h

end Meter

/-- The limit that a label shows to be reached. -/
def Label.stop? : Label → Option Trap
  | .moment (.stopped trap) => some trap
  | _ => none

theorem Label.mem_of_stop? {trace : List Label} {trap : Trap}
    (h : trap ∈ trace.filterMap Label.stop?) : .moment (.stopped trap) ∈ trace := by
  obtain ⟨label, hmem, hlabel⟩ := List.mem_filterMap.1 h
  unfold Label.stop? at hlabel
  split at hlabel
  · cases hlabel
    exact hmem
  · cases hlabel

/-- A label that is no moment. -/
def Label.IsRecord (label : Label) : Prop := ∃ entry, label = .record entry

namespace Guarded

/-! ## Stops -/

/-- A stop inside an allocator: what follows is the failure of the call that it was called by. -/
def Swallowed (trap : Trap) (after : List Label) : Prop :=
  ∃ length m rest, after =
    .record (.failedCall .getField
      (.allocation length (HostCall.AllocationFault.trapped trap).message)) ::
    .moment (.ended .internalFailure m) :: rest

theorem Swallowed.append {trap : Trap} {after : List Label} (h : Swallowed trap after)
    (rest : List Label) : Swallowed trap (after ++ rest) := by
  obtain ⟨length, m, rest', rfl⟩ := h
  exact ⟨length, m, rest' ++ rest, rfl⟩

/-- What is true of all stops of a run. -/
structure Stops (m : Machine) (trace : List Label) (end? : Option (Option Trap × Machine)) :
    Prop where
  /-- Each ends the run or is swallowed. -/
  shape {before trap after} (h : trace = before ++ .moment (.stopped trap) :: after) :
    (after = [] ∧ ∃ m', end? = some (some trap, m')) ∨ Swallowed trap after
  /-- No run ends by a limit unless its last label is that stop. -/
  last {trap m'} (h : end? = some (some trap, m')) (htrap : trap.isLimit) :
    ∃ before, trace = before ++ [.moment (.stopped trap)]
  /-- No limit is set or lifted on the way. -/
  limits {trap? m'} (h : end? = some (trap?, m')) (trap : Trap) :
    m'.meter.limits trap = m.meter.limits trap
  /-- Only a limit that is set stops the guest. -/
  stopped {trap} (h : .moment (.stopped trap) ∈ trace) : m.meter.limits trap
  /-- Only a guest without limits runs for ever. -/
  forever (h : end? = none) (trap : Trap) : m.meter.limits trap = false

/-- Where a list has been put together, an item of it stands in one of its parts. -/
theorem append_eq_append_cons {α : Type} {first rest before after : List α} {x : α}
    (h : first ++ rest = before ++ x :: after) :
    (∃ inner, first = before ++ x :: inner ∧ after = inner ++ rest) ∨
      ∃ inner, before = first ++ inner ∧ rest = inner ++ x :: after := by
  rcases List.append_eq_append_iff.1 h with ⟨inner, hbefore, hrest⟩ | ⟨inner, hfirst, hafter⟩
  · exact .inr ⟨inner, hbefore, hrest⟩
  · cases inner with
    | nil => exact .inr ⟨[], by simpa using hfirst.symm, hafter.symm⟩
    | cons y inner =>
      rw [List.cons_append] at hafter
      obtain ⟨rfl, rfl⟩ := List.cons.inj hafter
      exact .inl ⟨inner, hfirst, rfl⟩

/-- A run that shows no stop. -/
theorem stops_quiet {m m' : Machine} {trace : List Label} {trap? : Option Trap}
    (hquiet : ∀ trap, .moment (.stopped trap) ∉ trace)
    (hmeter : ∀ trap, m'.meter.limits trap = m.meter.limits trap)
    (htrap : ∀ trap, trap? = some trap → trap.isLimit = false) :
    Stops m trace (some (trap?, m')) where
  shape h := by
    subst h
    exact absurd (List.mem_append_right _ List.mem_cons_self) (hquiet _)
  last h hlimit := by
    cases h
    simp [htrap _ rfl] at hlimit
  limits h trap := by
    cases h
    exact hmeter trap
  stopped h := absurd h (hquiet _)
  forever h := by cases h

theorem stops_seq {m m' : Machine} {first rest : List Label}
    {end? : Option (Option Trap × Machine)} (hfirst : Stops m first (some (none, m')))
    (hrest : Stops m' rest end?) : Stops m (first ++ rest) end? where
  shape h := by
    rcases append_eq_append_cons h with ⟨inner, hcut, rfl⟩ | ⟨inner, rfl, hcut⟩
    -- The first part has ended without a trap, so a stop in it has been swallowed there.
    · rcases hfirst.shape hcut with ⟨-, _, hend⟩ | hswallowed
      · cases hend
      · exact .inr (hswallowed.append rest)
    · exact hrest.shape hcut
  last h hlimit := by
    obtain ⟨before, rfl⟩ := hrest.last h hlimit
    exact ⟨first ++ before, by simp⟩
  limits h trap := (hrest.limits h trap).trans (hfirst.limits rfl trap)
  stopped h := by
    rcases List.mem_append.1 h with h | h
    · exact hfirst.stopped h
    · rw [← hfirst.limits rfl]
      exact hrest.stopped h
  forever h trap := by
    rw [← hfirst.limits rfl trap]
    exact hrest.forever h trap

/-! ## Host calls -/

open HostCall

section Calls

variable {malloc : Allocator} {m : Machine} {request : HostRequest} {trace : List Label}
  {end? : Option (Except HostCallError Status × Machine)}

/-- How a call that has entered the allocator goes on after it. -/
structure Resumes (last? : Option (Except Trap Word × Machine)) (tail : List Label)
    (end? : Option (Except HostCallError Status × Machine)) : Prop where
  records : ∀ label ∈ tail, label.IsRecord
  forever (h : last? = none) : tail = [] ∧ end? = none
  ended {r m''} (h : last? = some (r, m'')) :
    ∃ result m', end? = some (result, m') ∧ m'.meter = m''.meter
  trapped {trap m''} (h : last? = some (.error trap, m'')) :
    tail = [] ∧ ∃ payload m', end? = some (.error (noRoom payload (.trapped trap)), m') ∧
      m'.meter = m''.meter

theorem resumes_of_returned {address : Word} {m' m'' : Machine} {tail : List Label}
    {result : Except HostCallError Status} (htail : ∀ label ∈ tail, label.IsRecord)
    (hmeter : m'.meter = m''.meter) :
    Resumes (some (.ok address, m'')) tail (some (result, m')) := by
  refine ⟨htail, (fun h => by cases h), ?_, ?_⟩
  · rintro _ _ ⟨⟩
    exact ⟨_, _, rfl, hmeter⟩
  · rintro _ _ ⟨⟩

/-- A call that has ended without the allocator, or a `getField` that has entered it. -/
theorem resumes_of_performed (h : Performed malloc m request trace end?) :
    ((∀ label ∈ trace, label.IsRecord) ∧ ∃ result m', end? = some (result, m') ∧
      m'.meter = m.meter) ∨
    request.function = .getField ∧ ∃ length first last? tail,
      ((malloc length).run m).Traced first last? ∧ trace = first ++ tail ∧
      Resumes last? tail end? := by
  -- Only a `getField` that has found its value enters the allocator.
  cases h with
  | getForever hw hlength hforever =>
    refine .inr ⟨rfl, _, trace, none, [], hforever, by simp, ?_⟩
    refine ⟨by simp, fun _ => ⟨rfl, rfl⟩, ?_, ?_⟩
    · rintro _ _ ⟨⟩
    · rintro _ _ ⟨⟩
  | getTrapped hw hlength htrapped =>
    refine .inr ⟨rfl, _, trace, _, [], htrapped, by simp, ?_⟩
    refine ⟨by simp, (fun h => by cases h), ?_, ?_⟩
    · rintro _ _ ⟨⟩
      exact ⟨_, _, rfl, rfl⟩
    · rintro _ _ ⟨⟩
      exact ⟨rfl, _, _, rfl, rfl⟩
  | getUnusable hw hlength hreturned hwrite =>
    refine .inr ⟨rfl, _, trace, _, [], hreturned, by simp, ?_⟩
    exact resumes_of_returned (by simp) rfl
  | getNoPointer hw hlength hreturned hwrite hptr =>
    refine .inr ⟨rfl, _, trace, _, [], hreturned, by simp, ?_⟩
    exact resumes_of_returned (by simp) rfl
  | getNoLength hw hlength hreturned hwrite hptr hlen =>
    refine .inr ⟨rfl, _, trace, _, [], hreturned, by simp, ?_⟩
    exact resumes_of_returned (by simp) rfl
  | getDone hw hlength hreturned hwrite hptr hlen =>
    refine .inr ⟨rfl, _, _, _, _, hreturned, rfl, ?_⟩
    exact resumes_of_returned (by simp [Label.IsRecord]) rfl
  | _ => exact .inl ⟨by simp [Label.IsRecord], _, _, rfl, rfl⟩

end Calls

/-- The stop that ended an allocator is followed by the failure of the call around it. -/
theorem stops_swallow {m m' m'' : Machine} {first : List Label} {trap : Trap} (payload : Bytes)
    (h : Stops m first (some (some trap, m''))) (hmeter : m'.meter = m''.meter) :
    Stops m (first ++ [
      .record (.failedCall .getField (noRoom payload (.trapped trap))),
      .moment (.ended .internalFailure m')]) (some (none, m')) where
  shape hcut := by
    right
    rcases append_eq_append_cons hcut with ⟨inner, hfirst, rfl⟩ | ⟨inner, rfl, hrest⟩
    -- The stop ended the allocator, or a call inside the allocator had swallowed it before.
    · rcases h.shape hfirst with ⟨rfl, _, hend⟩ | hswallowed
      · cases hend
        exact ⟨_, m', [], rfl⟩
      · exact hswallowed.append _
    · rcases inner with _ | ⟨_, _ | ⟨_, _⟩⟩ <;> simp at hrest
  last h := by cases h
  limits hend trap := by
    cases hend
    rw [hmeter]
    exact h.limits rfl trap
  stopped hmem := h.stopped (by simpa using hmem)
  forever h := by cases h

/-- A call that has heard from its allocator shows no stop until it ends. -/
theorem quiet_of_records {trace : List Label} (h : ∀ label ∈ trace, label.IsRecord)
    (function : HostFunction) (result : Except HostCallError Status) (m : Machine) (trap : Trap) :
    .moment (.stopped trap) ∉
      trace ++ (report function result ++ [.moment (.ended (outcome result) m)]) := by
  intro hmem
  rcases List.mem_append.1 hmem with hmem | hmem
  · obtain ⟨_, hrecord⟩ := h _ hmem
    cases hrecord
  · cases result <;> simp [report] at hmem

theorem stops_answer {malloc : Allocator} {m : Machine} {request : HostRequest} {trace : List Label}
    {end? : Option (Word × Machine)} (hmalloc : AllocatorMeets Stops malloc)
    (h : Answered malloc m request trace end?) :
    Stops m trace (end?.map fun (_, m') => (none, m')) := by
  have hbegan : Stops m [.moment (.began request m)] (some (none, m)) :=
    stops_quiet (by simp) (fun _ => rfl) (fun _ h => by cases h)
  cases h with
  | forever hperformed =>
    rcases resumes_of_performed hperformed with
      ⟨-, _, _, hend, -⟩ | ⟨-, length, first, last?, tail, hfirst, rfl, hresumes⟩
    · cases hend
    -- A call without an end waits for an allocator without one.
    · have hlast : last? = none := by
        cases last? with
        | none => rfl
        | some last =>
          obtain ⟨_, _, hend, -⟩ := hresumes.ended rfl
          cases hend
      subst hlast
      obtain ⟨rfl, -⟩ := hresumes.forever rfl
      rw [List.append_nil]
      exact stops_seq hbegan (hmalloc length m first none hfirst)
  | @ended inner result m' hperformed =>
    refine stops_seq hbegan ?_
    rcases resumes_of_performed hperformed with
      ⟨hrecords, _, _, hend, hmeter⟩ |
      ⟨hgetField, length, first, last?, tail, hfirst, rfl, hresumes⟩
    · cases hend
      exact stops_quiet (quiet_of_records hrecords _ _ _) (fun _ => by rw [hmeter])
        (fun _ h => by cases h)
    · rcases last? with _ | ⟨trap | address, m''⟩
      · obtain ⟨-, hend⟩ := hresumes.forever rfl
        cases hend
      · obtain ⟨rfl, payload, _, hend, hmeter⟩ := hresumes.trapped rfl
        cases hend
        rw [List.append_nil, hgetField]
        exact stops_swallow payload (hmalloc length m first _ hfirst) hmeter
      · obtain ⟨_, _, hend, hmeter⟩ := hresumes.ended rfl
        cases hend
        show Stops m ((first ++ tail) ++ _) _
        rw [List.append_assoc]
        refine stops_seq (hmalloc length m first _ hfirst) ?_
        exact stops_quiet (quiet_of_records hresumes.records _ _ _) (fun _ => by rw [hmeter])
          (fun _ h => by cases h)

/-- What is said of stops is true of every run. -/
theorem stops_rules : Rules Stops where
  own h := stops_quiet (by simp) (fun _ => by rw [h.meter]) (fun _ h => by cases h)
  charge amount := stops_quiet (by simp) (Meter.limits_charge _ amount) (fun _ h => by cases h)
  fault h htrap := stops_quiet (by simp) (fun _ => by rw [h.meter]) (by rintro _ ⟨⟩; exact htrap)
  stop {m trap} hdue :=
    -- Nothing is shown but this stop.
    { shape := by
        intro before trap' after h
        rcases before with _ | ⟨_, _ | ⟨_, _⟩⟩ <;> simp at h
        obtain ⟨rfl, rfl⟩ := h
        exact .inl ⟨rfl, m, rfl⟩
      last := by
        rintro _ _ ⟨⟩ -
        exact ⟨[], rfl⟩
      limits := by
        rintro _ _ ⟨⟩ _
        rfl
      stopped := by
        intro trap' h
        obtain rfl : trap' = trap := by simpa using h
        exact Meter.limits_of_due? hdue
      forever := by
        rintro ⟨⟩ }
  forever h :=
    { shape := by simp
      last := by rintro _ _ ⟨⟩
      limits := by rintro _ _ ⟨⟩
      stopped := by simp
      forever := fun _ => Meter.not_limits_of_spinTrap? h }
  seq := stops_seq
  answer hmalloc h := stops_answer hmalloc h

end Guarded

/-! ## A whole call -/

namespace Session

open Guarded

/-- A limit ends a call that says so. -/
theorem ofTrap_injective {timeoutMs : Nat} {trap trap' : Trap} (htrap : trap.isLimit)
    (h : ProcessorError.ofTrap timeoutMs trap' = ProcessorError.ofTrap timeoutMs trap) :
    trap' = trap := by
  cases trap <;> cases trap' <;> simp [ProcessorError.ofTrap, Trap.isLimit] at h htrap ⊢

/-- When a limit stops the guest, the call ends. It ends by reporting that limit if and only if
nothing follows the stop, which means that the handler itself was stopped. A stop inside the
allocator, at whatever depth, is followed by an internal failure of the `getField` around it and by
the rest of the call. -/
theorem guestProcess_limits (s : Session) (event : Fields) {trace : List Label}
    {end? : Option Ended} (h : (s.guestProcess event).Traced trace end?) :
    (∀ before trap after, trace = before ++ .moment (.stopped trap) :: after →
      (after = [] ∨ Swallowed trap after) ∧ end?.isSome) ∧
    ∀ ended, end? = some ended → ∀ trap, trap.isLimit →
      (ended.result = .error (ProcessorError.ofTrap s.budget.timeoutMs trap) ↔
        ∃ before, trace = before ++ [.moment (.stopped trap)]) := by
  rcases traced_guestProcess stops_rules h with
    ⟨error, herror, rfl, rfl⟩ | ⟨meter, exports, last?, hx, rfl, hstops⟩
  · refine ⟨fun before trap after h => by simp at h, ?_⟩
    rintro _ ⟨⟩ trap htrap
    constructor
    · rintro ⟨⟩
      cases trap <;> simp [ProcessorError.ofTrap, ProcessorError.isConstruction] at herror
    · rintro ⟨before, hcut⟩
      simp at hcut
  · refine ⟨fun before trap after hcut => ⟨?_, ?_⟩, fun ended hended trap htrap => ?_⟩
    · rcases hstops.shape hcut with ⟨hlast, -⟩ | hswallowed
      · exact .inl hlast
      · exact .inr hswallowed
    · cases last? with
      | some _ => rfl
      | none =>
        -- A guest that runs for ever has no limits, but the trap that stopped it was one.
        have hlimits := hstops.stopped (hcut ▸ List.mem_append_right _ List.mem_cons_self)
        rw [hstops.forever rfl trap] at hlimits
        cases hlimits
    · obtain ⟨⟨result, m⟩, rfl, rfl⟩ := Option.map_eq_some_iff.1 hended
      constructor
      · intro hresult
        cases result with
        | ok code => cases hresult
        | error trap' =>
          obtain rfl := ofTrap_injective htrap (Except.error.inj hresult)
          exact hstops.last rfl htrap
      · rintro ⟨before, hcut⟩
        rcases hstops.shape hcut with ⟨-, m', hend⟩ | ⟨_, _, _, hswallowed⟩
        · cases result with
          | ok code => cases hend
          | error trap' =>
            cases hend
            rfl
        · cases hswallowed

/-- Under a limit every call comes to its end, whatever times the guest is told. -/
theorem guestProcess_ends {s : Session} {meter : Meter} {trap : Trap}
    (hmeter : Meter.ofBudget s.engine s.ticker s.budget = .ok meter) (hlimits : meter.limits trap)
    (event : Fields) (trace : List Label) : ¬ (s.guestProcess event).Traced trace none := by
  intro h
  rcases guestProcess_cases s event with ⟨_, -, hrefused⟩ | ⟨meter', exports, hmeter', -, hrun⟩
  · rw [hrefused] at h
    cases h
  · obtain rfl := Except.ok.inj (hmeter.symm.trans hmeter')
    rw [hrun] at h
    rcases Run.traced_bind.1 h with ⟨_, _, _, -, hrest, -⟩ | ⟨hforever, -⟩
    · cases hrest
    · -- The handler would run for ever, which only a guest without limits can do.
      have hstops : Stops (s.begin event meter) trace none :=
        stops_rules.enter _ _ _ _ _ _ hforever
      have hnone : meter.limits trap = false := hstops.forever rfl trap
      rw [hlimits] at hnone
      cases hnone

/-- A guest whose allocator uses up all fuel, and whose handler answers 7 after that. -/
def starved : Session :=
  small
    { malloc := .steps [.burn 1000000]
      process := .steps [.getField (.const 0) (.const 0) (.const 8) (.const 12), .ret (.const 7)] }
    (some 10000)

theorem guestProcess_limits_starved :
    ∃ trace ended, (starved.guestProcess [("", .bool true)]).Traced trace (some ended) ∧
      ended.result = .ok 7 ∧
      ∃ before after, trace = before ++ .moment (.stopped .outOfFuel) :: after ∧
        Swallowed .outOfFuel after := by
  have hstop : ((starved.guestProcess [("", .bool true)]).watch 0).1.filterMap Label.stop? =
      [.outOfFuel] := by
    decide +kernel
  have hresult : ((starved.guestProcess [("", .bool true)]).watch 0).2.map (·.result) =
      some (.ok 7) := by
    decide +kernel
  obtain ⟨ended, hended, hok⟩ := Option.map_eq_some_iff.1 hresult
  have h := (starved.guestProcess [("", .bool true)]).traced_watch 0
  rw [hended] at h
  obtain ⟨hshape, hreported⟩ := guestProcess_limits starved [("", .bool true)] h
  obtain ⟨before, after, hcut⟩ :=
    List.append_of_mem (Label.mem_of_stop? (hstop ▸ List.mem_cons_self))
  refine ⟨_, ended, h, hok, before, after, hcut, ?_⟩
  rcases (hshape before .outOfFuel after hcut).1 with rfl | hswallowed
  · -- The call did not report the limit, so something does follow.
    have hlimit := (hreported ended rfl .outOfFuel rfl).2 ⟨before, hcut⟩
    rw [hok] at hlimit
    cases hlimit
  · exact hswallowed

end Session

end EventSandbox
