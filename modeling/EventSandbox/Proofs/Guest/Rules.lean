import EventSandbox.Proofs.Guest.HostCall
import EventSandbox.Proofs.Guest.Traversal

/-!
# EventSandbox.Proofs.Guest.Rules — what holds of every run of a guest

A property of runs speaks of the state at the beginning, the trace and the end. `Rules` lists what
has to be shown of it: that it holds of the few things that a guest can do at once, that it carries
over from two runs to the one after the other, and that it holds of a host call if it holds of the
allocator that the call may enter. To have only runs with such a property is closed under all that
a guest does (`Rules.closed`), so that `Rules.enter` concludes it for every function.
-/

namespace EventSandbox

/-- What is said of a run: from which state, with which trace, and how it ended, by which trap if
by any and in which state. An end that is missing is that of a run that goes on for ever. -/
abbrev RunProperty := Machine → List Label → Option (Option Trap × Machine) → Prop

/-! ## Limits -/

namespace Meter

variable {meter : Meter} {trap : Trap}

/-- An endless loop uses up the limit that ends it. -/
theorem due?_of_spinTrap? (h : meter.spinTrap? = some trap) :
    ∃ amount, meter.spent = meter.charge amount ∧ (meter.charge amount).due? = some trap := by
  rcases meter with ⟨_ | fuel, _ | work⟩ <;> simp only [spinTrap?, Option.some.injEq] at h
  · cases h
  · subst h
    exact ⟨work, rfl, by simp [charge, due?]⟩
  · subst h
    exact ⟨fuel, rfl, by simp [charge, due?]⟩
  · subst h
    -- Both limits are set: the one that is reached first is due.
    refine ⟨min fuel work, rfl, ?_⟩
    by_cases hle : fuel ≤ work
    · simp [charge, due?, hle]
    · have hpos : fuel - work ≠ 0 := by omega
      have hmin : min fuel work = work := by omega
      simp [charge, due?, hle, hmin, hpos]

end Meter

namespace Guarded

variable {α β : Type} {S : RunProperty}

/-- The end of a computation without its result. -/
def fate : Except Trap α × Machine → Option Trap × Machine
  | (.ok _, m) => (none, m)
  | (.error trap, m) => (some trap, m)

@[simp] theorem fate_ok (a : α) (m : Machine) : fate (.ok a, m) = (none, m) := rfl

@[simp] theorem fate_error (trap : Trap) (m : Machine) :
    fate ((.error trap, m) : Except Trap α × Machine) = (some trap, m) := rfl

/-- All runs of a computation have a property. -/
def Meets (S : RunProperty) (c : Guarded α) : Prop :=
  ∀ m trace end?, (c.run.run m).Traced trace end? → S m trace (end?.map fate)

/-- All runs of an allocator have a property. -/
def AllocatorMeets (S : RunProperty) (malloc : Allocator) : Prop :=
  ∀ size, Meets S (ExceptT.mk (malloc size))

/-! ## Rules -/

/-- What makes a property hold of all runs of all guests. -/
structure Rules (S : RunProperty) : Prop where
  /-- The guest changes its memory or its globals. -/
  own {m m'} (h : m.OwnStep m') : S m [] (some (none, m'))
  /-- Work is counted. -/
  charge {m : Machine} (amount : Nat) :
    S m [] (some (none, { m with meter := m.meter.charge amount }))
  /-- The guest does something wrong. -/
  fault {m m' trap} (h : m.OwnStep m') (htrap : trap.isLimit = false) :
    S m [] (some (some trap, m'))
  /-- A limit stops the guest. -/
  stop {m : Machine} {trap} (hdue : m.meter.due? = some trap) :
    S m [.moment (.stopped trap)] (some (some trap, m))
  /-- The guest loops without end, and nothing limits it. -/
  forever {m : Machine} (h : m.meter.spinTrap? = none) : S m [] none
  seq {m m' first rest end?} (hfirst : S m first (some (none, m'))) (hrest : S m' rest end?) :
    S m (first ++ rest) end?
  /-- The guest calls the host. -/
  answer {malloc : Allocator} {m request trace end?}
    (hmalloc : AllocatorMeets S malloc)
    (h : HostCall.Answered malloc m request trace end?) :
    S m trace (end?.map fun (_, m') => (none, m'))

namespace Rules

variable (hS : Rules S)
include hS

theorem same (m : Machine) : S m [] (some (none, m)) := hS.own (.refl m)

theorem meets_pure (a : α) : Meets S (pure a) := by
  intro m trace end? h
  obtain ⟨rfl, rfl⟩ := Run.traced_done.1 h
  exact hS.same m

theorem meets_throw {trap : Trap} (htrap : trap.isLimit = false) :
    Meets S (throw trap : Guarded α) := by
  intro m trace end? h
  obtain ⟨rfl, rfl⟩ := Run.traced_done.1 h
  exact hS.fault (.refl m) htrap

theorem meets_bind {c : Guarded α} {f : α → Guarded β} (hc : Meets S c) (hf : ∀ a, Meets S (f a)) :
    Meets S (c >>= f) := by
  intro m trace end? h
  rcases Except.traced_bind.1 h with
    ⟨a, m', first, rest, hfirst, hrest, rfl⟩ | ⟨trap, m', hfirst, rfl⟩ | ⟨hfirst, rfl⟩
  · exact hS.seq (hc _ _ _ hfirst) (hf a _ _ _ hrest)
  · exact hc _ _ _ hfirst
  · exact hc _ _ _ hfirst

theorem meets_get : Meets S (get : Guarded Machine) := by
  intro m trace end? h
  obtain ⟨rfl, rfl⟩ := Run.traced_done.1 h
  exact hS.same m

theorem meets_ofPure {p : Pure α} (hp : p.Own) : Meets S (ofPure p) := by
  intro m trace end? h
  rw [run_ofPure] at h
  obtain ⟨rfl, rfl⟩ := Run.traced_done.1 h
  obtain ⟨hown, htrap⟩ := hp m
  rcases hrun : p.run.run m with ⟨trap | a, m'⟩
  · rw [hrun] at hown htrap
    exact hS.fault hown (htrap trap rfl)
  · rw [hrun] at hown
    exact hS.own hown

theorem meets_pause : Meets S pause := by
  intro m trace end? h
  rw [run_pause, Run.traced_pause] at h
  obtain ⟨rfl, rfl⟩ := Run.traced_done.1 h
  exact hS.same m

theorem meets_answer {malloc : Allocator} (hmalloc : AllocatorMeets S malloc)
    (request : HostRequest) : Meets S (ofExec (HostCall.answer malloc request)) := by
  intro m trace end? h
  rw [run_ofExec] at h
  rcases Run.traced_bind.1 h with ⟨⟨w, m'⟩, first, rest, hfirst, hrest, rfl⟩ | ⟨hforever, rfl⟩
  · obtain ⟨rfl, rfl⟩ := Run.traced_done.1 hrest
    simpa using hS.answer hmalloc (HostCall.answered_of_traced hfirst)
  · exact hS.answer hmalloc (HostCall.answered_of_traced hforever)

theorem meets_charge (amount : Nat) : Meets S (Guarded.charge amount) := by
  intro m trace end? h
  rw [run_charge] at h
  obtain ⟨rfl, rfl⟩ := Run.traced_done.1 h
  exact hS.charge amount

theorem meets_checkpoint : Meets S checkpoint := by
  intro m trace end? h
  rw [checkpoint, run_get_bind] at h
  -- The guest goes on if nothing is due, and is stopped otherwise.
  cases hdue : m.meter.due? with
  | none =>
    rw [hdue] at h
    exact hS.meets_pure () m trace end? h
  | some trap =>
    rw [hdue] at h
    obtain ⟨_, rfl, hend⟩ := Run.traced_mark.1 (run_stop m trap ▸ h)
    obtain ⟨rfl, rfl⟩ := Run.traced_done.1 hend
    exact hS.stop hdue

theorem meets_spin : Meets S (spin : Guarded α) := by
  intro m trace end? h
  rw [run_spin] at h
  cases hspin : m.meter.spinTrap? with
  | none =>
    rw [hspin] at h
    obtain ⟨rfl, rfl⟩ := Run.traced_endless.1 h
    exact hS.forever hspin
  | some trap =>
    rw [hspin] at h
    obtain ⟨_, rfl, hend⟩ := Run.traced_mark.1 h
    obtain ⟨rfl, rfl⟩ := Run.traced_done.1 hend
    -- The loop charges what it has used up at once, and then its limit is due.
    obtain ⟨amount, hspent, hdue⟩ := Meter.due?_of_spinTrap? hspin
    rw [hspent]
    exact hS.seq (hS.charge amount) (hS.stop hdue)

theorem closed : Closed (Meets S) where
  pure := hS.meets_pure
  throw := hS.meets_throw
  bind := hS.meets_bind
  get := hS.meets_get
  ofPure := hS.meets_ofPure
  pause := hS.meets_pause
  charge := hS.meets_charge
  checkpoint := hS.meets_checkpoint
  spin := hS.meets_spin
  answer := hS.meets_answer

/-- The allocator of a guest has the property, however many activations may still be opened. -/
theorem allocator (depth : Nat) : AllocatorMeets S (Code.allocator depth) :=
  hS.closed.allocator depth

/-- Every function of a guest has the property. -/
theorem enter (depth : Nat) (code : Code) (argument : Word) :
    Meets S (Code.enter (Code.allocator depth) code argument) :=
  hS.closed.enter depth code argument

end Rules

end Guarded

end EventSandbox
