import EventSandbox.Proofs.Guest.Rules
import EventSandbox.Proofs.Memory.Growth

/-!
# EventSandbox.Proofs.Guest.Evolution — from a state to every later one

A relation between states is *lasting* if it is a preorder that holds across whatever changes a
state: the guest's own steps and the host's writes to its memory, work that is counted, and fields
that are put. A lasting relation holds in every run between any two of the states that are shown,
the earlier and the later one, and from the beginning of the run to its end (`Lasting.rules`).

What is needed for this of a host call is said once (`Lasting.of_performed`): it goes on from the
state that it has found, or from the one that the allocator has left.
-/

namespace EventSandbox

open HostCall

/-! ## States of a run -/

/-- The state that a label shows. -/
def Label.state? : Label → Option Machine
  | .moment (.began _ m) | .moment (.ended _ m) => some m
  | .moment (.stopped _) | .record _ => none

/-- The states that are shown, in order. -/
def statesOf (trace : List Label) : List Machine := trace.filterMap Label.state?

@[simp] theorem statesOf_nil : statesOf [] = [] := rfl

@[simp] theorem statesOf_append (first rest : List Label) :
    statesOf (first ++ rest) = statesOf first ++ statesOf rest :=
  List.filterMap_append

@[simp] theorem statesOf_record (entry : LogRecord) (rest : List Label) :
    statesOf (.record entry :: rest) = statesOf rest := rfl

@[simp] theorem statesOf_began (request : HostRequest) (m : Machine) (rest : List Label) :
    statesOf (.moment (.began request m) :: rest) = m :: statesOf rest := rfl

@[simp] theorem statesOf_ended (status : Status) (m : Machine) (rest : List Label) :
    statesOf (.moment (.ended status m) :: rest) = m :: statesOf rest := rfl

@[simp] theorem statesOf_stopped (trap : Trap) (rest : List Label) :
    statesOf (.moment (.stopped trap) :: rest) = statesOf rest := rfl

@[simp] theorem statesOf_report (function : HostFunction) (result : Except HostCallError Status) :
    statesOf (report function result) = [] := by
  cases result <;> rfl

/-- In a run a relation holds between any state and every later one. -/
def Lasts (R : Machine → Machine → Prop) : RunProperty := fun m trace end? =>
  (m :: (statesOf trace ++ (end?.map Prod.snd).toList)).Pairwise R

/-- It holds between the beginning and the end. -/
theorem Lasts.ends {R : Machine → Machine → Prop} {m m' : Machine} {trace : List Label}
    {trap? : Option Trap} (h : Lasts R m trace (some (trap?, m'))) : R m m' :=
  List.rel_of_pairwise_cons h (List.mem_append_right _ (List.mem_singleton_self m'))

/-! ## Lasting relations -/

/-- A preorder on states that holds across everything that changes a state. -/
structure Lasting (R : Machine → Machine → Prop) : Prop where
  refl (m : Machine) : R m m
  trans {m m' m'' : Machine} (h : R m m') (h' : R m' m'') : R m m''
  own {m m' : Machine} (h : m.OwnStep m') : R m m'
  charge {m : Machine} (amount : Nat) : R m { m with meter := m.meter.charge amount }
  put {m : Machine} {event bytes key value} (hevent : m.event? = some event)
    (hvalue : Value.ofJson bytes = .ok value) :
    R m { m with event? := some (event.insert key value) }

namespace Lasting

variable {R : Machine → Machine → Prop}

theorem lasts_nil {m m' : Machine} {trap? : Option Trap} (h : R m m') :
    Lasts R m [] (some (trap?, m')) :=
  List.pairwise_pair.2 h

variable (hR : Lasting R)
include hR

/-- States that go on where others have ended go on from all of them. -/
theorem splice {first rest : List Machine} {m : Machine} (hfirst : (first ++ [m]).Pairwise R)
    (hrest : (m :: rest).Pairwise R) : (first ++ rest).Pairwise R := by
  obtain ⟨hfirst, -, hlast⟩ := List.pairwise_append.1 hfirst
  obtain ⟨hnext, hrest⟩ := List.pairwise_cons.1 hrest
  refine List.pairwise_append.2 ⟨hfirst, hrest, ?_⟩
  intro a ha b hb
  exact hR.trans (hlast a ha m List.mem_cons_self) (hnext b hb)

/-- So they do if the state between them is seen twice or once. -/
theorem join {first rest : List Machine} {m : Machine} (hfirst : (first ++ [m]).Pairwise R)
    (hrest : (m :: rest).Pairwise R) : (first ++ [m] ++ rest).Pairwise R := by
  rw [List.append_assoc]
  refine hR.splice hfirst (List.pairwise_cons.2 ⟨?_, hrest⟩)
  exact List.forall_mem_cons.2 ⟨hR.refl m, (List.pairwise_cons.1 hrest).1⟩

theorem write {m : Machine} {address : Word} {bytes : Bytes} {memory : Memory}
    (h : m.memory.write address bytes = .ok memory) : R m { m with memory } := by
  obtain ⟨-, -, rfl⟩ := Memory.write_eq_ok.1 h
  exact hR.own (.ofMemory (by simp) (by simp))

/-- A host call goes on from the state that it has found, or from the one that the allocator has
left. -/
theorem of_performed {malloc : Allocator} {m : Machine} {request : HostRequest}
    {trace : List Label} {end? : Option (Except HostCallError Status × Machine)}
    (h : Performed malloc m request trace end?) :
    (statesOf trace = [] ∧ ∃ result m', end? = some (result, m') ∧ R m m') ∨
    ∃ length inner last?, ((malloc length).run m).Traced inner last? ∧
      statesOf trace = statesOf inner ∧
      (last? = none ∧ end? = none ∨
        ∃ r left result m', last? = some (r, left) ∧ end? = some (result, m') ∧ R left m') := by
  cases h with
  -- Up to three writes follow the allocator, and lasting relations hold across each of them.
  | getForever _ _ hforever => exact .inr ⟨_, _, _, hforever, rfl, .inl ⟨rfl, rfl⟩⟩
  | getTrapped _ _ htrapped =>
    exact .inr ⟨_, _, _, htrapped, rfl, .inr ⟨_, _, _, _, rfl, rfl, hR.refl _⟩⟩
  | getUnusable _ _ hgiven =>
    exact .inr ⟨_, _, _, hgiven, rfl, .inr ⟨_, _, _, _, rfl, rfl, hR.refl _⟩⟩
  | getNoPointer _ _ hgiven hwrite =>
    exact .inr ⟨_, _, _, hgiven, rfl, .inr ⟨_, _, _, _, rfl, rfl, hR.write hwrite⟩⟩
  | @getNoLength _ _ _ _ _ _ _ _ _ m' placed _ _ _ _ hgiven hwrite hptr =>
    have hpointed := hR.write (m := { m' with memory := placed }) hptr
    exact .inr ⟨_, _, _, hgiven, rfl,
      .inr ⟨_, _, _, _, rfl, rfl, hR.trans (hR.write hwrite) hpointed⟩⟩
  | @getDone _ _ _ _ _ _ _ _ _ m' placed pointed _ _ _ hgiven hwrite hptr hlen =>
    have hpointed := hR.write (m := { m' with memory := placed }) hptr
    have hdone := hR.write (m := { m' with memory := pointed }) hlen
    have hall := hR.trans (hR.trans (hR.write hwrite) hpointed) hdone
    refine .inr ⟨_, _, _, hgiven, ?_, .inr ⟨_, _, _, _, rfl, rfl, hall⟩⟩
    rw [statesOf_append]
    exact List.append_nil _
  -- The other calls, and those that end early, show no state of their own.
  | putDone _ _ _ hvalue hevent => exact .inl ⟨rfl, _, _, rfl, hR.put hevent hvalue⟩
  | timeDone _ hwrite => exact .inl ⟨rfl, _, _, rfl, hR.write hwrite⟩
  | unresolved | getUnreadable | getUnbound | getMissing | getMisplaced | getTooLarge
  | putUnreadable | putUndecodable | putUnbound | log | timeMisplaced =>
    exact .inl ⟨rfl, _, _, rfl, hR.refl m⟩

/-! ## All runs -/

/-- Where nothing changes, everything lasts. -/
theorem lasts_still {m : Machine} {trace : List Label} (h : ∀ m' ∈ statesOf trace, m' = m) :
    Lasts R m trace (some (none, m)) := by
  -- The run shows no state but this one.
  have hsame : ∀ x ∈ m :: (statesOf trace ++ [m]), x = m := by
    intro x hx
    rcases List.mem_cons.1 hx with rfl | hx
    · rfl
    · rcases List.mem_append.1 hx with hx | hx
      · exact h x hx
      · exact List.mem_singleton.1 hx
  apply List.pairwise_of_forall_mem_list
  intro x hx y hy
  rw [hsame x hx, hsame y hy]
  exact hR.refl m

theorem lasts_seq {m m' : Machine} {first rest : List Label}
    {end? : Option (Option Trap × Machine)} (hfirst : Lasts R m first (some (none, m')))
    (hrest : Lasts R m' rest end?) : Lasts R m (first ++ rest) end? := by
  have hchain : ((m :: statesOf first) ++ [m']).Pairwise R := hfirst
  have h := hR.splice hchain hrest
  unfold Lasts
  rw [statesOf_append, List.append_assoc]
  exact h

theorem lasts_performed {malloc : Allocator} (hmalloc : Guarded.AllocatorMeets (Lasts R) malloc)
    {m : Machine} {request : HostRequest} {trace : List Label}
    {end? : Option (Except HostCallError Status × Machine)}
    (h : Performed malloc m request trace end?) :
    Lasts R m trace (end?.map fun (_, m') => (none, m')) := by
  unfold Lasts
  rcases hR.of_performed h with
    ⟨hnone, result, m', rfl, hstep⟩ | ⟨length, inner, last?, hinner, hstates, hend⟩
  · rw [hnone]
    exact List.pairwise_pair.2 hstep
  · have hlasts := hmalloc length m inner last? hinner
    rw [hstates]
    rcases hend with ⟨rfl, rfl⟩ | ⟨r, left, result, m', rfl, rfl, hstep⟩
    · exact hlasts
    · -- What held up to the end of the allocator holds up to the state that is made from that.
      have hfirst : ((m :: statesOf inner) ++ [left]).Pairwise R := by
        rcases r with trap | address <;> exact hlasts
      exact hR.splice hfirst (List.pairwise_pair.2 hstep)

/-- A lasting relation holds in every run of every guest. -/
theorem rules : Guarded.Rules (Lasts R) where
  own h := lasts_nil (hR.own h)
  charge amount := lasts_nil (hR.charge amount)
  fault h _ := lasts_nil (hR.own h)
  stop {m trap} _ := List.pairwise_pair.2 (hR.refl m)
  forever _ := List.pairwise_singleton R _
  seq hfirst hrest := hR.lasts_seq hfirst hrest
  answer {malloc m request trace end?} hmalloc h := by
    have hbegan : Lasts R m [.moment (.began request m)] (some (none, m)) :=
      hR.lasts_still (by simp)
    -- The call shows its beginning, what its allocator shows, and its end.
    cases h with
    | forever hperformed => exact hR.lasts_seq hbegan (hR.lasts_performed hmalloc hperformed)
    | @ended inner result m' hperformed =>
      refine hR.lasts_seq hbegan ?_
      refine hR.lasts_seq (hR.lasts_performed hmalloc hperformed) ?_
      apply hR.lasts_still
      simp

end Lasting

/-! ## Memories -/

namespace Machine

/-- Memories only grow. -/
def MemoryGrown (m m' : Machine) : Prop := m.memory.Grown m'.memory

/-- Nothing that happens in a run makes a memory smaller. -/
theorem lasting_grown : Lasting MemoryGrown where
  refl m := .refl m.memory
  trans h h' := Memory.Grown.trans h h'
  own h := ⟨h.maxPages, h.pageCount⟩
  charge _ := .refl _
  put _ _ := .refl _

end Machine

end EventSandbox
