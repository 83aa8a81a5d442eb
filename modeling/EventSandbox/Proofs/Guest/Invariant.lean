import EventSandbox.Proofs.Guest.Evolution
import EventSandbox.Proofs.Json.Canonical
import EventSandbox.Proofs.Session

/-!
# EventSandbox.Proofs.Guest.Invariant — what every step keeps, every run keeps

A state of a guest changes in three ways only: by the guest's own steps and the host's writes to
its memory, by work that is counted, and by fields that are put. What these keep (`Kept`) holds at
the end of every run and whenever a host call begins or ends (`keeps_rules`).

So the fields of the event are in order in every state of a call that can be seen from outside, if
they are at its beginning (`guestProcess_ordered`).
-/

namespace EventSandbox

/-- A state that is shown has a property. -/
def Label.Shows (I : Machine → Prop) : Label → Prop
  | .moment (.began _ m) | .moment (.ended _ m) => I m
  | .moment (.stopped _) | .record _ => True

/-- A property of states that nothing in a run takes away. -/
structure Kept (I : Machine → Prop) : Prop where
  own {m m'} (h : m.OwnStep m') (hm : I m) : I m'
  charge {m} (amount : Nat) (hm : I m) : I { m with meter := m.meter.charge amount }
  put {m event bytes key value} (hm : I m) (hevent : m.event? = some event)
    (hvalue : Value.ofJson bytes = .ok value) :
    I { m with event? := some (event.insert key value) }

/-- A run keeps a property: it holds in every state that is shown, and at the end. -/
def Keeps (I : Machine → Prop) : RunProperty := fun m trace end? =>
  I m → (∀ label ∈ trace, label.Shows I) ∧ ∀ trap? m', end? = some (trap?, m') → I m'

theorem Label.shows_record (I : Machine → Prop) (entry : LogRecord) :
    ∀ label ∈ [Label.record entry], label.Shows I :=
  List.forall_mem_singleton.2 trivial

/-- All states that are shown have a property. -/
theorem forall_shows_iff {I : Machine → Prop} {trace : List Label} :
    (∀ label ∈ trace, label.Shows I) ↔ ∀ m ∈ statesOf trace, I m := by
  induction trace with
  | nil => simp
  | cons label rest ih =>
    rw [List.forall_mem_cons, ih]
    cases label with
    | record entry => simp [Label.Shows]
    | moment what => cases what <;> simp [Label.Shows]

namespace Kept

variable {I : Machine → Prop} (hI : Kept I)

theorem keeps_nil {m m' : Machine} {trap? : Option Trap} (h : I m → I m') :
    Keeps I m [] (some (trap?, m')) := by
  intro hm
  refine ⟨by simp, ?_⟩
  rintro _ _ ⟨⟩
  exact h hm

include hI

/-- What is kept lasts. -/
theorem lasting : Lasting fun m m' => I m → I m' where
  refl _ := id
  trans h h' hm := h' (h hm)
  own h := hI.own h
  charge amount := hI.charge amount
  put hevent hvalue hm := hI.put hm hevent hvalue

open HostCall in
/-- A host call keeps what its allocator keeps. -/
theorem of_performed {malloc : Allocator} (hmalloc : Guarded.AllocatorMeets (Keeps I) malloc)
    {m : Machine} (hm : I m) {request : HostRequest} {trace : List Label}
    {end? : Option (Except HostCallError Status × Machine)}
    (h : Performed malloc m request trace end?) :
    (∀ label ∈ trace, label.Shows I) ∧ ∀ result m', end? = some (result, m') → I m' := by
  rcases hI.lasting.of_performed h with
    ⟨hnone, result, m', rfl, hstep⟩ | ⟨length, inner, last?, hinner, hstates, hend⟩
  · rw [forall_shows_iff, hnone]
    refine ⟨List.forall_mem_nil _, ?_⟩
    rintro _ _ ⟨⟩
    exact hstep hm
  · -- What the allocator keeps it keeps whether it ends with an address or with a trap.
    obtain ⟨hshows, hleft⟩ := hmalloc length m inner last? hinner hm
    rw [forall_shows_iff, hstates, ← forall_shows_iff]
    refine ⟨hshows, ?_⟩
    rcases hend with ⟨-, rfl⟩ | ⟨trap | address, left, result, m', rfl, rfl, hstep⟩
    · rintro _ _ ⟨⟩
    · rintro _ _ ⟨⟩
      exact hstep (hleft _ left rfl)
    · rintro _ _ ⟨⟩
      exact hstep (hleft _ left rfl)

/-- What every step keeps, every run keeps. -/
theorem keeps_rules : Guarded.Rules (Keeps I) where
  own h := keeps_nil (hI.own h)
  charge amount := keeps_nil (hI.charge amount)
  fault h _ := keeps_nil (hI.own h)
  stop _ := by
    intro hm
    refine ⟨List.forall_mem_singleton.2 trivial, ?_⟩
    rintro _ _ ⟨⟩
    exact hm
  forever _ := fun _ => ⟨by simp, by simp⟩
  seq hfirst hrest := by
    intro hm
    obtain ⟨hshows, hend⟩ := hfirst hm
    -- The second part begins where the first one has ended.
    obtain ⟨hshows', hend'⟩ := hrest (hend _ _ rfl)
    refine ⟨fun label hlabel => ?_, hend'⟩
    rcases List.mem_append.1 hlabel with hlabel | hlabel
    · exact hshows label hlabel
    · exact hshows' label hlabel
  answer hmalloc h := by
    intro hm
    -- What is shown is the beginning, what the allocator shows, and the end.
    cases h with
    | forever hperformed =>
      obtain ⟨hshows, -⟩ := hI.of_performed hmalloc hm hperformed
      exact ⟨List.forall_mem_cons.2 ⟨hm, hshows⟩, by simp⟩
    | @ended inner result m' hperformed =>
      obtain ⟨hshows, hend⟩ := hI.of_performed hmalloc hm hperformed
      have hm' := hend result m' rfl
      refine ⟨List.forall_mem_cons.2 ⟨hm, List.forall_mem_append.2 ⟨hshows, ?_⟩⟩, ?_⟩
      · refine List.forall_mem_append.2 ⟨?_, List.forall_mem_singleton.2 hm'⟩
        cases result with
        | ok => simp [HostCall.report]
        | error => exact Label.shows_record I _
      · rintro _ _ ⟨⟩
        exact hm'

end Kept

namespace Machine

/-! ## The event -/

/-- An event is bound, and what the host calls in the guest is known. -/
structure InCall (m : Machine) : Prop where
  event : m.event?.isSome
  exports : m.exports?.isSome

theorem kept_inCall : Kept InCall where
  own h hm := ⟨h.event ▸ hm.event, h.exports ▸ hm.exports⟩
  charge _ hm := ⟨hm.event, hm.exports⟩
  put hm _ _ := ⟨rfl, hm.exports⟩

/-! ## The order of fields -/

/-- The fields of the event, and of the objects in it, are in order. -/
def Ordered (m : Machine) : Prop := ∀ event, m.event? = some event → (Value.object event).Canonical

theorem kept_ordered : Kept Ordered where
  own h hm event hevent := hm event (h.event ▸ hevent)
  charge _ hm := hm
  put hm hevent hvalue := by
    rintro _ ⟨⟩
    exact Value.canonical_insert (hm _ hevent) (Value.canonical_ofJson hvalue)

end Machine

/-- In every state of a call that can be seen from outside the fields of the event are in order. -/
theorem Session.guestProcess_ordered {s : Session} {event : Fields}
    (hevent : (Value.object event).Canonical) {trace : List Label} {end? : Option Ended}
    (h : (s.guestProcess event).Traced trace end?) :
    ∀ label ∈ trace, label.Shows Machine.Ordered := by
  rcases Session.traced_guestProcess Machine.kept_ordered.keeps_rules h with
    ⟨error, -, rfl, -⟩ | ⟨meter, exports, last?, -, -, hkeeps⟩
  · simp
  · refine (hkeeps ?_).1
    rintro _ ⟨⟩
    exact hevent

end EventSandbox
