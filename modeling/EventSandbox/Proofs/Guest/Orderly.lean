import EventSandbox.Proofs.Guest.Invariant

/-!
# EventSandbox.Proofs.Guest.Orderly — the host calls of a run, one inside the other

A run shows where its host calls begin and where they end. `Orderly P` reads these moments as
brackets: whatever a call shows stands between its own, so that the calls of an allocator are inside
the call that waits for it; and every call that has come to its end has the property `P`.

`Kept.orderly_rules` says what has to be shown of `P`: that each of the ways of a request has it,
from a state with a property that every run keeps. Then it holds of all host calls of all runs that
begin in such a state, at any depth.
-/

namespace EventSandbox

open HostCall

/-! ## Calls that have ended -/

/-- A host call from its beginning to its end. -/
structure CompletedCall where
  request : HostRequest
  before : Machine
  /-- What is shown meanwhile, apart from its failure. -/
  inner : List Label
  result : Except HostCallError Status
  after : Machine

namespace CompletedCall

variable (c : CompletedCall)

/-- The status that the guest goes on with. -/
def status : Status := outcome c.result

/-- All that the call shows. -/
def labels : List Label :=
  .moment (.began c.request c.before) ::
    (c.inner ++ (report c.request.function c.result ++ [.moment (.ended c.status c.after)]))

end CompletedCall

/-! ## Brackets -/

/-- What can be shown by itself: a record that reports no failure, or a limit. -/
def Label.Plain : Label → Prop
  | .record (.failedCall ..) | .moment (.began ..) | .moment (.ended ..) => False
  | .record _ | .moment (.stopped _) => True

/-- The calls in a trace are put together like brackets, and those that have ended have a property.
A trace that is not whole is that of a run that goes on for ever. -/
inductive Orderly (P : CompletedCall → Prop) : (whole : Bool) → List Label → Prop
  | nil : Orderly P true []
  /-- The guest loops without end. -/
  | loops : Orderly P false []
  | plain {whole label rest} (hlabel : label.Plain) (hrest : Orderly P whole rest) :
      Orderly P whole (label :: rest)
  | call {whole rest} {c : CompletedCall} (hinner : Orderly P true c.inner) (hcall : P c)
      (hrest : Orderly P whole rest) : Orderly P whole (c.labels ++ rest)
  /-- A call waits for its allocator for ever. -/
  | waits {request m inner} (hinner : Orderly P false inner) :
      Orderly P false (.moment (.began request m) :: inner)

namespace Orderly

variable {P : CompletedCall → Prop} {whole : Bool} {first rest : List Label}

theorem append (hfirst : Orderly P true first) (hrest : Orderly P whole rest) :
    Orderly P whole (first ++ rest) := by
  generalize htrue : true = w at hfirst
  induction hfirst with
  | nil => exact hrest
  | loops => cases htrue
  | plain hlabel _ ih => exact .plain hlabel (ih htrue)
  | call hinner hcall _ _ ih =>
    rw [List.append_assoc]
    exact .call hinner hcall (ih htrue)
  | waits => cases htrue

theorem single {label : Label} (h : label.Plain) : Orderly P true [label] := .plain h .nil

end Orderly

/-! ## All host calls of a run -/

variable {I : Machine → Prop} {P : CompletedCall → Prop}

/-- What a request does from states with a property. -/
def Ensures (I : Machine → Prop) (P : CompletedCall → Prop) : Prop :=
  ∀ {malloc : Allocator}, Guarded.AllocatorMeets (Keeps I) malloc →
    ∀ {m request inner result m'}, I m → Performed malloc m request inner (some (result, m')) →
      P ⟨request, m, inner, result, m'⟩

/-- A run keeps a property of states, and its host calls are in order. -/
def KeepsOrder (I : Machine → Prop) (P : CompletedCall → Prop) : RunProperty := fun m trace end? =>
  Keeps I m trace end? ∧ (I m → Orderly P end?.isSome trace)

/-- What is shown inside a request is what its allocator shows, if it is called, and a record. -/
theorem orderly_inner {malloc : Allocator}
    (hmalloc : Guarded.AllocatorMeets (KeepsOrder I P) malloc) {m : Machine} (hm : I m)
    {request : HostRequest} {trace : List Label}
    {end? : Option (Except HostCallError Status × Machine)}
    (h : Performed malloc m request trace end?) : Orderly P end?.isSome trace := by
  have hcalled {length trace last?} (h : ((malloc length).run m).Traced trace last?) :
      Orderly P last?.isSome trace := by
    have horderly := (hmalloc length m trace last? h).2 hm
    rw [Option.isSome_map] at horderly
    exact horderly
  -- Only a `getField` that has come as far as its allocator shows more than one label.
  cases h with
  | getForever _ _ hforever => exact hcalled hforever
  | getTrapped _ _ htrapped => exact hcalled htrapped
  | getUnusable _ _ hgiven | getNoPointer _ _ hgiven | getNoLength _ _ hgiven =>
    exact hcalled hgiven
  | getDone _ _ hgiven => exact (hcalled hgiven).append (.single trivial)
  | getMissing | putDone => exact .single trivial
  | log =>
    refine .single ?_
    unfold logRecord
    dsimp only
    split <;> trivial
  | unresolved | getUnreadable | getUnbound | getMisplaced | getTooLarge | putUnreadable
  | putUndecodable | putUnbound | timeMisplaced | timeDone => exact .nil

/-- What every request does from states that a run keeps to, every host call of the run does. -/
theorem Kept.orderly_rules (hI : Kept I) (hP : Ensures I P) : Guarded.Rules (KeepsOrder I P) where
  own h := ⟨hI.keeps_rules.own h, fun _ => .nil⟩
  charge amount := ⟨hI.keeps_rules.charge amount, fun _ => .nil⟩
  fault h htrap := ⟨hI.keeps_rules.fault h htrap, fun _ => .nil⟩
  stop hdue := ⟨hI.keeps_rules.stop hdue, fun _ => .single trivial⟩
  forever h := ⟨hI.keeps_rules.forever h, fun _ => .loops⟩
  seq hfirst hrest := by
    refine ⟨hI.keeps_rules.seq hfirst.1 hrest.1, fun hm => ?_⟩
    have hm' := (hfirst.1 hm).2 _ _ rfl
    exact (hfirst.2 hm).append (hrest.2 hm')
  answer {malloc m request trace end?} hmalloc h := by
    have hkeeps : Guarded.AllocatorMeets (Keeps I) malloc := by
      intro size m trace end? htraced
      exact (hmalloc size m trace end? htraced).1
    refine ⟨hI.keeps_rules.answer hkeeps h, fun hm => ?_⟩
    rw [Option.isSome_map]
    -- The call is a completed one, or it waits for its allocator for ever.
    cases h with
    | forever hperformed => exact .waits (orderly_inner hmalloc hm hperformed)
    | @ended inner result m' hperformed =>
      have hinner : Orderly P true inner := orderly_inner hmalloc hm hperformed
      have hcall : P ⟨request, m, inner, result, m'⟩ := hP hkeeps hm hperformed
      have h := Orderly.call hinner hcall .nil
      rw [List.append_nil] at h
      exact h

end EventSandbox
