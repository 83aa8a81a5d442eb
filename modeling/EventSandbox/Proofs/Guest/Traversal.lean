import EventSandbox.Proofs.Guest.Trace
import EventSandbox.Proofs.Guest.OwnStep

/-!
# EventSandbox.Proofs.Guest.Traversal — what all functions of a guest have in common

`Closed P` lists what has to be shown of a predicate on computations: that the few things that a
guest can do at once have it, that a sequence has it if its parts do, and that a host call has it
if the allocator that it may enter does. `Closed.enter` concludes that every function of every
guest has it. Steps are followed by recursion over the program, loops by induction on their count,
and calls back into the guest by induction on the activations that may still be opened.
-/

namespace EventSandbox.Guarded

open EventSandbox.Pure

/-! ## Elementary computations -/

section Elementary

variable {α : Type} (m : Machine)

theorem run_get_bind (f : Machine → Guarded α) :
    ((get : Guarded Machine) >>= f).run.run m = (f m).run.run m := rfl

theorem run_ofPure (p : Pure α) : (ofPure p).run.run m = .done (p.run.run m) := rfl

theorem run_ofPure_bind {β : Type} {m m' : Machine} {p : Pure α} {a : α}
    (h : p.run.run m = (.ok a, m')) (f : α → Guarded β) :
    (ofPure p >>= f).run.run m = (f a).run.run m' := by
  rw [Except.run_bind, run_ofPure, h]
  rfl

theorem run_ofExec (c : Exec α) :
    (ofExec c).run.run m = (c.run m).bind fun (a, m) => .done (.ok a, m) := rfl

/-- A step that calls the host goes on with the status that it is given. -/
theorem run_called (c : Exec Word) :
    (Flow.next <$> ofExec c).run.run m = (c.run m).bind fun (w, m) => .done (.ok (.next w), m) := by
  rw [map_eq_pure_bind, Except.run_bind, run_ofExec, Run.bind_assoc]
  rfl

theorem run_pause : pause.run.run m = .pause fun _ => .done (.ok (), m) := rfl

theorem run_charge (amount : Nat) :
    (charge amount).run.run m = .done (.ok (), { m with meter := m.meter.charge amount }) := rfl

theorem run_stop (trap : Trap) :
    (stop trap : Guarded α).run.run m =
      .mark (.stopped trap) fun _ => .done (.error trap, m) := rfl

theorem run_spin :
    (spin : Guarded α).run.run m =
      match m.meter.spinTrap? with
      | some trap =>
        .mark (.stopped trap) fun _ => .done (.error trap, { m with meter := m.meter.spent })
      | none => .endless := by
  simp only [spin, run_get_bind]
  cases m.meter.spinTrap? <;> rfl

/-- Nothing happens at a checkpoint if no limit has been reached. -/
theorem run_checkpoint {m : Machine} (hdue : m.meter.due? = none) :
    checkpoint.run.run m = .done (.ok (), m) := by
  unfold checkpoint
  rw [run_get_bind, hdue]
  rfl

end Elementary

/-! ## Steps and functions -/

section Functions

variable {malloc : Allocator} {m : Machine}

/-- A step that ends with a status hands it on to the steps after it. -/
theorem run_execAll_cons {frame : Frame} {step : Step} (rest : List Step)
    {r : Run (Word × Machine)}
    (h : (step.exec malloc frame).run.run { m with meter := m.meter.charge Meter.stepCost } =
      r.bind fun (w, m) => .done (.ok (.next w), m)) :
    (Step.execAll malloc frame (step :: rest)).run.run m = r.bind fun (w, m) =>
      .pause fun _ => (Step.execAll malloc { frame with status := w } rest).run.run m := by
  rw [Step.execAll, Except.run_bind, run_charge]
  show (step.exec malloc frame >>= _).run.run _ = _
  rw [Except.run_bind, h, Run.bind_assoc]
  rfl

/-- A function that is entered before any limit is reached makes its steps. -/
theorem run_enter {body : List Step} {argument : Word} (hdue : m.meter.due? = none) :
    (Code.enter malloc (.steps body) argument).run.run m =
      ((Step.execAll malloc ⟨argument, 0⟩ body).run.run m).bind fun
        | (.ok (.returned value), m) => .done (.ok value, m)
        | (.ok (.next _), m) => .done (.ok 0, m)
        | (.error trap, m) => .done (.error trap, m) := by
  unfold Code.enter
  rw [Except.run_bind, run_checkpoint hdue]
  show (Step.execAll malloc ⟨argument, 0⟩ body >>= _).run.run m = _
  rw [Except.run_bind]
  congr 1
  funext r
  rcases r with ⟨trap | ⟨value | status⟩, m⟩ <;> rfl

end Functions

/-! ## What sequences keep -/

/-- A predicate that the parts of a guest's functions have and that sequences keep. -/
structure Closed (P : ∀ {α : Type}, Guarded α → Prop) : Prop where
  pure {α : Type} (a : α) : P (pure a)
  /-- The guest does something wrong. -/
  throw {α : Type} {trap : Trap} (htrap : trap.isLimit = false) : P (throw trap : Guarded α)
  bind {α β : Type} {c : Guarded α} {f : α → Guarded β} (hc : P c) (hf : ∀ a, P (f a)) :
    P (c >>= f)
  get : P (get : Guarded Machine)
  /-- The guest uses what its instance holds. -/
  ofPure {α : Type} {p : Pure α} (hp : p.Own) : P (ofPure p)
  pause : P pause
  charge (amount : Nat) : P (charge amount)
  checkpoint : P checkpoint
  spin {α : Type} : P (spin : Guarded α)
  /-- The guest calls the host. -/
  answer {malloc : Allocator} (hmalloc : ∀ size, P (ExceptT.mk (malloc size) : Guarded Word))
    (request : HostRequest) : P (ofExec (HostCall.answer malloc request))

/-- An allocator that may open activations enters the guest, if it knows how. -/
theorem allocator_succ (depth : Nat) (size : Word) :
    (ExceptT.mk (Code.allocator (depth + 1) size) : Guarded Word) =
      (get : Guarded Machine) >>= fun m =>
        match m.exports? with
        | some exports => Code.enter (Code.allocator depth) exports.malloc size
        | none => throw .unreachable := by
  funext m
  rcases m with ⟨_, _, _, _ | exports, _⟩ <;> rfl

namespace Closed

variable {P : ∀ {α : Type}, Guarded α → Prop} (hP : Closed P)
include hP

theorem map {α β : Type} {c : Guarded α} {f : α → β} (hc : P c) : P (f <$> c) := by
  rw [map_eq_pure_bind]
  exact hP.bind hc fun a => hP.pure (f a)

/-! ## Steps -/

/-- An operand is evaluated. -/
theorem operand {β : Type} (e : Expr) (frame : Frame) {f : Word → Guarded β} (hf : ∀ w, P (f w)) :
    P (Guarded.ofPure (e.eval frame) >>= f) :=
  hP.bind (hP.ofPure (e.own_eval frame)) hf

/-- A word is stored. -/
theorem store (count : Nat) (a v : Expr) (frame : Frame) :
    P (Guarded.ofPure do
      Machine.store count (← a.eval frame) (← v.eval frame)
      Pure.pure (Flow.next frame.status)) := by
  refine hP.ofPure (own_bind (a.own_eval frame) fun address => ?_)
  refine own_bind (v.own_eval frame) fun value => ?_
  exact own_bind (Machine.own_store count address value) fun _ => own_pure _

/-- A range is moved or filled at once, wherever it comes from and wherever it goes. -/
theorem bulk {act : Word → Word → Word → Pure Unit} (hact : ∀ x y z, (act x y z).Own)
    (a b n : Expr) (frame : Frame) :
    P (Guarded.ofPure do
      act (← a.eval frame) (← b.eval frame) (← n.eval frame)
      Pure.pure (Flow.next frame.status)) := by
  refine hP.ofPure (own_bind (a.own_eval frame) fun x => ?_)
  refine own_bind (b.own_eval frame) fun y => ?_
  refine own_bind (n.own_eval frame) fun z => ?_
  exact own_bind (hact x y z) fun _ => own_pure _

theorem iterate {body : Word → Guarded Flow} (hbody : ∀ status, P (body status)) (count : Nat)
    (status : Word) : P (iterate body count status) := by
  -- The limits are looked at before each turn, and once more after the last one.
  induction count generalizing status with
  | zero =>
    unfold Guarded.iterate
    exact hP.bind hP.checkpoint fun _ => hP.pure _
  | succ count ih =>
    unfold Guarded.iterate
    refine hP.bind hP.checkpoint fun _ => ?_
    refine hP.bind (hP.charge _) fun _ => ?_
    refine hP.bind (hbody status) fun flow => ?_
    cases flow with
    | returned value => exact hP.pure _
    | next status => exact ih status

variable {malloc : Allocator}

mutual

theorem exec (hmalloc : ∀ size, P (ExceptT.mk (malloc size) : Guarded Word)) (frame : Frame) :
    (step : Step) → P (step.exec malloc frame)
  | .getField a b c d => by
    unfold Step.exec
    refine hP.operand a frame fun _ => ?_
    refine hP.operand b frame fun _ => ?_
    refine hP.operand c frame fun _ => ?_
    refine hP.operand d frame fun _ => ?_
    exact hP.map (hP.answer hmalloc _)
  | .putField a b c d => by
    unfold Step.exec
    refine hP.operand a frame fun _ => ?_
    refine hP.operand b frame fun _ => ?_
    refine hP.operand c frame fun _ => ?_
    refine hP.operand d frame fun _ => ?_
    exact hP.map (hP.answer hmalloc _)
  | .log a b c => by
    unfold Step.exec
    refine hP.operand a frame fun _ => ?_
    refine hP.operand b frame fun _ => ?_
    refine hP.operand c frame fun _ => ?_
    exact hP.map (hP.answer hmalloc _)
  | .currentTime a => by
    unfold Step.exec
    refine hP.operand a frame fun _ => ?_
    exact hP.map (hP.answer hmalloc _)
  | .store32 a v => by
    unfold Step.exec
    exact hP.store 4 a v frame
  | .store8 a v => by
    unfold Step.exec
    exact hP.store 1 a v frame
  | .fill a b n => by
    unfold Step.exec
    exact hP.bulk Machine.own_fill a b n frame
  | .copy a b n => by
    unfold Step.exec
    exact hP.bulk Machine.own_copy a b n frame
  | .initMemory i a b n => by
    unfold Step.exec
    exact hP.bulk (Machine.own_initMemory i) a b n frame
  | .dropData i => by
    unfold Step.exec
    exact hP.ofPure (own_bind (Machine.own_dropData i) fun _ => own_pure _)
  | .initTable i a b n => by
    unfold Step.exec
    exact hP.bulk (Machine.own_initTable i) a b n frame
  | .copyTable a b n => by
    unfold Step.exec
    exact hP.bulk Machine.own_copyTable a b n frame
  | .dropElements i => by
    unfold Step.exec
    exact hP.ofPure (own_bind (Machine.own_dropElements i) fun _ => own_pure _)
  | .setGlobal i v => by
    unfold Step.exec
    exact hP.ofPure <| own_bind (v.own_eval frame) fun _ =>
      own_bind (Machine.own_setGlobal i _) fun _ => own_pure _
  | .drop v => by
    unfold Step.exec
    exact hP.ofPure <| own_bind (v.own_eval frame) fun _ => own_pure _
  | .branch condition yes no => by
    unfold Step.exec
    refine hP.operand condition frame fun truth => ?_
    -- The steps of a branch and of a loop are lists again, which is why both proofs go together.
    split
    · exact execAll hmalloc frame yes
    · exact execAll hmalloc frame no
  | .loop count body => by
    unfold Step.exec
    refine hP.operand count frame fun turns => ?_
    exact hP.iterate (fun status => execAll hmalloc { frame with status } body) _ _
  | .ret v => by
    unfold Step.exec
    exact hP.ofPure <| own_bind (v.own_eval frame) fun _ => own_pure _
  | .trap => by
    unfold Step.exec
    exact hP.throw rfl
  | .recurse => by
    unfold Step.exec
    refine hP.bind (hP.charge _) fun _ => ?_
    exact hP.bind hP.checkpoint fun _ => hP.throw rfl
  | .spin => by
    unfold Step.exec
    exact hP.spin
  | .burn amount => by
    unfold Step.exec
    refine hP.bind (hP.charge _) fun _ => ?_
    exact hP.bind hP.checkpoint fun _ => hP.pure _

theorem execAll (hmalloc : ∀ size, P (ExceptT.mk (malloc size) : Guarded Word)) (frame : Frame) :
    (steps : List Step) → P (Step.execAll malloc frame steps)
  | [] => by
    unfold Step.execAll
    exact hP.pure _
  | step :: rest => by
    unfold Step.execAll
    refine hP.bind (hP.charge _) fun _ => ?_
    refine hP.bind (exec hmalloc frame step) fun flow => ?_
    cases flow with
    | returned value => exact hP.pure _
    | next status => exact hP.bind hP.pause fun _ => execAll hmalloc { frame with status } rest

end

/-! ## Functions -/

theorem entering (hmalloc : ∀ size, P (ExceptT.mk (malloc size) : Guarded Word)) (code : Code)
    (argument : Word) : P (Code.enter malloc code argument) := by
  unfold Code.enter
  refine hP.bind hP.checkpoint fun _ => ?_
  cases code with
  | trapping type => exact hP.throw rfl
  | steps body =>
    refine hP.bind (hP.execAll hmalloc ⟨argument, 0⟩ body) fun flow => ?_
    cases flow <;> exact hP.pure _

/-- The allocator of a guest has the property, however many activations may still be opened. -/
theorem allocator (depth : Nat) (size : Word) :
    P (ExceptT.mk (Code.allocator depth size) : Guarded Word) := by
  -- An activation enters the guest with an allocator that may open one activation less.
  induction depth generalizing size with
  | zero =>
    have hstack : Trap.stackOverflow.isLimit = false := rfl
    exact hP.throw hstack
  | succ depth ih =>
    rw [allocator_succ]
    refine hP.bind hP.get fun m => ?_
    cases m.exports? with
    | some exports => exact hP.entering ih exports.malloc size
    | none => exact hP.throw rfl

/-- Every function of a guest has the property. -/
theorem enter (depth : Nat) (code : Code) (argument : Word) :
    P (Code.enter (Code.allocator depth) code argument) :=
  hP.entering (hP.allocator depth) code argument

end Closed

end EventSandbox.Guarded
