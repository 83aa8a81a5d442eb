import EventSandbox.Guest.Exec
import EventSandbox.Proofs.Memory.Bytes

/-!
# EventSandbox.Proofs.Guest.OwnStep — what a guest can do without its host

Expressions and stores change what the instance of a guest holds and nothing else: neither the event
nor the exports nor the meter. They may trap, but no limit is ever reached in them.
-/

namespace EventSandbox

/-- The trap of a limit, as opposed to a fault of the guest. -/
def Trap.isLimit : Trap → Bool
  | .outOfFuel | .interrupted => true
  | _ => false

/-- A state that a guest can bring about by itself. Its memory may have grown. -/
structure Machine.OwnStep (m m' : Machine) : Prop where
  event : m'.event? = m.event?
  exports : m'.exports? = m.exports?
  meter : m'.meter = m.meter
  maxPages : m'.memory.maxPages = m.memory.maxPages
  pageCount : m.memory.pageCount ≤ m'.memory.pageCount

namespace Machine.OwnStep

variable {m m' m'' : Machine}

theorem refl (m : Machine) : OwnStep m m := ⟨rfl, rfl, rfl, rfl, Nat.le_refl _⟩

theorem trans (h : OwnStep m m') (h' : OwnStep m' m'') : OwnStep m m'' :=
  ⟨h'.event.trans h.event, h'.exports.trans h.exports, h'.meter.trans h.meter,
    h'.maxPages.trans h.maxPages, Nat.le_trans h.pageCount h'.pageCount⟩

theorem ofMemory {memory : Memory} (hmax : memory.maxPages = m.memory.maxPages)
    (hcount : m.memory.pageCount ≤ memory.pageCount) : OwnStep m { m with memory } :=
  ⟨rfl, rfl, rfl, hmax, hcount⟩

end Machine.OwnStep

namespace Pure

variable {α β : Type}

/-- A computation that stays inside the guest. -/
def Own (p : Pure α) : Prop :=
  ∀ m, m.OwnStep (p.run.run m).2 ∧ ∀ trap, (p.run.run m).1 = .error trap → trap.isLimit = false

theorem own_pure (a : α) : Own (pure a : Pure α) :=
  fun m => ⟨.refl m, fun _ h => by cases h⟩

theorem own_get : Own (get : Pure Machine) :=
  fun m => ⟨.refl m, fun _ h => by cases h⟩

theorem run_bind (p : Pure α) (f : α → Pure β) (m : Machine) :
    (p >>= f).run.run m =
      match p.run.run m with
      | (.ok a, m') => (f a).run.run m'
      | (.error trap, m') => (.error trap, m') := by
  simp only [ExceptT.run_bind, StateT.run_bind]
  rcases p.run.run m with ⟨_ | _, _⟩ <;> rfl

/-- A sequence that goes well has gone well in its first part. -/
theorem run_bind_eq_ok {p : Pure α} {f : α → Pure β} {b : β} {m m' : Machine}
    (h : (p >>= f).run.run m = (.ok b, m')) :
    ∃ a m₁, p.run.run m = (.ok a, m₁) ∧ (f a).run.run m₁ = (.ok b, m') := by
  rw [run_bind] at h
  rcases hp : p.run.run m with ⟨trap | a, m₁⟩
  · rw [hp] at h
    cases h
  · rw [hp] at h
    exact ⟨a, m₁, rfl, h⟩

theorem run_get_bind (f : Machine → Pure β) (m : Machine) :
    ((get : Pure Machine) >>= f).run.run m = (f m).run.run m := rfl

theorem own_bind {p : Pure α} {f : α → Pure β} (hp : Own p) (hf : ∀ a, Own (f a)) :
    Own (p >>= f) := by
  intro m
  have hfirst := hp m
  rw [run_bind]
  rcases h : p.run.run m with ⟨trap | a, m'⟩
  · rw [h] at hfirst
    refine ⟨hfirst.1, ?_⟩
    rintro _ ⟨⟩
    exact hfirst.2 trap rfl
  · rw [h] at hfirst
    exact ⟨hfirst.1.trans (hf a m').1, (hf a m').2⟩

/-- What `Own` says of a computation, said of one state in which it may begin. -/
def OwnAt (p : Pure α) (m : Machine) : Prop :=
  m.OwnStep (p.run.run m).2 ∧ ∀ trap, (p.run.run m).1 = .error trap → trap.isLimit = false

/-- What is done with a state has to be looked at in that state only. -/
theorem own_of_get {f : Machine → Pure α} (h : ∀ m, OwnAt (f m) m) : Own (get >>= f) := h

variable {m m' : Machine}

theorem ownAt_pure (a : α) (m : Machine) : OwnAt (pure a) m := own_pure a m

theorem ownAt_throw {trap : Trap} (h : trap.isLimit = false) (m : Machine) :
    OwnAt (throw trap : Pure α) m := by
  refine ⟨.refl m, ?_⟩
  rintro _ ⟨⟩
  exact h

/-- The state is left for another, and nothing is done after that but to answer. -/
theorem ownAt_set (h : m.OwnStep m') (a : α) : OwnAt (do set m'; pure a) m :=
  ⟨h, fun _ h => by cases h⟩

end Pure

/-! ## What an instance holds -/

open EventSandbox.Pure

namespace Machine

theorem own_load (count : Nat) (address : Word) : Own (load count address) := by
  apply own_of_get
  intro m
  split_ifs
  · exact ownAt_pure _ m
  · exact ownAt_throw rfl m

/-- The memory is written to behind a check. -/
theorem own_write {inside : Machine → Prop} [DecidablePred inside] {written : Machine → Memory}
    (hmax : ∀ m, (written m).maxPages = m.memory.maxPages)
    (hcount : ∀ m, m.memory.pageCount ≤ (written m).pageCount) :
    Own (do
      let m ← get
      if inside m then set { m with memory := written m } else throw .memoryOutOfBounds) := by
  apply own_of_get
  intro m
  split_ifs
  · exact ownAt_set (.ofMemory (hmax m) (hcount m)) ()
  · exact ownAt_throw rfl m

theorem own_store (count : Nat) (address value : Word) : Own (store count address value) :=
  own_write (by simp) (by simp)

theorem own_fill (target byte length : Word) : Own (fill target byte length) :=
  own_write (by simp) (by simp)

theorem own_copy (target source length : Word) : Own (copy target source length) :=
  own_write (by simp) (by simp)

theorem own_initMemory (segment : Nat) (target source length : Word) :
    Own (initMemory segment target source length) := by
  apply own_of_get
  intro m
  rcases part? (m.holdings.data.getD segment []) source length with _ | bytes
  · exact ownAt_throw rfl m
  · dsimp only
    split_ifs
    · exact ownAt_set (.ofMemory (by simp) (by simp)) ()
    · exact ownAt_throw rfl m

/-- What else the instance holds may change. -/
theorem OwnStep.ofHoldings (m : Machine) (holdings : Holdings) : OwnStep m { m with holdings } :=
  ⟨rfl, rfl, rfl, rfl, Nat.le_refl _⟩

theorem own_dropData (segment : Nat) : Own (dropData segment) :=
  fun m => ⟨.ofHoldings m _, fun _ h => by cases h⟩

theorem own_dropElements (segment : Nat) : Own (dropElements segment) :=
  fun m => ⟨.ofHoldings m _, fun _ h => by cases h⟩

theorem own_setTable (target : Word) (items? : Option (List (Option Nat))) :
    Own (setTable target items?) := by
  apply own_of_get
  intro m
  rcases items? with _ | items
  · exact ownAt_throw rfl m
  · dsimp only
    split_ifs
    · exact ownAt_set (.ofHoldings m _) ()
    · exact ownAt_throw rfl m

theorem own_initTable (segment : Nat) (target source length : Word) :
    Own (initTable segment target source length) :=
  own_bind own_get fun _ => own_setTable target _

theorem own_copyTable (target source length : Word) : Own (copyTable target source length) :=
  own_bind own_get fun _ => own_setTable target _

theorem own_grow (pages : Word) : Own (grow pages) := by
  apply own_of_get
  intro m
  cases h : m.memory.grow? pages.toNat with
  | none => exact ownAt_pure _ m
  | some memory =>
    obtain ⟨hcount, hmax⟩ := Memory.pageCount_of_grow? h
    exact ownAt_set (.ofMemory hmax (by omega)) _

theorem own_setGlobal (i : Fin 4) (value : Word) : Own (setGlobal i value) := by
  intro m
  exact ⟨⟨rfl, rfl, rfl, rfl, Nat.le_refl _⟩, fun _ h => by cases h⟩

end Machine

/-! ## Expressions -/

theorem BinaryOp.own_eval (op : BinaryOp) (a b : Word) : Own (op.eval a b : Pure Word) := by
  intro m
  cases h : op.eval a b with
  | ok w => exact ownAt_pure w m
  | error trap =>
    refine ownAt_throw ?_ m
    -- Only division and remainder trap.
    cases op <;> simp only [BinaryOp.eval, reduceCtorEq] at h
    all_goals
      repeat' split at h
      all_goals cases h <;> rfl

theorem Expr.own_eval (frame : Frame) (e : Expr) : Own (e.eval frame) := by
  induction e with
  | const | status | argument => exact own_pure _
  | memorySize | global => exact own_bind own_get fun _ => own_pure _
  | grow pages ih => exact own_bind ih Machine.own_grow
  | load32 address ih => exact own_bind ih (Machine.own_load 4)
  | load8 address ih => exact own_bind ih (Machine.own_load 1)
  | binary op a b iha ihb => exact own_bind iha fun x => own_bind ihb fun y => op.own_eval x y

end EventSandbox
