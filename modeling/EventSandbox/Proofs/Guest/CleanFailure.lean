import EventSandbox.Proofs.Guest.Evolution
import EventSandbox.Proofs.Session

/-!
# EventSandbox.Proofs.Guest.CleanFailure — a getField that fails has done nothing

A `getField` either calls the guest's allocator or not, and which of the two is settled by the
state in which it begins (`WantsRoom`). If it does not, it changes nothing, and would go the same
way with any allocator (`AllocatorFree`). If it does, then whatever the allocator has done to the
guest, both places for the answer are still in bounds, because memories only grow. So only the
payload can be without room, and it is written first: a failure leaves the state as the allocator
has left it (`delivered_of_performed`).

A failure is a status to the calling function, which goes on (`Step.run_execAll_getField`).
-/

namespace EventSandbox

namespace HostCall

variable {malloc : Allocator} {m : Machine} {a b c d : Word}

/-! ## Before the allocator -/

/-- A `getField` has found what it is asked for, and will ask the allocator for room. -/
def WantsRoom (m : Machine) (keyPtr keyLen outPtr outLen length : Word) : Prop :=
  ∃ key value, Wants m keyPtr keyLen outPtr outLen key value ∧
    Memory.lengthWord? value.toJson.length = some length

/-- A request that does not depend on the allocator, which is therefore not called. -/
def AllocatorFree (m : Machine) (request : HostRequest) : Prop :=
  ∀ malloc malloc' : Allocator, (answer malloc request).run m = (answer malloc' request).run m

theorem allocatorFree_of_perform {request : HostRequest}
    (h : ∀ malloc malloc',
      (perform malloc request).run.run m = (perform malloc' request).run.run m) :
    AllocatorFree m request := by
  intro malloc malloc'
  simp only [answer, Exec.run_bind, Exec.run_get, Exec.run_mark, Run.bind]
  rw [h malloc malloc']

/-- A `getField` that does not come to the point of asking for room does not call the allocator. -/
theorem allocatorFree_getField (h : ∀ length, ¬ WantsRoom m a b c d length) :
    AllocatorFree m (.getField a b c d) := by
  apply allocatorFree_of_perform
  intro malloc malloc'
  simp only [perform, getField, run_resolved_bind, run_get_bind]
  by_cases hx : m.exports?.isSome
  swap
  · rw [if_neg hx, if_neg hx]
  rw [if_pos hx, if_pos hx]
  cases hkey : m.memory.readString a b with
  | error error => rw [run_ofExcept_error rfl, run_ofExcept_error rfl]
  | ok key =>
  rw [run_ofExcept_ok rfl, run_ofExcept_ok rfl]
  cases hevent : m.event? with
  | none => rfl
  | some event =>
  dsimp only
  cases hget : event.get? key with
  | none => rfl
  | some value =>
  dsimp only
  cases hptr : m.memory.check c 4 with
  | error error => rw [run_ofExcept_error rfl, run_ofExcept_error rfl]
  | ok =>
  rw [run_ofExcept_ok rfl, run_ofExcept_ok rfl]
  cases hlen : m.memory.check d 4 with
  | error error => rw [run_ofExcept_error rfl, run_ofExcept_error rfl]
  | ok =>
  rw [run_ofExcept_ok rfl, run_ofExcept_ok rfl]
  -- Everything is there, so it can only be the payload that is too large for any allocator.
  cases hlength : Memory.lengthWord? value.toJson.length with
  | none => simp only [deliver, Except.run_bind, run_place, hlength]
  | some length =>
    have hw : Wants m a b c d key value := ⟨hx, hkey, ⟨event, hevent, hget⟩, hptr, hlen⟩
    exact absurd ⟨key, value, hw, hlength⟩ (h length)

/-- So it is over at once, and nothing has changed. -/
theorem unchanged_of_performed (h : ∀ length, ¬ WantsRoom m a b c d length) {trace : List Label}
    {end? : Option (Except HostCallError Status × Machine)}
    (hperformed : Performed malloc m (.getField a b c d) trace end?) :
    ∃ result, end? = some (result, m) ∧ outcome result ≠ .ok := by
  cases hperformed with
  | getForever hw hlength | getTrapped hw hlength | getUnusable hw hlength
  | getNoPointer hw hlength | getNoLength hw hlength | getDone hw hlength =>
    exact absurd ⟨_, _, hw, hlength⟩ (h _)
  | getMissing => exact ⟨_, rfl, nofun⟩
  | unresolved | getUnreadable | getUnbound | getMisplaced | getTooLarge =>
    exact ⟨_, rfl, outcome_error_ne_ok _⟩

/-! ## From the allocator on -/

section

variable {key key' : String} {value value' : Value} {length : Word} {trace inner : List Label}
  {end? : Option (Except HostCallError Status × Machine)}

theorem Wants.unique (h : Wants m a b c d key value) (h' : Wants m a b c d key' value') :
    key = key' ∧ value = value' := by
  obtain rfl := Except.ok.inj (h.readable.symm.trans h'.readable)
  obtain ⟨event, hevent, hget⟩ := h.found
  obtain ⟨event', hevent', hget'⟩ := h'.found
  obtain rfl := Option.some.inj (hevent.symm.trans hevent')
  exact ⟨rfl, Option.some.inj (hget.symm.trans hget')⟩

theorem Wants.length_unique {length' : Word} (h : Wants m a b c d key value)
    (hlength : Memory.lengthWord? value.toJson.length = some length)
    (h' : Wants m a b c d key' value')
    (hlength' : Memory.lengthWord? value'.toJson.length = some length') : length = length' := by
  obtain ⟨rfl, rfl⟩ := h.unique h'
  exact Option.some.inj (hlength.symm.trans hlength')

/-- What has been checked before the allocator is called still holds when it has ended, whatever it
has done and however it has ended. -/
theorem Wants.places {depth : Nat} {result : Except Trap Word} {left : Machine}
    (h : Wants m a b c d key value)
    (hmalloc : ((Code.allocator depth length).run m).Traced inner (some (result, left))) :
    left.memory.check c 4 = .ok () ∧ left.memory.check d 4 = .ok () := by
  have hlasts := Machine.lasting_grown.rules.allocator depth length m inner _ hmalloc
  have hgrown : m.memory.Grown left.memory := by
    rcases result with trap | address <;> exact hlasts.ends
  exact ⟨hgrown.check h.outPtr, hgrown.check h.outLen⟩

/-- How a `getField` goes on when the allocator has shown `inner` and left a state: there is no room
for the payload, and nothing has been written, or all three writes have been made. -/
inductive Delivered (key : String) (payload : Bytes) (inner : List Label) (left : Machine) :
    List Label → Except HostCallError Status × Machine → Prop
  | noRoom (fault : AllocationFault) :
      Delivered key payload inner left inner (.error (noRoom payload fault), left)
  | done (memory : Memory) :
      Delivered key payload inner left (inner ++ [.record (.fieldRead key payload.length)])
        (.ok .ok, { left with memory })

/-- A `getField` that asks for room waits for the allocator, and ends in one of two ways if the
allocator does. -/
theorem delivered_of_performed {depth : Nat} (hw : Wants m a b c d key value)
    (hlength : Memory.lengthWord? value.toJson.length = some length)
    (h : Performed (Code.allocator depth) m (.getField a b c d) trace end?) :
    (((Code.allocator depth length).run m).Traced trace none ∧ end? = none) ∨
    ∃ inner result left ended,
      ((Code.allocator depth length).run m).Traced inner (some (result, left)) ∧
      Delivered key value.toJson inner left trace ended ∧ end? = some ended := by
  cases h with
  -- The state in which the call begins rules out all ends before the allocator.
  | unresolved _ hnone =>
    have hx := hw.resolved
    rw [hnone] at hx
    cases hx
  | getUnreadable _ hkey => cases hw.readable.symm.trans hkey
  | getUnbound _ _ hevent =>
    obtain ⟨event, hbound, -⟩ := hw.found
    cases hbound.symm.trans hevent
  | getMissing _ hkey hevent hget =>
    obtain rfl := Except.ok.inj (hw.readable.symm.trans hkey)
    obtain ⟨event, hbound, hfound⟩ := hw.found
    obtain rfl := Option.some.inj (hbound.symm.trans hevent)
    cases hfound.symm.trans hget
  | getMisplaced _ _ _ _ hout =>
    rcases hout with hptr | ⟨-, hlen⟩
    · cases hw.outPtr.symm.trans hptr
    · cases hw.outLen.symm.trans hlen
  | getTooLarge hw' hnone =>
    obtain ⟨rfl, rfl⟩ := hw.unique hw'
    cases hlength.symm.trans hnone
  | getForever hw' hlength' hmalloc =>
    obtain rfl := hw.length_unique hlength hw' hlength'
    exact .inl ⟨hmalloc, rfl⟩
  | getTrapped hw' hlength' hmalloc =>
    obtain ⟨rfl, rfl⟩ := hw.unique hw'
    obtain rfl := hw.length_unique hlength hw' hlength'
    exact .inr ⟨_, _, _, _, hmalloc, .noRoom _, rfl⟩
  | getUnusable hw' hlength' hmalloc =>
    obtain ⟨rfl, rfl⟩ := hw.unique hw'
    obtain rfl := hw.length_unique hlength hw' hlength'
    exact .inr ⟨_, _, _, _, hmalloc, .noRoom _, rfl⟩
  -- Where the payload has been written, so are its address and its length.
  | getNoPointer hw' hlength' hmalloc hwrite hptr =>
    have hchecked := (Memory.grown_of_write hwrite).check (hw'.places hmalloc).1
    obtain ⟨pointed, hpointed⟩ := Memory.writeWord_of_check hchecked _
    cases hpointed.symm.trans hptr
  | getNoLength hw' hlength' hmalloc hwrite hptr hlen =>
    have hgrown := (Memory.grown_of_write hwrite).trans (Memory.grown_of_write hptr)
    have hchecked := hgrown.check (hw'.places hmalloc).2
    obtain ⟨done, hdone⟩ := Memory.writeWord_of_check hchecked _
    cases hdone.symm.trans hlen
  | getDone hw' hlength' hmalloc =>
    obtain ⟨rfl, rfl⟩ := hw.unique hw'
    obtain rfl := hw.length_unique hlength hw' hlength'
    exact .inr ⟨_, _, _, _, hmalloc, .done _, rfl⟩

end

/-! ## The caller's view -/

/-- What the caller of a `getField` can rely on when it has ended. -/
structure EndsCleanly (malloc : Allocator) (m : Machine) (a b c d : Word) (trace : List Label)
    (status : Status) (m' : Machine) : Prop where
  /-- A field that is not found, or not asked for properly: the allocator has not been called, and
  nothing has changed. -/
  early (h : status = .notFound ∨ status = .invalidArgument) :
    AllocatorFree m (.getField a b c d) ∧ m' = m
  /-- Any other failure: either that, or the state is the one that the allocator has left. -/
  failed (h : status = .internalFailure) :
    (AllocatorFree m (.getField a b c d) ∧ m' = m) ∨
    ∃ length inner result error, WantsRoom m a b c d length ∧
      ((malloc length).run m).Traced inner (some (result, m')) ∧
      trace = .moment (.began (.getField a b c d) m) ::
        (inner ++ [.record (.failedCall .getField error), .moment (.ended .internalFailure m')])
  /-- Once the allocator has been called there is no third way to end, since the places for the
  answer are in bounds as before. -/
  called {length : Word} (h : WantsRoom m a b c d length) :
    (status = .ok ∨ status = .internalFailure) ∧
    ∃ inner result left, ((malloc length).run m).Traced inner (some (result, left)) ∧
      left.memory.check c 4 = .ok () ∧ left.memory.check d 4 = .ok ()

theorem endsCleanly_of_performed {depth : Nat} {inner : List Label}
    {result : Except HostCallError Status} {m' : Machine}
    (h : Performed (Code.allocator depth) m (.getField a b c d) inner (some (result, m'))) :
    EndsCleanly (Code.allocator depth) m a b c d
      (.moment (.began (.getField a b c d) m) ::
        (inner ++ (report .getField result ++ [.moment (.ended (outcome result) m')])))
      (outcome result) m' := by
  by_cases hroom : ∃ length, WantsRoom m a b c d length
  · -- The allocator has been called, and has ended since the request has.
    obtain ⟨length, key, value, hw, hlength⟩ := hroom
    rcases delivered_of_performed hw hlength h with
      ⟨-, hnone⟩ | ⟨inner', result', left, ended, hmalloc, hdelivered, hended⟩
    · cases hnone
    · obtain rfl := Option.some.inj hended
      obtain ⟨hptr, hlen⟩ := hw.places hmalloc
      have hcalled {length' : Word} (h' : WantsRoom m a b c d length') :
          ∃ inner result left,
            ((Code.allocator depth length').run m).Traced inner (some (result, left)) ∧
            left.memory.check c 4 = .ok () ∧ left.memory.check d 4 = .ok () := by
        obtain ⟨key', value', hw', hlength'⟩ := h'
        obtain rfl := hw.length_unique hlength hw' hlength'
        exact ⟨_, _, _, hmalloc, hptr, hlen⟩
      cases hdelivered with
      | noRoom fault =>
        refine ⟨?_, ?_, fun h' => ⟨.inr rfl, hcalled h'⟩⟩
        · rintro (hstatus | hstatus) <;> cases hstatus
        · intro _
          exact .inr ⟨length, inner, result', _, ⟨key, value, hw, hlength⟩, hmalloc, rfl⟩
      | done memory =>
        refine ⟨?_, ?_, fun h' => ⟨.inl rfl, hcalled h'⟩⟩
        · rintro (hstatus | hstatus) <;> cases hstatus
        · intro hstatus
          cases hstatus
  · have hnone : ∀ length, ¬ WantsRoom m a b c d length := not_exists.1 hroom
    have hfree := allocatorFree_getField hnone
    obtain ⟨result', hended, -⟩ := unchanged_of_performed hnone h
    obtain ⟨rfl, rfl⟩ := Prod.mk.inj (Option.some.inj hended)
    refine ⟨?_, ?_, fun h' => absurd h' (hnone _)⟩
    · intro _
      exact ⟨hfree, rfl⟩
    · intro _
      exact .inl ⟨hfree, rfl⟩

end HostCall

/-! ## The calling function -/

/-- Four operands, evaluated in order. -/
def Expr.evalFour (frame : Frame) (e₁ e₂ e₃ e₄ : Expr) : Pure (Word × Word × Word × Word) := do
  let a ← e₁.eval frame
  let b ← e₂.eval frame
  let c ← e₃.eval frame
  let d ← e₄.eval frame
  pure (a, b, c, d)

open HostCall

/-- However a `getField` has ended, the function that made it goes on. -/
theorem Step.run_execAll_getField {malloc : Allocator} {frame : Frame} {e₁ e₂ e₃ e₄ : Expr}
    {rest : List Step} {before m : Machine} {a b c d : Word}
    (h : (Expr.evalFour frame e₁ e₂ e₃ e₄).run.run
      { before with meter := before.meter.charge Meter.stepCost } = (.ok (a, b, c, d), m)) :
    (Step.execAll malloc frame (.getField e₁ e₂ e₃ e₄ :: rest)).run.run before =
      ((answer malloc (.getField a b c d)).run m).bind fun (w, m') =>
        .pause fun _ => (Step.execAll malloc { frame with status := w } rest).run.run m' := by
  unfold Expr.evalFour at h
  obtain ⟨a', m₁, ha, h⟩ := Pure.run_bind_eq_ok h
  obtain ⟨b', m₂, hb, h⟩ := Pure.run_bind_eq_ok h
  obtain ⟨c', m₃, hc, h⟩ := Pure.run_bind_eq_ok h
  obtain ⟨d', m₄, hd, h⟩ := Pure.run_bind_eq_ok h
  cases h
  -- The call is made from the state that the operands have left, and its status is the step's.
  refine Guarded.run_execAll_cons _ ?_
  unfold Step.exec
  rw [Guarded.run_ofPure_bind ha, Guarded.run_ofPure_bind hb, Guarded.run_ofPure_bind hc,
    Guarded.run_ofPure_bind hd, Guarded.run_called]

/-- A `getField` fails cleanly, whatever the guest's allocator does. What is not found and what is
not asked for properly does not come to the allocator and changes nothing; no other failure changes
what the allocator has left; and no failure stops the calling function. -/
theorem getField_fails_cleanly (depth : Nat) (m : Machine) (a b c d : Word) :
    (∀ trace end?, ((answer (Code.allocator depth) (.getField a b c d)).run m).Traced trace end? →
      (∃ status m', end? = some (status.code.toUInt32, m') ∧
        EndsCleanly (Code.allocator depth) m a b c d trace status m') ∨
      (end? = none ∧ ∃ length inner, WantsRoom m a b c d length ∧
        trace = .moment (.began (.getField a b c d) m) :: inner ∧
        ((Code.allocator depth length).run m).Traced inner none)) ∧
    ∀ frame e₁ e₂ e₃ e₄ rest (before : Machine),
      (Expr.evalFour frame e₁ e₂ e₃ e₄).run.run
        { before with meter := before.meter.charge Meter.stepCost } = (.ok (a, b, c, d), m) →
      (Step.execAll (Code.allocator depth) frame (.getField e₁ e₂ e₃ e₄ :: rest)).run.run before =
        ((answer (Code.allocator depth) (.getField a b c d)).run m).bind fun (w, m') =>
          .pause fun _ =>
            (Step.execAll (Code.allocator depth) { frame with status := w } rest).run.run m' := by
  constructor
  · intro trace end? htrace
    cases answered_of_traced htrace with
    | ended hperformed => exact .inl ⟨_, _, rfl, endsCleanly_of_performed hperformed⟩
    | forever hperformed =>
      right
      -- A call that never ends waits for its allocator, so it had come as far as to ask for room.
      by_cases hroom : ∃ length, WantsRoom m a b c d length
      · obtain ⟨length, key, value, hw, hlength⟩ := hroom
        rcases delivered_of_performed hw hlength hperformed with
          ⟨hmalloc, -⟩ | ⟨_, _, _, _, -, -, hsome⟩
        · exact ⟨rfl, length, _, ⟨key, value, hw, hlength⟩, rfl, hmalloc⟩
        · cases hsome
      · obtain ⟨result, hsome, -⟩ := unchanged_of_performed (not_exists.1 hroom) hperformed
        cases hsome
  · intro frame e₁ e₂ e₃ e₄ rest before h
    exact Step.run_execAll_getField h

/-- A guest whose allocator writes into the memory, then gives an address with too little room. -/
def cramped : Machine :=
  (Session.small
    { malloc := .steps [.store32 (.const 40) (.const 7), .ret (.const 65535)]
      process := .steps [] } none).begin [("", .bool true)] ⟨none, none⟩

theorem getField_fails_cleanly_cramped :
    ∃ trace m', ((answer (Code.allocator 1) (.getField 0 0 8 12)).run cramped).Traced trace
        (some (Status.internalFailure.code.toUInt32, m')) ∧
      m'.memory.word 40 = 7 ∧ m'.memory.word 8 = 0 ∧
      EndsCleanly (Code.allocator 1) cramped 0 0 8 12 trace .internalFailure m' ∧
      ∀ rest, (Step.execAll (Code.allocator 1) ⟨0, 0⟩
          (.getField (.const 0) (.const 0) (.const 8) (.const 12) :: rest)).run.run cramped =
        ((answer (Code.allocator 1) (.getField 0 0 8 12)).run cramped).bind fun (w, m') =>
          .pause fun _ => (Step.execAll (Code.allocator 1) ⟨0, w⟩ rest).run.run m' := by
  have hrun : (((answer (Code.allocator 1) (.getField 0 0 8 12)).run cramped).watch 0).2.map
      (fun (w, m') => (w, m'.memory.word 40, m'.memory.word 8)) =
        some (Status.internalFailure.code.toUInt32, 7, 0) := by
    decide +kernel
  obtain ⟨⟨w, m'⟩, hended, hafter⟩ := Option.map_eq_some_iff.1 hrun
  obtain ⟨rfl, hstored, hnothing⟩ : w = Status.internalFailure.code.toUInt32 ∧
      m'.memory.word 40 = 7 ∧ m'.memory.word 8 = 0 := by
    simpa only [Prod.mk.injEq] using hafter
  obtain ⟨trace, htrace⟩ := Run.exists_traced_of_watch hended
  obtain ⟨hends, hgoesOn⟩ := getField_fails_cleanly 1 cramped 0 0 8 12
  have hclean : EndsCleanly (Code.allocator 1) cramped 0 0 8 12 trace .internalFailure m' := by
    rcases hends _ _ htrace with ⟨status, last, hsome, hclean⟩ | ⟨hnone, -⟩
    · obtain ⟨hword, rfl⟩ := Prod.mk.inj (Option.some.inj hsome)
      rw [eq_of_word hword]
      exact hclean
    · cases hnone
  refine ⟨trace, m', htrace, hstored, hnothing, hclean, ?_⟩
  intro rest
  exact hgoesOn ⟨0, 0⟩ _ _ _ _ rest cramped rfl

end EventSandbox
