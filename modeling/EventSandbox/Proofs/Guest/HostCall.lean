import EventSandbox.Proofs.Guest.Trace

/-!
# EventSandbox.Proofs.Guest.HostCall — all that a host call can do

`Performed malloc m request trace end?` lists the ways in which a request can go, each with what has
to hold for it, what it shows and how it ends. `performed_of_traced` says that there are no others,
and everything that is proved of host calls is proved from this list.

A call to the allocator stands for whatever the guest does in it: its trace is part of the trace of
the request, and the state that it leaves is the one in which the request goes on.
-/

namespace EventSandbox

variable {α ε : Type}

/-! ## Elementary computations -/

section Elementary

variable (m : Machine)

@[simp] theorem Except.run_pure (a : α) :
    (pure a : ExceptT ε (StateT Machine Run) α).run.run m = .done (.ok a, m) := rfl

@[simp] theorem Except.run_throw (e : ε) :
    (throw e : ExceptT ε (StateT Machine Run) α).run.run m = .done (.error e, m) := rfl

@[simp] theorem Except.run_get :
    (get : ExceptT ε (StateT Machine Run) Machine).run.run m = .done (.ok m, m) := rfl

@[simp] theorem Except.run_lift (c : Exec α) :
    (ExceptT.lift c : ExceptT ε (StateT Machine Run) α).run.run m =
      (c.run m).bind fun (a, m) => .done (.ok a, m) := rfl

@[simp] theorem Exec.run_pure (a : α) : (pure a : Exec α).run m = .done (a, m) := rfl

@[simp] theorem Exec.run_get : (get : Exec Machine).run m = .done (m, m) := rfl

@[simp] theorem Exec.run_record (entry : LogRecord) :
    (Exec.record entry).run m = .emit entry fun _ => .done ((), m) := rfl

@[simp] theorem Exec.run_mark (what : Moment) :
    (Exec.mark what).run m = .mark what fun _ => .done ((), m) := rfl

end Elementary

namespace HostCall

/-! ## The ways of a request -/

/-- A guest asks for a field that its event has, and both places for the answer are in bounds. -/
structure Wants (m : Machine) (keyPtr keyLen outPtr outLen : Word) (key : String) (value : Value) :
    Prop where
  resolved : m.exports?.isSome
  readable : m.memory.readString keyPtr keyLen = .ok key
  found : ∃ event, m.event? = some event ∧ event.get? key = some value
  outPtr : m.memory.check outPtr 4 = .ok ()
  outLen : m.memory.check outLen 4 = .ok ()

/-- The error of a payload that found no room. -/
def noRoom (payload : Bytes) (fault : AllocationFault) : HostCallError :=
  .allocation payload.length fault.message

/-- The ways in which a request can go from a state. -/
inductive Performed (malloc : Allocator) (m : Machine) :
    HostRequest → List Label → Option (Except HostCallError Status × Machine) → Prop
  /-- Whatever is wrong before the allocator is reached has no effect. -/
  | unresolved {request} (hlog : request.function ≠ .log) (hx : m.exports? = none) :
      Performed malloc m request [] (some (.error .exportsUnavailable, m))
  | getUnreadable {a b c d error} (hx : m.exports?.isSome)
      (hkey : m.memory.readString a b = .error error) :
      Performed malloc m (.getField a b c d) [] (some (.error error, m))
  | getUnbound {a b c d key} (hx : m.exports?.isSome) (hkey : m.memory.readString a b = .ok key)
      (hevent : m.event? = none) :
      Performed malloc m (.getField a b c d) [] (some (.error .noEventBound, m))
  | getMissing {a b c d key event} (hx : m.exports?.isSome)
      (hkey : m.memory.readString a b = .ok key) (hevent : m.event? = some event)
      (hget : event.get? key = none) :
      Performed malloc m (.getField a b c d) [.record (.fieldMissing key)] (some (.ok .notFound, m))
  | getMisplaced {a b c d key event value error} (hx : m.exports?.isSome)
      (hkey : m.memory.readString a b = .ok key) (hevent : m.event? = some event)
      (hget : event.get? key = some value)
      (hout : m.memory.check c 4 = .error error ∨
        m.memory.check c 4 = .ok () ∧ m.memory.check d 4 = .error error) :
      Performed malloc m (.getField a b c d) [] (some (.error error, m))
  | getTooLarge {a b c d key value} (hw : Wants m a b c d key value)
      (hlength : Memory.lengthWord? value.toJson.length = none) :
      Performed malloc m (.getField a b c d) [] (some (.error (noRoom value.toJson .tooLarge), m))
  /-- From here on the allocator has been called. -/
  | getForever {a b c d key value length trace} (hw : Wants m a b c d key value)
      (hlength : Memory.lengthWord? value.toJson.length = some length)
      (hmalloc : ((malloc length).run m).Traced trace none) :
      Performed malloc m (.getField a b c d) trace none
  | getTrapped {a b c d key value length trace trap m'} (hw : Wants m a b c d key value)
      (hlength : Memory.lengthWord? value.toJson.length = some length)
      (hmalloc : ((malloc length).run m).Traced trace (some (.error trap, m'))) :
      Performed malloc m (.getField a b c d) trace
        (some (.error (noRoom value.toJson (.trapped trap)), m'))
  | getUnusable {a b c d key value length trace address m' error}
      (hw : Wants m a b c d key value)
      (hlength : Memory.lengthWord? value.toJson.length = some length)
      (hmalloc : ((malloc length).run m).Traced trace (some (.ok address, m')))
      (hwrite : m'.memory.write address value.toJson = .error error) :
      Performed malloc m (.getField a b c d) trace
        (some (.error (noRoom value.toJson (.unusable address)), m'))
  | getNoPointer {a b c d key value length trace address m' placed error}
      (hw : Wants m a b c d key value)
      (hlength : Memory.lengthWord? value.toJson.length = some length)
      (hmalloc : ((malloc length).run m).Traced trace (some (.ok address, m')))
      (hwrite : m'.memory.write address value.toJson = .ok placed)
      (hptr : placed.writeWord c address = .error error) :
      Performed malloc m (.getField a b c d) trace
        (some (.error error, { m' with memory := placed }))
  | getNoLength {a b c d key value length trace address m' placed pointed error}
      (hw : Wants m a b c d key value)
      (hlength : Memory.lengthWord? value.toJson.length = some length)
      (hmalloc : ((malloc length).run m).Traced trace (some (.ok address, m')))
      (hwrite : m'.memory.write address value.toJson = .ok placed)
      (hptr : placed.writeWord c address = .ok pointed)
      (hlen : pointed.writeWord d length = .error error) :
      Performed malloc m (.getField a b c d) trace
        (some (.error error, { m' with memory := pointed }))
  | getDone {a b c d key value length trace address m' placed pointed done}
      (hw : Wants m a b c d key value)
      (hlength : Memory.lengthWord? value.toJson.length = some length)
      (hmalloc : ((malloc length).run m).Traced trace (some (.ok address, m')))
      (hwrite : m'.memory.write address value.toJson = .ok placed)
      (hptr : placed.writeWord c address = .ok pointed)
      (hlen : pointed.writeWord d length = .ok done) :
      Performed malloc m (.getField a b c d)
        (trace ++ [.record (.fieldRead key value.toJson.length)])
        (some (.ok .ok, { m' with memory := done }))
  | putUnreadable {a b c d error} (hx : m.exports?.isSome)
      (hkey : m.memory.readString a b = .error error ∨
        ∃ key, m.memory.readString a b = .ok key ∧ m.memory.read c d = .error error) :
      Performed malloc m (.putField a b c d) [] (some (.error error, m))
  | putUndecodable {a b c d key bytes fault} (hx : m.exports?.isSome)
      (hkey : m.memory.readString a b = .ok key) (hbytes : m.memory.read c d = .ok bytes)
      (hvalue : Value.ofJson bytes = .error fault) :
      Performed malloc m (.putField a b c d) [] (some (.error (.deserialization fault), m))
  | putUnbound {a b c d key bytes value} (hx : m.exports?.isSome)
      (hkey : m.memory.readString a b = .ok key) (hbytes : m.memory.read c d = .ok bytes)
      (hvalue : Value.ofJson bytes = .ok value) (hevent : m.event? = none) :
      Performed malloc m (.putField a b c d) [] (some (.error .noEventBound, m))
  | putDone {a b c d key bytes value event} (hx : m.exports?.isSome)
      (hkey : m.memory.readString a b = .ok key) (hbytes : m.memory.read c d = .ok bytes)
      (hvalue : Value.ofJson bytes = .ok value) (hevent : m.event? = some event) :
      Performed malloc m (.putField a b c d) [.record (.fieldWritten key)]
        (some (.ok .ok, { m with event? := some (event.insert key value) }))
  | log {a b c} :
      Performed malloc m (.log a b c) [.record (logRecord m a b c)] (some (.ok .ok, m))
  | timeMisplaced {a time error} (hx : m.exports?.isSome)
      (hwrite : m.memory.writeInt64 a time = .error error) :
      Performed malloc m (.currentTime a) [] (some (.error error, m))
  | timeDone {a time memory} (hx : m.exports?.isSome)
      (hwrite : m.memory.writeInt64 a time = .ok memory) :
      Performed malloc m (.currentTime a) [] (some (.ok .ok, { m with memory }))

/-! ## There are no others -/

theorem run_resolved (m : Machine) :
    resolved.run.run m =
      if m.exports?.isSome then .done (.ok (), m) else .done (.error .exportsUnavailable, m) := by
  simp only [resolved, Except.run_bind, Except.run_get, Run.bind, Except.resume_ok]
  cases m.exports? <;> rfl

/-- A computation that begins by looking whether the exports are known. -/
theorem run_resolved_bind (c : Unit → HostCall α) (m : Machine) :
    (resolved >>= c).run.run m =
      if m.exports?.isSome then (c ()).run.run m else .done (.error .exportsUnavailable, m) := by
  rw [Except.run_bind, run_resolved]
  split <;> rfl

theorem run_get_bind (c : Machine → HostCall α) (m : Machine) :
    (get >>= c).run.run m = (c m).run.run m := by
  rfl

theorem run_set_bind (m' : Machine) (c : Unit → HostCall α) (m : Machine) :
    (set m' >>= c).run.run m = (c ()).run.run m' := by
  rfl

theorem run_record_bind (entry : LogRecord) (c : Unit → HostCall α) (m : Machine) :
    (ExceptT.lift (Exec.record entry) >>= c).run.run m =
      .emit entry fun _ => (c ()).run.run m := by
  rfl

theorem run_readClock_bind (c : Int64 → HostCall α) (m : Machine) :
    (ExceptT.lift (StateT.lift (Run.readClock pure)) >>= c).run.run m =
      .readClock fun time => (c time).run.run m := by
  rfl

section Outcomes

variable {β : Type} {r : Except HostCallError β} {m : Machine} {trace : List Label}
  {end? : Option (Except HostCallError α × Machine)}

theorem run_ofExcept_ok {b : β} (h : r = .ok b) (c : β → HostCall α) :
    (ofExcept r >>= c).run.run m = (c b).run.run m := by
  subst h
  rfl

theorem run_ofExcept_error {error : HostCallError} (h : r = .error error) (c : β → HostCall α) :
    (ofExcept r >>= c).run.run m = .done (.error error, m) := by
  subst h
  rfl

/-- A result that is looked at ends a computation if it is an error, and else is handed on. -/
theorem traced_ofExcept {f : β → HostCall α}
    (h : ((ofExcept r >>= f).run.run m).Traced trace end?) :
    (∃ error, r = .error error ∧ trace = [] ∧ end? = some (.error error, m)) ∨
      ∃ b, r = .ok b ∧ ((f b).run.run m).Traced trace end? := by
  cases r with
  | error error =>
    rw [run_ofExcept_error rfl] at h
    obtain ⟨rfl, rfl⟩ := Run.traced_done.1 h
    exact .inl ⟨error, rfl, rfl, rfl⟩
  | ok b =>
    rw [run_ofExcept_ok rfl] at h
    exact .inr ⟨b, rfl, h⟩

theorem traced_putWord {address word : Word} {f : Unit → HostCall α}
    (h : ((putWord address word >>= f).run.run m).Traced trace end?) :
    (∃ error, m.memory.writeWord address word = .error error ∧
        trace = [] ∧ end? = some (.error error, m)) ∨
      ∃ memory, m.memory.writeWord address word = .ok memory ∧
        ((f ()).run.run { m with memory }).Traced trace end? := by
  simp only [putWord, bind_assoc, run_get_bind] at h
  exact traced_ofExcept h

end Outcomes

theorem run_place (malloc : Allocator) (payload : Bytes) (m : Machine) :
    (place malloc payload).run.run m =
      match Memory.lengthWord? payload.length with
      | none => .done (.error (noRoom payload .tooLarge), m)
      | some length => ((malloc length).run m).bind fun
        | (.error trap, m) => .done (.error (noRoom payload (.trapped trap)), m)
        | (.ok address, m) =>
          match m.memory.write address payload with
          | .error _ => .done (.error (noRoom payload (.unusable address)), m)
          | .ok memory => .done (.ok (address, length), { m with memory }) := by
  simp only [place]
  -- Only a length that is a word can be asked for.
  cases Memory.lengthWord? payload.length with
  | none => rfl
  | some length =>
    simp only [Except.run_bind, Except.run_lift, Run.bind_assoc, Run.bind]
    congr 1
    funext p
    rcases p with ⟨trap | address, m⟩
    · rfl
    · simp only [Except.resume_ok, run_get_bind]
      cases m.memory.write address payload <;> rfl

section Requests

variable {malloc : Allocator} {m : Machine} {a b c d : Word} {trace : List Label}
  {end? : Option (Except HostCallError Status × Machine)}

/-- All requests but `log` look first whether the exports are known. -/
theorem performed_of_resolved {request : HostRequest} (hlog : request.function ≠ .log)
    {f : Unit → HostCall Status} (h : ((resolved >>= f).run.run m).Traced trace end?)
    (hf : m.exports?.isSome → ((f ()).run.run m).Traced trace end? →
      Performed malloc m request trace end?) : Performed malloc m request trace end? := by
  rw [run_resolved_bind] at h
  cases hx : m.exports?.isSome with
  | false =>
    rw [if_neg (by simp [hx])] at h
    obtain ⟨rfl, rfl⟩ := Run.traced_done.1 h
    exact .unresolved hlog (by simpa using hx)
  | true =>
    rw [if_pos hx] at h
    exact hf hx h

/-- From the return of the allocator on: it has left `m'`, and each of the three writes may still
fail. -/
theorem performed_write {key : String} {value : Value} {length address : Word} {m' : Machine}
    {rest : List Label} (hw : Wants m a b c d key value)
    (hlength : Memory.lengthWord? value.toJson.length = some length)
    (hmalloc : ((malloc length).run m).Traced trace (some (.ok address, m'))) {placed : Memory}
    (hwrite : m'.memory.write address value.toJson = .ok placed)
    (h : ((do
      putWord c address
      putWord d length
      ExceptT.lift (Exec.record (.fieldRead key value.toJson.length))
      pure .ok : HostCall Status).run.run { m' with memory := placed }).Traced rest end?) :
    Performed malloc m (.getField a b c d) (trace ++ rest) end? := by
  rcases traced_putWord h with ⟨error, hptr, rfl, rfl⟩ | ⟨pointed, hptr, h⟩
  · rw [List.append_nil]
    exact .getNoPointer hw hlength hmalloc hwrite hptr
  rcases traced_putWord h with ⟨error, hlen, rfl, rfl⟩ | ⟨done, hlen, h⟩
  · rw [List.append_nil]
    exact (Performed.getNoLength hw hlength hmalloc hwrite hptr hlen :)
  · simp only [run_record_bind, Except.run_pure, Run.traced_emit, Run.traced_done] at h
    obtain ⟨_, rfl, rfl, rfl⟩ := h
    exact (Performed.getDone hw hlength hmalloc hwrite hptr hlen :)

/-- From the call of the allocator on. -/
theorem performed_deliver {key : String} {value : Value} (hw : Wants m a b c d key value)
    (h : ((do
      deliver malloc value.toJson c d
      ExceptT.lift (Exec.record (.fieldRead key value.toJson.length))
      pure .ok : HostCall Status).run.run m).Traced trace end?) :
    Performed malloc m (.getField a b c d) trace end? := by
  simp only [deliver, bind_assoc] at h
  rw [Except.run_bind, run_place] at h
  -- One way for each thing that can fail, in the order in which it is done.
  cases hlength : Memory.lengthWord? value.toJson.length with
  | none =>
    simp only [hlength, Run.bind, Except.resume_error, Run.traced_done] at h
    obtain ⟨rfl, rfl⟩ := h
    exact .getTooLarge hw hlength
  | some length =>
  simp only [hlength, Run.bind_assoc] at h
  rcases Run.traced_bind.1 h with
    ⟨⟨trap | address, m'⟩, first, rest, hmalloc, hrest, rfl⟩ | ⟨hforever, rfl⟩
  · obtain ⟨rfl, rfl⟩ := Run.traced_done.1 hrest
    rw [List.append_nil]
    exact .getTrapped hw hlength hmalloc
  · dsimp only at hrest
    cases hwrite : m'.memory.write address value.toJson with
    | error error =>
      simp only [hwrite, Run.bind, Except.resume_error, Run.traced_done] at hrest
      obtain ⟨rfl, rfl⟩ := hrest
      rw [List.append_nil]
      exact .getUnusable hw hlength hmalloc hwrite
    | ok placed =>
      simp only [hwrite, Run.bind, Except.resume_ok] at hrest
      exact performed_write hw hlength hmalloc hwrite hrest
  · exact .getForever hw hlength hforever

theorem performed_getField (h : ((getField malloc a b c d).run.run m).Traced trace end?) :
    Performed malloc m (.getField a b c d) trace end? := by
  refine performed_of_resolved nofun h fun hx h => ?_
  rw [run_get_bind] at h
  rcases traced_ofExcept h with ⟨error, hkey, rfl, rfl⟩ | ⟨key, hkey, h⟩
  · exact .getUnreadable hx hkey
  cases hevent : m.event? with
  | none =>
    simp only [hevent, Except.run_throw, Run.traced_done] at h
    obtain ⟨rfl, rfl⟩ := h
    exact .getUnbound hx hkey hevent
  | some event =>
  simp only [hevent] at h
  cases hget : event.get? key with
  | none =>
    simp only [hget, run_record_bind, Except.run_pure, Run.traced_emit, Run.traced_done] at h
    obtain ⟨_, rfl, rfl, rfl⟩ := h
    exact .getMissing hx hkey hevent hget
  | some value =>
  simp only [hget] at h
  -- The field is there. Both places are looked at before the allocator is called.
  rcases traced_ofExcept h with ⟨error, hptr, rfl, rfl⟩ | ⟨_, hptr, h⟩
  · exact .getMisplaced hx hkey hevent hget (.inl hptr)
  rcases traced_ofExcept h with ⟨error, hlen, rfl, rfl⟩ | ⟨_, hlen, h⟩
  · exact .getMisplaced hx hkey hevent hget (.inr ⟨hptr, hlen⟩)
  exact performed_deliver ⟨hx, hkey, ⟨event, hevent, hget⟩, hptr, hlen⟩ h

theorem performed_putField (h : ((putField a b c d).run.run m).Traced trace end?) :
    Performed malloc m (.putField a b c d) trace end? := by
  refine performed_of_resolved nofun h fun hx h => ?_
  rw [run_get_bind] at h
  -- The key is read before the value, and the value is decoded before the event is looked at.
  rcases traced_ofExcept h with ⟨error, hkey, rfl, rfl⟩ | ⟨key, hkey, h⟩
  · exact .putUnreadable hx (.inl hkey)
  rcases traced_ofExcept h with ⟨error, hbytes, rfl, rfl⟩ | ⟨bytes, hbytes, h⟩
  · exact .putUnreadable hx (.inr ⟨key, hkey, hbytes⟩)
  cases hvalue : Value.ofJson bytes with
  | error fault =>
    simp only [hvalue, Except.run_throw, Run.traced_done] at h
    obtain ⟨rfl, rfl⟩ := h
    exact .putUndecodable hx hkey hbytes hvalue
  | ok value =>
  simp only [hvalue] at h
  cases hevent : m.event? with
  | none =>
    simp only [hevent, Except.run_throw, Run.traced_done] at h
    obtain ⟨rfl, rfl⟩ := h
    exact .putUnbound hx hkey hbytes hvalue hevent
  | some event =>
    simp only [hevent, run_set_bind, run_record_bind, Except.run_pure, Run.traced_emit,
      Run.traced_done] at h
    obtain ⟨_, rfl, rfl, rfl⟩ := h
    exact .putDone hx hkey hbytes hvalue hevent

theorem performed_currentTime (h : ((currentTime a).run.run m).Traced trace end?) :
    Performed malloc m (.currentTime a) trace end? := by
  refine performed_of_resolved nofun h fun hx h => ?_
  rw [run_readClock_bind] at h
  obtain ⟨time, h⟩ := Run.traced_readClock.1 h
  rw [run_get_bind] at h
  rcases traced_ofExcept h with ⟨error, hwrite, rfl, rfl⟩ | ⟨memory, hwrite, h⟩
  · exact .timeMisplaced hx hwrite
  · rw [run_set_bind, Except.run_pure] at h
    obtain ⟨rfl, rfl⟩ := Run.traced_done.1 h
    exact .timeDone hx hwrite

end Requests

/-- There are no other ways in which a request can go. -/
theorem performed_of_traced {malloc : Allocator} {m : Machine} {request : HostRequest}
    {trace : List Label} {end? : Option (Except HostCallError Status × Machine)}
    (h : ((perform malloc request).run.run m).Traced trace end?) :
    Performed malloc m request trace end? := by
  cases request with
  | getField => exact performed_getField h
  | putField => exact performed_putField h
  | currentTime => exact performed_currentTime h
  | log level text length =>
    simp only [perform, HostCall.log, Except.run_lift, Exec.run_bind, Exec.run_get, Exec.run_record,
      Exec.run_pure, Run.bind, Run.traced_emit, Run.traced_done] at h
    obtain ⟨_, rfl, rfl, rfl⟩ := h
    exact .log

/-! ## Answers -/

theorem status_ne_ok (error : HostCallError) : error.status ≠ .ok := by
  cases error <;> exact nofun

/-- The status with which a call ends. -/
def outcome : Except HostCallError Status → Status
  | .ok status => status
  | .error error => error.status

theorem outcome_error_ne_ok (error : HostCallError) : outcome (.error error) ≠ .ok :=
  status_ne_ok error

/-- The word that a guest goes on with tells its status. -/
theorem eq_of_word {s t : Status} (h : s.code.toUInt32 = t.code.toUInt32) : s = t :=
  Status.code_injective (congrArg UInt32.toInt32 h)

/-- What the log says at the end of a call. -/
def report (function : HostFunction) : Except HostCallError Status → List Label
  | .ok _ => []
  | .error error => [.record (.failedCall function error)]

/-- A call that has been answered. It shows its beginning, what it did, its failure if it failed,
and its end; one that waits for the allocator for ever shows no end. -/
inductive Answered (malloc : Allocator) (m : Machine) (request : HostRequest) :
    List Label → Option (Word × Machine) → Prop
  | forever {trace} (h : Performed malloc m request trace none) :
      Answered malloc m request (.moment (.began request m) :: trace) none
  | ended {trace result m'} (h : Performed malloc m request trace (some (result, m'))) :
      Answered malloc m request
        (.moment (.began request m) ::
          (trace ++ (report request.function result ++ [.moment (.ended (outcome result) m')])))
        (some ((outcome result).code.toUInt32, m'))

theorem answered_of_traced {malloc : Allocator} {m : Machine} {request : HostRequest}
    {trace : List Label} {end? : Option (Word × Machine)}
    (h : ((answer malloc request).run m).Traced trace end?) :
    Answered malloc m request trace end? := by
  simp only [answer, Exec.run_bind, Exec.run_get, Exec.run_mark, Run.bind, Run.traced_mark] at h
  obtain ⟨trace, rfl, h⟩ := h
  rcases Run.traced_bind.1 h with ⟨⟨result, m'⟩, first, rest, hfirst, hrest, rfl⟩ | ⟨hn, rfl⟩
  -- The host call has come to its result, which is reported and shown before the guest goes on.
  · have hp := performed_of_traced hfirst
    cases result with
    | ok status =>
      simp only [conclude, Exec.run_pure, Run.bind, Run.traced_mark, Run.traced_done] at hrest
      obtain ⟨_, rfl, rfl, rfl⟩ := hrest
      exact .ended hp
    | error error =>
      simp only [conclude, Exec.run_bind, Exec.run_record, Exec.run_pure, Run.bind,
        Run.traced_emit, Run.traced_mark, Run.traced_done] at hrest
      obtain ⟨_, rfl, _, rfl, rfl, rfl⟩ := hrest
      exact .ended hp
  · exact .forever (performed_of_traced hn)

end HostCall

end EventSandbox
