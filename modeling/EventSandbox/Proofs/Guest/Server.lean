import EventSandbox.Proofs.Session

/-!
# EventSandbox.Proofs.Guest.Server — an event as its guest sees it

Host calls can be nested: while a `getField` waits for the guest's allocator, the allocator makes
host calls of its own, which may wait in turn. `Server` is the plain picture of all this: one map
from keys to values, and the calls that are open.

1. `Server.step` reads a trace. The map changes when a `putField` ends with `ok`, and at no other
   time.
2. `Server.Allows` says what may happen next. A `getField` answers from the map as it was when the
   call began, whatever has been put since.
3. `Server.Holds` ties the map to the event that the host has bound. Every run keeps it
   (`follows_rules`), by whichever way it ends.
-/

namespace EventSandbox

/-! ## The server -/

/-- A host call that has begun and not ended. -/
structure OpenCall where
  request : HostRequest
  /-- The memory as it was when the call began. -/
  memory : Memory
  /-- The map as it was when the call began. -/
  fields : Fields

namespace OpenCall

/-- The value that a `getField` has to serve. -/
def sought? (call : OpenCall) : Option Value :=
  match call.request with
  | .getField key keyLength _ _ =>
    match call.memory.readString key keyLength with
    | .ok key => call.fields.get? key
    | .error _ => none
  | _ => none

/-- The field that a `putField` has to set. -/
def setting? (call : OpenCall) : Option (String × Value) :=
  match call.request with
  | .putField key keyLength value valueLength =>
    match call.memory.readString key keyLength, call.memory.read value valueLength with
    | .ok key, .ok bytes =>
      match Value.ofJson bytes with
      | .ok value => some (key, value)
      | .error _ => none
    | _, _ => none
  | _ => none

/-- What the call makes of the map when it ends with a status. -/
def settle (call : OpenCall) (status : Status) (fields : Fields) : Fields :=
  match status, call.setting? with
  | .ok, some (key, value) => fields.insert key value
  | _, _ => fields

theorem settle_of_setting? {call : OpenCall} (h : call.setting? = none) (status : Status)
    (fields : Fields) : call.settle status fields = fields := by
  unfold settle
  rw [h]
  cases status <;> rfl

theorem settle_of_ne_ok {status : Status} (h : status ≠ .ok) (call : OpenCall) (fields : Fields) :
    call.settle status fields = fields := by
  cases status
  · exact absurd rfl h
  all_goals rfl

theorem settle_getField (a b c d : Word) (memory : Memory) (before : Fields) (status : Status)
    (fields : Fields) :
    settle ⟨.getField a b c d, memory, before⟩ status fields = fields :=
  settle_of_setting? rfl status fields

/-- A payload has been written at some address, and after it that address and the payload's length,
each at its own place. -/
def Delivered (payload : Bytes) (outPtr outLen : Word) (memory : Memory) : Prop :=
  ∃ before placed pointed address length,
    Memory.lengthWord? payload.length = some length ∧
    Memory.write before address payload = .ok placed ∧
    Memory.writeWord placed outPtr address = .ok pointed ∧
    Memory.writeWord pointed outLen length = .ok memory

/-- How the call may end: with which status, and with which memory. -/
def Permits (call : OpenCall) (status : Status) (memory : Memory) : Prop :=
  match call.request with
  | .getField key keyLength outPtr outLen =>
    match call.memory.readString key keyLength with
    | .error _ => status = .invalidArgument
    | .ok key =>
      match call.fields.get? key with
      | none => status = .notFound
      | some value =>
        status ≠ .notFound ∧ (status = .ok → Delivered value.toJson outPtr outLen memory)
  | .putField .. => status = if call.setting?.isSome then .ok else .invalidArgument
  | .log .. => status = .ok
  | .currentTime _ => status = .ok ∨ status = .invalidArgument

end OpenCall

/-- A map from keys to values, and the calls that are open, the innermost first. -/
@[ext] structure Server where
  fields : Fields
  calls : List OpenCall

namespace Server

/-- Opens a call. -/
def enter (s : Server) (request : HostRequest) (memory : Memory) : Server :=
  { s with calls := ⟨request, memory, s.fields⟩ :: s.calls }

/-- What happens next. -/
def step (s : Server) : Label → Server
  | .moment (.began request m) => s.enter request m.memory
  | .moment (.ended status _) =>
    match s.calls with
    | [] => s
    | call :: calls => ⟨call.settle status s.fields, calls⟩
  | .moment (.stopped _) | .record _ => s

@[simp] theorem step_began (s : Server) (request : HostRequest) (m : Machine) :
    s.step (.moment (.began request m)) = s.enter request m.memory := rfl

/-- What may happen next. -/
def Allows (s : Server) : Label → Prop
  | .moment (.began _ m) => m.event? = some s.fields
  | .moment (.ended status m) =>
    ∃ call calls, s.calls = call :: calls ∧ call.Permits status m.memory ∧
      m.event? = some (call.settle status s.fields)
  | .moment (.stopped _) => True
  | .record (.failedCall .getField (.allocation length _)) =>
    ∃ call calls value, s.calls = call :: calls ∧ call.sought? = some value ∧
      length = value.toJson.length
  | .record _ => True

/-- The server after a trace. -/
def run (s : Server) (trace : List Label) : Server := trace.foldl step s

/-- A trace is allowed, label by label. -/
def Accepts : Server → List Label → Prop
  | _, [] => True
  | s, label :: rest => s.Allows label ∧ (s.step label).Accepts rest

@[simp] theorem run_nil (s : Server) : s.run [] = s := rfl

@[simp] theorem run_cons (s : Server) (label : Label) (rest : List Label) :
    s.run (label :: rest) = (s.step label).run rest := rfl

theorem run_append (s : Server) (first rest : List Label) :
    s.run (first ++ rest) = (s.run first).run rest := List.foldl_append

@[simp] theorem accepts_nil (s : Server) : s.Accepts [] := trivial

@[simp] theorem accepts_cons {s : Server} {label : Label} {rest : List Label} :
    s.Accepts (label :: rest) ↔ s.Allows label ∧ (s.step label).Accepts rest := Iff.rfl

theorem accepts_append {s : Server} {first rest : List Label} :
    s.Accepts (first ++ rest) ↔ s.Accepts first ∧ (s.run first).Accepts rest := by
  induction first generalizing s with
  | nil => simp
  | cons label first ih => simp [ih, and_assoc]

/-! ## The host keeps up the picture -/

/-- The event that is bound in a state is the map. -/
structure Holds (s : Server) (m : Machine) : Prop where
  event : m.event? = some s.fields
  exports : m.exports?.isSome

/-- A run does only what the server allows, and if it ends, all calls that it made have ended and
the event is the map. -/
def Follows : RunProperty := fun m trace end? =>
  ∀ s : Server, s.Holds m →
    s.Accepts trace ∧
      ∀ trap? m', end? = some (trap?, m') →
        (s.run trace).Holds m' ∧ (s.run trace).calls = s.calls

theorem Holds.ownStep {s : Server} {m m' : Machine} (hs : s.Holds m) (h : m.OwnStep m') :
    s.Holds m' :=
  ⟨h.event.trans hs.event, h.exports ▸ hs.exports⟩

/-- Nothing is shown, and the event stays. -/
theorem follows_nil {m m' : Machine} {trap? : Option Trap}
    (h : ∀ s : Server, s.Holds m → s.Holds m') : Follows m [] (some (trap?, m')) := by
  intro s hs
  refine ⟨s.accepts_nil, ?_⟩
  rintro _ _ ⟨⟩
  exact ⟨h s hs, rfl⟩

theorem follows_seq {m m' : Machine} {first rest : List Label}
    {end? : Option (Option Trap × Machine)} (hfirst : Follows m first (some (none, m')))
    (hrest : Follows m' rest end?) : Follows m (first ++ rest) end? := by
  intro s hs
  obtain ⟨haccepts, hend⟩ := hfirst s hs
  obtain ⟨hholds, hcalls⟩ := hend none m' rfl
  obtain ⟨haccepts', hend'⟩ := hrest _ hholds
  refine ⟨accepts_append.2 ⟨haccepts, haccepts'⟩, fun trap? m'' h => ?_⟩
  rw [run_append]
  obtain ⟨hholds', hcalls'⟩ := hend' trap? m'' h
  exact ⟨hholds', hcalls'.trans hcalls⟩

/-! ## Host calls -/

open HostCall

/-- What has to hold of a call, whose allocator has left such fields, when it ends. -/
structure Settled (call : OpenCall) (fields : Fields) (result : Except HostCallError Status)
    (m : Machine) : Prop where
  event : m.event? = some (call.settle (outcome result) fields)
  exports : m.exports?.isSome
  permits : call.Permits (outcome result) m.memory
  size : ∀ length reason, result = .error (.allocation length reason) →
    ∃ value, call.sought? = some value ∧ length = value.toJson.length

section Calls

variable {s : Server} {m m' : Machine} {request : HostRequest} {malloc : Allocator}
  {trace : List Label} {result : Except HostCallError Status}

theorem Holds.enter (hs : s.Holds m) (request : HostRequest) (memory : Memory) :
    (s.enter request memory).Holds m := ⟨hs.event, hs.exports⟩

/-- A call whose arguments are refused changes nothing. -/
theorem settled_refused {call : OpenCall} {fields : Fields} {error : HostCallError}
    (hstatus : error.status = .invalidArgument) (hevent : m'.event? = some fields)
    (hx : m'.exports?.isSome) (hpermits : call.Permits .invalidArgument m'.memory) :
    Settled call fields (.error error) m' where
  event := by rw [hevent, OpenCall.settle_of_ne_ok (outcome_error_ne_ok error)]
  exports := hx
  permits := by rwa [outcome, hstatus]
  size := by
    rintro length reason ⟨⟩
    cases hstatus

section Wanted

variable {a b c d : Word} {key : String} {value : Value} {fields : Fields}

theorem sought_of_wants (hs : s.Holds m) (hw : Wants m a b c d key value) :
    OpenCall.sought? ⟨.getField a b c d, m.memory, s.fields⟩ = some value := by
  obtain ⟨event, hbound, hget⟩ := hw.found
  obtain rfl : event = s.fields := Option.some.inj (hbound.symm.trans hs.event)
  simp only [OpenCall.sought?, hw.readable, hget]

theorem permits_of_wants (hs : s.Holds m) (hw : Wants m a b c d key value) {status : Status}
    {memory : Memory} (hne : status ≠ .notFound)
    (hok : status = .ok → OpenCall.Delivered value.toJson c d memory) :
    OpenCall.Permits ⟨.getField a b c d, m.memory, s.fields⟩ status memory := by
  obtain ⟨event, hbound, hget⟩ := hw.found
  obtain rfl : event = s.fields := Option.some.inj (hbound.symm.trans hs.event)
  simp only [OpenCall.Permits, hw.readable, hget]
  exact ⟨hne, hok⟩

/-- A `getField` that found its field and was refused room. -/
theorem settled_noRoom {fault : AllocationFault} (hs : s.Holds m) (hw : Wants m a b c d key value)
    (hevent : m'.event? = some fields) (hx : m'.exports?.isSome) :
    Settled ⟨.getField a b c d, m.memory, s.fields⟩ fields (.error (noRoom value.toJson fault))
      m' where
  event := by rw [hevent, OpenCall.settle_getField]
  exports := hx
  permits := permits_of_wants hs hw nofun nofun
  size := by
    rintro _ _ ⟨⟩
    exact ⟨value, sought_of_wants hs hw, rfl⟩

/-- A `getField` that found its field and could not say where it has put it. -/
theorem settled_unpointed {error : HostCallError} (hs : s.Holds m)
    (hw : Wants m a b c d key value) (hstatus : error.status = .invalidArgument)
    (hevent : m'.event? = some fields) (hx : m'.exports?.isSome) :
    Settled ⟨.getField a b c d, m.memory, s.fields⟩ fields (.error error) m' :=
  settled_refused hstatus hevent hx (permits_of_wants hs hw nofun nofun)

theorem settled_delivered (hs : s.Holds m) (hw : Wants m a b c d key value)
    (hevent : m'.event? = some fields) (hx : m'.exports?.isSome)
    (hdelivered : OpenCall.Delivered value.toJson c d m'.memory) :
    Settled ⟨.getField a b c d, m.memory, s.fields⟩ fields (.ok .ok) m' where
  event := by rw [hevent, OpenCall.settle_getField]
  exports := hx
  permits := permits_of_wants hs hw nofun fun _ => hdelivered
  size := nofun

end Wanted

/-- What happens between the beginning of a call and its end. -/
def Proceeds (s : Server) (m : Machine) (request : HostRequest) (trace : List Label)
    (end? : Option (Except HostCallError Status × Machine)) : Prop :=
  (s.enter request m.memory).Accepts trace ∧
    ∀ result m', end? = some (result, m') →
      ∃ fields, (s.enter request m.memory).run trace =
          ⟨fields, ⟨request, m.memory, s.fields⟩ :: s.calls⟩ ∧
        Settled ⟨request, m.memory, s.fields⟩ fields result m'

/-- A call in which no other call is made. -/
theorem proceeds_alone (haccepts : (s.enter request m.memory).Accepts trace)
    (hrun : (s.enter request m.memory).run trace = s.enter request m.memory)
    (h : Settled ⟨request, m.memory, s.fields⟩ s.fields result m') :
    Proceeds s m request trace (some (result, m')) := by
  refine ⟨haccepts, ?_⟩
  rintro _ _ ⟨⟩
  exact ⟨s.fields, hrun, h⟩

/-- A call that has called the allocator. -/
theorem proceeds_malloc {trap? : Option Trap} {m'' : Machine} {last : List Label}
    (hs : s.Holds m) (hmalloc : Follows m trace (some (trap?, m'')))
    (hlast : ∀ s : Server, s.Accepts last ∧ s.run last = s)
    (h : ∀ fields, m''.event? = some fields → m''.exports?.isSome →
      Settled ⟨request, m.memory, s.fields⟩ fields result m') :
    Proceeds s m request (trace ++ last) (some (result, m')) := by
  -- The calls of the allocator are opened above this one and closed before it goes on.
  obtain ⟨haccepts, hend⟩ := hmalloc _ (hs.enter request m.memory)
  obtain ⟨hholds, hcalls⟩ := hend trap? m'' rfl
  refine ⟨accepts_append.2 ⟨haccepts, (hlast _).1⟩, ?_⟩
  rintro _ _ ⟨⟩
  refine ⟨_, ?_, h _ hholds.event hholds.exports⟩
  rw [run_append, (hlast _).2]
  exact Server.ext rfl hcalls

/-- A call that has called the allocator and shows nothing more. -/
theorem proceeds_called {trap? : Option Trap} {m'' : Machine} (hs : s.Holds m)
    (hmalloc : Follows m trace (some (trap?, m'')))
    (h : ∀ fields, m''.event? = some fields → m''.exports?.isSome →
      Settled ⟨request, m.memory, s.fields⟩ fields result m') :
    Proceeds s m request trace (some (result, m')) := by
  rw [← List.append_nil trace]
  exact proceeds_malloc hs hmalloc (fun _ => ⟨trivial, rfl⟩) h

theorem Holds.resolved (hs : s.Holds m) : m.exports? ≠ none := by
  intro hnone
  have hx := hs.exports
  rw [hnone] at hx
  cases hx

theorem Holds.bound (hs : s.Holds m) : m.event? ≠ none := by
  rw [hs.event]
  exact nofun

variable {a b c d : Word} {end? : Option (Except HostCallError Status × Machine)}

theorem proceeds_getField (hmalloc : Guarded.AllocatorMeets Follows malloc) (hs : s.Holds m)
    (h : Performed malloc m (.getField a b c d) trace end?) :
    Proceeds s m (.getField a b c d) trace end? := by
  have hx := hs.exports
  have hevent := hs.event
  cases h with
  | unresolved _ hnone => exact absurd hnone hs.resolved
  | getUnbound _ _ hnone => exact absurd hnone hs.bound
  | getUnreadable _ hkey =>
    have hstatus := Memory.status_of_readString hkey
    refine proceeds_alone trivial rfl (settled_refused hstatus hevent hx ?_)
    simp only [OpenCall.Permits, hkey]
  | getMissing _ hkey hbound hget =>
    obtain rfl := Option.some.inj (hbound.symm.trans hevent)
    refine proceeds_alone ⟨trivial, trivial⟩ rfl ⟨?_, hx, ?_, nofun⟩
    · rw [hevent, OpenCall.settle_getField]
    · simp only [OpenCall.Permits, hkey, hget, outcome]
  | getMisplaced _ hkey hbound hget hout =>
    obtain rfl := Option.some.inj (hbound.symm.trans hevent)
    have hstatus : HostCallError.status _ = .invalidArgument :=
      hout.elim Memory.status_of_check fun h => Memory.status_of_check h.2
    refine proceeds_alone trivial rfl (settled_refused hstatus hevent hx ?_)
    simp only [OpenCall.Permits, hkey, hget]
    exact ⟨nofun, nofun⟩
  | getTooLarge hw => exact proceeds_alone trivial rfl (settled_noRoom hs hw hevent hx)
  -- From here on the event is what the allocator has left.
  | getForever _ _ hforever =>
    refine ⟨(hmalloc _ _ _ _ hforever _ (hs.enter _ _)).1, ?_⟩
    rintro _ _ ⟨⟩
  | getTrapped hw _ htrapped =>
    refine proceeds_called hs (hmalloc _ _ _ _ htrapped) fun fields hevent hx => ?_
    exact settled_noRoom hs hw hevent hx
  | getUnusable hw _ hreturned =>
    refine proceeds_called hs (hmalloc _ _ _ _ hreturned) fun fields hevent hx => ?_
    exact settled_noRoom hs hw hevent hx
  | getNoPointer hw _ hreturned _ hptr =>
    refine proceeds_called hs (hmalloc _ _ _ _ hreturned) fun fields hevent hx => ?_
    exact settled_unpointed hs hw (Memory.status_of_write hptr) hevent hx
  | getNoLength hw _ hreturned _ _ hlen =>
    refine proceeds_called hs (hmalloc _ _ _ _ hreturned) fun fields hevent hx => ?_
    exact settled_unpointed hs hw (Memory.status_of_write hlen) hevent hx
  | getDone hw hlength hreturned hwrite hptr hlen =>
    refine proceeds_malloc hs (hmalloc _ _ _ _ hreturned) (fun _ => ⟨⟨trivial, trivial⟩, rfl⟩) ?_
    intro fields hevent hx
    exact settled_delivered hs hw hevent hx ⟨_, _, _, _, _, hlength, hwrite, hptr, hlen⟩

theorem proceeds_putField (hs : s.Holds m)
    (h : Performed malloc m (.putField a b c d) trace end?) :
    Proceeds s m (.putField a b c d) trace end? := by
  have hx := hs.exports
  have hevent := hs.event
  -- The server knows the exports and the event, so a call is refused for its arguments only.
  cases h with
  | unresolved _ hnone => exact absurd hnone hs.resolved
  | putUnbound _ _ _ _ hnone => exact absurd hnone hs.bound
  | putUnreadable _ hkey =>
    have hstatus : HostCallError.status _ = .invalidArgument :=
      hkey.elim Memory.status_of_readString fun ⟨_, _, h⟩ => Memory.status_of_read h
    refine proceeds_alone trivial rfl (settled_refused hstatus hevent hx ?_)
    rcases hkey with hkey | ⟨key, hkey, hbytes⟩
    · simp [OpenCall.Permits, OpenCall.setting?, hkey]
    · simp [OpenCall.Permits, OpenCall.setting?, hkey, hbytes]
  | putUndecodable _ hkey hbytes hvalue =>
    refine proceeds_alone trivial rfl (settled_refused rfl hevent hx ?_)
    simp [OpenCall.Permits, OpenCall.setting?, hkey, hbytes, hvalue]
  | putDone _ hkey hbytes hvalue hbound =>
    obtain rfl := Option.some.inj (hbound.symm.trans hevent)
    refine proceeds_alone ⟨trivial, trivial⟩ rfl ⟨?_, hx, ?_, nofun⟩
    · simp [OpenCall.settle, OpenCall.setting?, hkey, hbytes, hvalue, outcome]
    · simp [OpenCall.Permits, OpenCall.setting?, hkey, hbytes, hvalue, outcome]

theorem proceeds_currentTime (hs : s.Holds m)
    (h : Performed malloc m (.currentTime a) trace end?) :
    Proceeds s m (.currentTime a) trace end? := by
  have hx := hs.exports
  have hevent := hs.event
  cases h with
  | unresolved _ hnone => exact absurd hnone hs.resolved
  | timeMisplaced _ hwrite =>
    have hstatus := Memory.status_of_write hwrite
    exact proceeds_alone trivial rfl (settled_refused hstatus hevent hx (.inr rfl))
  | timeDone _ hwrite =>
    refine proceeds_alone trivial rfl ⟨?_, hx, .inl rfl, nofun⟩
    exact hevent.trans (by rw [OpenCall.settle_of_setting? rfl])

/-- What happens in a call is what the server allows, and when it ends it can be closed. -/
theorem proceeds_of_performed (hmalloc : Guarded.AllocatorMeets Follows malloc) (hs : s.Holds m)
    (h : Performed malloc m request trace end?) : Proceeds s m request trace end? := by
  cases request with
  | getField => exact proceeds_getField hmalloc hs h
  | putField => exact proceeds_putField hs h
  | currentTime => exact proceeds_currentTime hs h
  | log =>
    cases h with
    | unresolved hlog => exact absurd rfl hlog
    | log =>
      refine proceeds_alone ⟨?_, trivial⟩ rfl ⟨?_, hs.exports, rfl, nofun⟩
      · simp only [logRecord]
        split <;> trivial
      · rw [hs.event, OpenCall.settle_of_setting? rfl]

/-- What the log says of a failure. -/
theorem follows_report {call : OpenCall} {fields : Fields} (function : HostFunction)
    (calls : List OpenCall) (h : Settled call fields result m') :
    Accepts ⟨fields, call :: calls⟩ (report function result) ∧
      run ⟨fields, call :: calls⟩ (report function result) = ⟨fields, call :: calls⟩ := by
  cases result with
  | ok status => exact ⟨trivial, rfl⟩
  | error error =>
    refine ⟨⟨?_, trivial⟩, rfl⟩
    -- Only the failure of a `getField` says how much room was asked for.
    cases function
    case getField =>
      cases error
      case allocation length reason =>
        obtain ⟨value, hsought, hlength⟩ := h.size length reason rfl
        exact ⟨call, calls, value, rfl, hsought, hlength⟩
      all_goals trivial
    all_goals trivial

/-- A host call is what the server makes of it, from its beginning to its end. -/
theorem follows_answer (hmalloc : Guarded.AllocatorMeets Follows malloc)
    {end? : Option (Word × Machine)} (h : Answered malloc m request trace end?) :
    Follows m trace (end?.map fun (_, m') => (none, m')) := by
  intro s hs
  -- The server opens the call when it begins, and settles it with the fields that are there when it
  -- ends.
  cases h with
  | forever hperformed =>
    obtain ⟨haccepts, -⟩ := proceeds_of_performed hmalloc hs hperformed
    refine ⟨⟨hs.event, haccepts⟩, ?_⟩
    rintro _ _ ⟨⟩
  | @ended inner result m' hperformed =>
    obtain ⟨haccepts, hend⟩ := proceeds_of_performed hmalloc hs hperformed
    obtain ⟨fields, hrun, hsettled⟩ := hend result m' rfl
    obtain ⟨hreport, hrun'⟩ := follows_report request.function s.calls hsettled
    refine ⟨⟨hs.event, ?_⟩, ?_⟩
    · refine accepts_append.2 ⟨haccepts, ?_⟩
      rw [step_began, hrun]
      refine accepts_append.2 ⟨hreport, ?_⟩
      rw [hrun']
      exact ⟨⟨_, _, rfl, hsettled.permits, hsettled.event⟩, trivial⟩
    · rintro _ _ ⟨⟩
      rw [run_cons, step_began, run_append, hrun, run_append, hrun']
      exact ⟨⟨hsettled.event, hsettled.exports⟩, rfl⟩

end Calls

/-- Every run of a guest is a run of the server. -/
theorem follows_rules : Guarded.Rules Follows where
  own h := follows_nil fun _ hs => hs.ownStep h
  charge _ := follows_nil fun _ hs => ⟨hs.event, hs.exports⟩
  fault h _ := follows_nil fun _ hs => hs.ownStep h
  stop _ := by
    intro s hs
    refine ⟨⟨trivial, trivial⟩, ?_⟩
    rintro _ _ ⟨⟩
    exact ⟨hs, rfl⟩
  forever _ := by
    intro s hs
    refine ⟨trivial, ?_⟩
    rintro _ _ ⟨⟩
  seq := follows_seq
  answer hmalloc h := follows_answer hmalloc h

/-! ## A whole call -/

/-- What a guest does to an event in one call, through host calls nested in whatever way, it does
to one map that starts as the event. However the call ends, the event that comes back is the map
that its puts have made. -/
theorem guestProcess_follows (s : Session) (event : Fields) {trace : List Label}
    {end? : Option Session.Ended} (h : (s.guestProcess event).Traced trace end?) :
    (Server.mk event []).Accepts trace ∧
      ∀ ended, end? = some ended → (Server.mk event []).run trace = ⟨ended.event, []⟩ := by
  -- The server begins with the event, and no call is open.
  rcases Session.traced_guestProcess follows_rules h with
    ⟨error, -, rfl, rfl⟩ | ⟨meter, exports, last?, hx, rfl, hfollows⟩
  · refine ⟨trivial, ?_⟩
    rintro _ ⟨⟩
    rfl
  · obtain ⟨haccepts, hend⟩ := hfollows ⟨event, []⟩ ⟨rfl, by simp [Session.begin, hx]⟩
    refine ⟨haccepts, fun ended hended => ?_⟩
    obtain ⟨⟨result, m⟩, rfl, rfl⟩ := Option.map_eq_some_iff.1 hended
    obtain ⟨hholds, hcalls⟩ := hend _ _ rfl
    have hevent : m.event? = some ((Server.mk event []).run trace).fields := by
      cases result <;> exact hholds.event
    have hfinish : (s.finish (result, m)).event = ((Server.mk event []).run trace).fields := by
      cases result <;> simp [Session.finish, hevent]
    exact Server.ext hfinish.symm hcalls

/-- A guest that reads a field, with an allocator that sets the same field meanwhile. -/
def reentrant : Session :=
  Session.small
    { malloc := .steps [.putField (.const 0) (.const 0) (.const 0) (.const 1), .ret (.const 16)]
      process := .steps
        [ .store8 (.const 0) (.const 0x37),
          .getField (.const 0) (.const 0) (.const 8) (.const 12) ] }
    none

theorem guestProcess_follows_reentrant :
    ∃ trace ended, (reentrant.guestProcess [("", .bool true)]).Traced trace (some ended) ∧
      trace.length = 6 ∧ (Server.mk [("", .bool true)] []).Accepts trace ∧
      (Server.mk [("", .bool true)] []).run trace = ⟨ended.event, []⟩ := by
  have hlength : ((reentrant.guestProcess [("", .bool true)]).watch 0).1.length = 6 := by
    decide +kernel
  have hends : ((reentrant.guestProcess [("", .bool true)]).watch 0).2.isSome := by
    decide +kernel
  obtain ⟨ended, hended⟩ := Option.isSome_iff_exists.1 hends
  have h := (reentrant.guestProcess [("", .bool true)]).traced_watch 0
  rw [hended] at h
  obtain ⟨haccepts, hrun⟩ := guestProcess_follows reentrant [("", .bool true)] h
  exact ⟨_, ended, h, hlength, haccepts, hrun ended rfl⟩

end Server

end EventSandbox
