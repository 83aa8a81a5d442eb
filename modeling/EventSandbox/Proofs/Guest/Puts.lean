import EventSandbox.Proofs.Guest.Effects
import EventSandbox.Proofs.Guest.Path
import EventSandbox.Proofs.Guest.Server
import EventSandbox.Proofs.Json.Depth

/-!
# EventSandbox.Proofs.Guest.Puts — what a guest has put into its event

A trace shows which fields a guest has set, and with which values: those of the `putField` calls
that have ended well (`Server.puts`). The event that comes back from a call is the one that went in
with these fields set, one after another (`Session.event_of_traced`).

Every such value has been read from the guest's memory, so it is canonical and nested no deeper than
reading goes. In the event it stands one level deeper (`Session.nesting_of_traced`).
-/

namespace EventSandbox

/-! ## Settings one after another -/

namespace Json

variable {fields : Fields} {settings : List (String × Value)}

theorem mem_setAll {field : String × Value} (h : field ∈ setAll fields settings) :
    field ∈ settings ∨ field ∈ fields := by
  induction settings generalizing fields with
  | nil => exact .inr h
  | cons setting settings ih =>
    rcases ih h with hlater | hbefore
    · exact .inl (List.mem_cons_of_mem _ hlater)
    · rcases Fields.mem_insert hbefore with hnew | hold
      · exact .inl (hnew ▸ List.mem_cons_self)
      · exact .inr hold

theorem canonical_setAll (hfields : (Value.object fields).Canonical)
    (hsettings : ∀ setting ∈ settings, setting.2.Canonical) :
    (Value.object (setAll fields settings)).Canonical := by
  induction settings generalizing fields with
  | nil => exact hfields
  | cons setting settings ih =>
    obtain ⟨hfirst, hrest⟩ := List.forall_mem_cons.1 hsettings
    exact ih (Value.canonical_insert hfields hfirst) hrest

end Json

/-! ## Puts -/

namespace Server

/-- The field that is set by what happens next: that of a `putField` that ends well. -/
def set? (s : Server) : Label → Option (String × Value)
  | .moment (.ended .ok _) => s.calls.head?.bind OpenCall.setting?
  | _ => none

/-- The fields that a trace sets, in order. -/
def puts : Server → List Label → List (String × Value)
  | _, [] => []
  | s, label :: rest => (s.set? label).toList ++ (s.step label).puts rest

theorem fields_step (s : Server) (label : Label) :
    (s.step label).fields = Json.setAll s.fields (s.set? label).toList := by
  obtain ⟨fields, calls⟩ := s
  rcases label with entry | request | ⟨status, m⟩ | trap
  · rfl
  · rfl
  · -- Only the end of an open call can set a field.
    cases calls with
    | nil => cases status <;> rfl
    | cons call calls =>
      show call.settle status fields = _
      unfold OpenCall.settle set?
      cases status with
      | ok => cases hsetting : call.setting? <;> simp [Json.setAll, hsetting]
      | _ => rfl
  · rfl

/-- Nothing but its puts changes the map. -/
theorem fields_run (s : Server) (trace : List Label) :
    (s.run trace).fields = Json.setAll s.fields (s.puts trace) := by
  induction trace generalizing s with
  | nil => rfl
  | cons label rest ih =>
    rw [run_cons, ih, fields_step, puts]
    exact (List.foldl_append ..).symm

theorem read_of_setting? {call : OpenCall} {field : String × Value}
    (h : call.setting? = some field) : ∃ text, Value.ofJson text = .ok field.2 := by
  unfold OpenCall.setting? at h
  split at h
  · split at h
    · split at h
      · rename_i hvalue
        cases h
        exact ⟨_, hvalue⟩
      · cases h
    · cases h
  · cases h

/-- What has been put was read. -/
theorem read_of_mem_puts {s : Server} {trace : List Label} {field : String × Value}
    (h : field ∈ s.puts trace) : ∃ text, Value.ofJson text = .ok field.2 := by
  induction trace generalizing s with
  | nil => cases h
  | cons label rest ih =>
    -- The field is put now or later.
    rcases List.mem_append.1 h with hnow | hlater
    · have hset := Option.mem_toList.1 hnow
      unfold set? at hset
      split at hset
      · obtain ⟨call, -, hsetting⟩ := Option.bind_eq_some_iff.1 hset
        exact read_of_setting? hsetting
      · cases hset
    · exact ih hlater

end Server

/-- A `putField` has a field to set if its two ranges hold one. -/
theorem OpenCall.setting?_of_puts {m : Machine} {a b c d : Word} {fields : Fields} {key : String}
    {value : Value} (h : Puts m a b c d key value) :
    setting? ⟨.putField a b c d, m.memory, fields⟩ = some (key, value) := by
  obtain ⟨hkey, bytes, hbytes, hvalue⟩ := h
  unfold setting?
  dsimp only
  rw [Memory.readString_eq_ok.2 hkey, Memory.read_eq_ok_iff_holds.2 hbytes]
  dsimp only
  rw [hvalue]

/-! ## A whole call -/

namespace Session

/-- The fields that a guest sets in a call, whose event it was. -/
def puts (event : Fields) (trace : List Label) : List (String × Value) :=
  (Server.mk event []).puts trace

/-- What is put by a `putField` that ends well. -/
theorem puts_putField {event : Fields} {m m' : Machine} {a b c d : Word} {key : String}
    {value : Value} {entry : LogRecord} (h : Puts m a b c d key value) :
    puts event [.moment (.began (.putField a b c d) m), .record entry,
      .moment (.ended .ok m')] = [(key, value)] := by
  simp [puts, Server.puts, Server.set?, Server.step, Server.enter, OpenCall.setting?_of_puts h]

variable {s : Session} {event : Fields} {trace : List Label} {ended : Ended}

/-- The event that comes back is the one that went in, with what has been put. -/
theorem event_of_traced (h : (s.guestProcess event).Traced trace (some ended)) :
    ended.event = Json.setAll event (puts event trace) := by
  -- A call that is refused leaves its event alone; any other is followed by a server.
  rcases traced_guestProcess Server.follows_rules h with
    ⟨error, -, rfl, hend⟩ | ⟨meter, exports, last?, hx, hend, hfollows⟩
  · cases hend
    rfl
  · obtain ⟨⟨result, m⟩, rfl, rfl⟩ := Option.map_eq_some_iff.1 hend.symm
    obtain ⟨-, hlast⟩ := hfollows ⟨event, []⟩ ⟨rfl, by simp [begin, hx]⟩
    obtain ⟨hholds, -⟩ := hlast _ _ rfl
    have hfields := congrArg some (Server.fields_run ⟨event, []⟩ trace)
    have hevent : m.event? = some (Json.setAll event (puts event trace)) := by
      cases result <;> exact hholds.event.trans hfields
    cases result <;> simp [finish, hevent]

/-- The values of an event that has been processed are old ones or have been put. -/
theorem mem_event_of_traced (h : (s.guestProcess event).Traced trace (some ended))
    {field : String × Value} (hfield : field ∈ ended.event) :
    field ∈ puts event trace ∨ field ∈ event := by
  rw [event_of_traced h] at hfield
  exact Json.mem_setAll hfield

theorem canonical_of_traced (hevent : (Value.object event).Canonical)
    (h : (s.guestProcess event).Traced trace (some ended)) :
    (Value.object ended.event).Canonical := by
  rw [event_of_traced h]
  refine Json.canonical_setAll hevent fun field hfield => ?_
  obtain ⟨text, htext⟩ := Server.read_of_mem_puts hfield
  exact Value.canonical_ofJson htext

theorem integral_of_traced (hevent : (Value.object event).Integral)
    (hputs : ∀ field ∈ puts event trace, field.2.Integral)
    (h : (s.guestProcess event).Traced trace (some ended)) :
    (Value.object ended.event).Integral := by
  refine Value.integralFields_iff.2 fun field hfield => ?_
  rcases mem_event_of_traced h hfield with hnew | hold
  · exact hputs field hnew
  · exact Value.integralFields_iff.1 hevent field hold

/-- An event that was read is nested at most one level deeper after a call than events are read, and
only if the guest has put a value that is nested as deep as can be. -/
theorem nesting_of_traced (hevent : (Value.object event).nesting ≤ Json.maxNesting)
    (h : (s.guestProcess event).Traced trace (some ended)) :
    (Value.object ended.event).nesting ≤ Json.maxNesting ∨
      (Value.object ended.event).nesting = Json.maxNesting + 1 ∧
        ∃ field ∈ puts event trace, field.2.nesting = Json.maxNesting := by
  have hold : ∀ field ∈ event, field.2.nesting < Json.maxNesting :=
    (Value.nesting_object_le (by decide)).1 hevent
  have hput : ∀ field ∈ puts event trace, field.2.nesting ≤ Json.maxNesting := by
    intro field hfield
    obtain ⟨text, htext⟩ := Server.read_of_mem_puts hfield
    exact Value.nesting_ofJson htext
  -- The event is one object around its fields, so it is one deeper than the deepest of them.
  by_cases hshallow : (Value.object ended.event).nesting ≤ Json.maxNesting
  · exact .inl hshallow
  · right
    have hmost : (Value.object ended.event).nesting ≤ Json.maxNesting + 1 := by
      refine (Value.nesting_object_le (by decide)).2 fun field hfield => ?_
      rcases mem_event_of_traced h hfield with hnew | hkept
      · exact Nat.lt_succ_of_le (hput field hnew)
      · exact (hold field hkept).trans (Nat.lt_succ_self _)
    refine ⟨Nat.le_antisymm hmost (Nat.not_le.1 hshallow), ?_⟩
    rw [Value.nesting_object_le (by decide)] at hshallow
    push Not at hshallow
    obtain ⟨field, hfield, hdeep⟩ := hshallow
    -- A field of the old event is not deep enough, so the deepest one has been put.
    rcases mem_event_of_traced h hfield with hnew | hkept
    · exact ⟨field, hnew, Nat.le_antisymm (hput field hnew) hdeep⟩
    · exact absurd (hold field hkept) (Nat.not_lt.2 hdeep)

end Session

end EventSandbox
