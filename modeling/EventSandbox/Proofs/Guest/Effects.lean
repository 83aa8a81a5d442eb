import EventSandbox.Proofs.Guest.Orderly
import EventSandbox.Proofs.Memory.Text

/-!
# EventSandbox.Proofs.Guest.Effects — what putField, log and currentTime do

These three need no allocator, so during a call each of them is one step of the guest: the run from
its beginning to its end is written down in full, and depends on nothing but the state, and the
time if it asks for it (`putField_effect`, `log_effect`, `currentTime_effect`).

What goes wrong with a `putField` is looked for in a fixed order. `PutFault` has one constructor
for each place where it may stop, and each says that the places before it have been passed.
-/

namespace EventSandbox

open HostCall Memory

/-! ## Calls that go by themselves -/

/-- A run that shows something before it goes on. -/
def Run.showing {α : Type} : List Label → Run α → Run α
  | [], r => r
  | .record entry :: rest, r => .emit entry fun _ => showing rest r
  | .moment what :: rest, r => .mark what fun _ => showing rest r

theorem Run.showing_bind {α β : Type} (labels : List Label) (r : Run α) (f : α → Run β) :
    (showing labels r).bind f = showing labels (r.bind f) := by
  induction labels with
  | nil => rfl
  | cons label rest ih => cases label <;> simp only [showing, bind, ih]

theorem Run.showing_append {α : Type} (first rest : List Label) (r : Run α) :
    showing (first ++ rest) r = showing first (showing rest r) := by
  induction first with
  | nil => rfl
  | cons label first ih => cases label <;> simp only [List.cons_append, showing, ih]

/-- What such a run shows, and then what it goes on with. -/
theorem Run.traced_showing {α : Type} {labels trace : List Label} {r : Run α} {end? : Option α} :
    (showing labels r).Traced trace end? ↔ ∃ rest, trace = labels ++ rest ∧ r.Traced rest end? := by
  induction labels generalizing trace with
  | nil => simp [showing]
  | cons label labels ih => cases label <;> simp [showing, ih]

/-- The run of a call once it has begun: it shows all that the call shows, and the guest goes on
with its status. -/
def CompletedCall.rest (c : CompletedCall) : Run (Word × Machine) :=
  .showing c.labels.tail (.done (c.status.code.toUInt32, c.after))

namespace HostCall

/-- How a call ends once its result is known. -/
def conclusion (function : HostFunction) (ended : Except HostCallError Status × Machine) :
    Run (Word × Machine) :=
  .showing (report function ended.1 ++ [.moment (.ended (outcome ended.1) ended.2)])
    (.done ((outcome ended.1).code.toUInt32, ended.2))

theorem run_answer (malloc : Allocator) (request : HostRequest) (m : Machine) :
    (answer malloc request).run m = .mark (.began request m) fun _ =>
      ((perform malloc request).run.run m).bind (conclusion request.function) := by
  simp only [answer, Exec.run_bind, Exec.run_get, Exec.run_mark, Run.bind]
  congr 1
  funext _
  congr 1
  funext ended
  obtain ⟨_ | _, m'⟩ := ended <;> rfl

theorem conclusion_of_shown (c : CompletedCall) :
    (Run.showing c.inner (.done (c.result, c.after))).bind (conclusion c.request.function) =
      c.rest := by
  rw [Run.showing_bind]
  exact (Run.showing_append _ _ _).symm

/-- If all that a call does is known, so is its run. -/
theorem answer_of_shown {malloc : Allocator} (c : CompletedCall)
    (h : (perform malloc c.request).run.run c.before =
      .showing c.inner (.done (c.result, c.after))) :
    (answer malloc c.request).run c.before = .mark (.began c.request c.before) fun _ => c.rest := by
  rw [run_answer, h, conclusion_of_shown]

end HostCall

/-! ## putField -/

section PutField

variable {m : Machine} {keyPtr keyLen valuePtr valueLen : Word}

/-- The two ranges hold a key and the text of a value. -/
def Puts (m : Machine) (keyPtr keyLen valuePtr valueLen : Word) (key : String) (value : Value) :
    Prop :=
  m.memory.Holds keyPtr keyLen (utf8 key) ∧
    ∃ bytes, m.memory.Holds valuePtr valueLen bytes ∧ Value.ofJson bytes = .ok value

/-- The first thing that is wrong with the two ranges, and its error. -/
inductive PutFault (m : Machine) (keyPtr keyLen valuePtr valueLen : Word) : HostCallError → Prop
  | keyOutside (hkey : m.memory.size < keyPtr.toNat + keyLen.toNat) :
      PutFault m keyPtr keyLen valuePtr valueLen
        (.memoryAccess keyPtr.toNat keyLen.toNat m.memory.size)
  | keyIllFormed {bytes fault} (hkey : m.memory.Holds keyPtr keyLen bytes)
      (htext : Utf8.decode bytes = .error fault) :
      PutFault m keyPtr keyLen valuePtr valueLen (.invalidUtf8 fault)
  | valueOutside {key} (hkey : m.memory.Holds keyPtr keyLen (utf8 key))
      (hvalue : m.memory.size < valuePtr.toNat + valueLen.toNat) :
      PutFault m keyPtr keyLen valuePtr valueLen
        (.memoryAccess valuePtr.toNat valueLen.toNat m.memory.size)
  | valueIllFormed {key bytes fault} (hkey : m.memory.Holds keyPtr keyLen (utf8 key))
      (hvalue : m.memory.Holds valuePtr valueLen bytes)
      (htext : Value.ofJson bytes = .error fault) :
      PutFault m keyPtr keyLen valuePtr valueLen (.deserialization fault)

/-- Either the two ranges hold a key and a value, or something is wrong with them. -/
theorem puts_or_putFault (m : Machine) (keyPtr keyLen valuePtr valueLen : Word) :
    (∃ key value, Puts m keyPtr keyLen valuePtr valueLen key value) ∨
      ∃ error, PutFault m keyPtr keyLen valuePtr valueLen error := by
  -- In the order in which the host looks: the range of the key, its text, and the same of the
  -- value.
  rcases holds_or_lt m.memory keyPtr keyLen with ⟨keyBytes, hkey⟩ | hout
  swap
  · exact .inr ⟨_, .keyOutside hout⟩
  cases hdecode : Utf8.decode keyBytes with
  | error fault => exact .inr ⟨_, .keyIllFormed hkey hdecode⟩
  | ok chars =>
  rw [decode_eq_ok_iff_utf8.1 hdecode] at hkey
  rcases holds_or_lt m.memory valuePtr valueLen with ⟨bytes, hbytes⟩ | hout
  swap
  · exact .inr ⟨_, .valueOutside hkey hout⟩
  cases hvalue : Value.ofJson bytes with
  | error fault => exact .inr ⟨_, .valueIllFormed hkey hbytes hvalue⟩
  | ok value => exact .inl ⟨_, value, hkey, bytes, hbytes, hvalue⟩

/-- What a `putField` does. -/
structure PutEffect (m : Machine) (keyPtr keyLen valuePtr valueLen : Word) (call : CompletedCall) :
    Prop where
  /-- The call is over without any allocator. -/
  run : ∀ malloc, (answer malloc (.putField keyPtr keyLen valuePtr valueLen)).run m =
    .mark (.began (.putField keyPtr keyLen valuePtr valueLen) m) fun _ => call.rest
  ok : call.status = .ok ↔ ∃ key value, Puts m keyPtr keyLen valuePtr valueLen key value
  /-- The event is all that ever changes. -/
  others : call.after = { m with event? := call.after.event? }
  put : ∀ {key value}, Puts m keyPtr keyLen valuePtr valueLen key value →
    ∃ before after, m.event? = some before ∧ call.after.event? = some after ∧
      ∀ k, after.get? k = if k = key then some value else before.get? k
  refused : call.status ≠ .ok →
    call.status = .invalidArgument ∧ call.after = m ∧
      ∃ error, call.result = .error error ∧ PutFault m keyPtr keyLen valuePtr valueLen error

theorem perform_putField_of_puts {malloc : Allocator} {key : String} {value : Value}
    {event : Fields} (hx : m.exports?.isSome) (hevent : m.event? = some event)
    (h : Puts m keyPtr keyLen valuePtr valueLen key value) :
    (perform malloc (.putField keyPtr keyLen valuePtr valueLen)).run.run m =
      .showing [.record (.fieldWritten key)]
        (.done (.ok .ok, { m with event? := some (event.insert key value) })) := by
  obtain ⟨hkey, bytes, hbytes, hvalue⟩ := h
  simp only [perform, putField, run_resolved_bind, run_get_bind]
  rw [if_pos hx, run_ofExcept_ok (readString_eq_ok.2 hkey),
    run_ofExcept_ok (read_eq_ok_iff_holds.2 hbytes)]
  simp only [hvalue, hevent]
  rfl

theorem perform_putField_of_putFault {malloc : Allocator} {error : HostCallError}
    (hx : m.exports?.isSome) (h : PutFault m keyPtr keyLen valuePtr valueLen error) :
    (perform malloc (.putField keyPtr keyLen valuePtr valueLen)).run.run m =
      .done (.error error, m) := by
  simp only [perform, putField, run_resolved_bind, run_get_bind]
  rw [if_pos hx]
  -- A fault is found where all that comes before it was passed.
  cases h with
  | keyOutside hkey => rw [run_ofExcept_error (readString_of_lt hkey)]
  | keyIllFormed hkey htext =>
    have hread := readString_of_holds hkey
    rw [htext] at hread
    rw [run_ofExcept_error hread]
  | valueOutside hkey hvalue =>
    rw [run_ofExcept_ok (readString_eq_ok.2 hkey), run_ofExcept_error (read_of_lt hvalue)]
  | valueIllFormed hkey hvalue htext =>
    rw [run_ofExcept_ok (readString_eq_ok.2 hkey),
      run_ofExcept_ok (read_eq_ok_iff_holds.2 hvalue)]
    simp only [htext]
    rfl

theorem PutFault.status {error : HostCallError}
    (h : PutFault m keyPtr keyLen valuePtr valueLen error) : error.status = .invalidArgument := by
  cases h <;> rfl

/-- Where something is wrong there is no key or no value. -/
theorem PutFault.not_puts {error : HostCallError} {key : String} {value : Value}
    (h : PutFault m keyPtr keyLen valuePtr valueLen error) :
    ¬ Puts m keyPtr keyLen valuePtr valueLen key value := by
  rintro ⟨hkey, bytes, hbytes, hvalue⟩
  -- What is put has passed the check that would have failed.
  cases h with
  | keyOutside hout => exact absurd hkey.1 (Nat.not_le_of_lt hout)
  | keyIllFormed hother htext =>
    obtain rfl := hkey.unique hother
    have hok : Utf8.decode (utf8 key) = .ok key.toList := by
      rw [decode_eq_ok_iff_utf8, String.ofList_toList]
    cases hok.symm.trans htext
  | valueOutside _ hout => exact absurd hbytes.1 (Nat.not_le_of_lt hout)
  | valueIllFormed _ hother htext =>
    obtain rfl := hbytes.unique hother
    cases hvalue.symm.trans htext

theorem putField_effect (hm : m.InCall) (keyPtr keyLen valuePtr valueLen : Word) :
    ∃ call, PutEffect m keyPtr keyLen valuePtr valueLen call := by
  obtain ⟨event, hevent⟩ := Option.isSome_iff_exists.1 hm.event
  rcases puts_or_putFault m keyPtr keyLen valuePtr valueLen with
    ⟨key, value, hputs⟩ | ⟨error, hfault⟩
  · let call : CompletedCall := ⟨.putField keyPtr keyLen valuePtr valueLen, m,
      [.record (.fieldWritten key)], .ok .ok, { m with event? := some (event.insert key value) }⟩
    refine ⟨call, fun _ => answer_of_shown call
      (perform_putField_of_puts hm.exports hevent hputs), ?_, rfl, ?_, ?_⟩
    · exact iff_of_true rfl ⟨key, value, hputs⟩
    · -- A memory holds one text and one run of bytes at a place, so nothing else was asked for.
      intro key' value' hputs'
      obtain rfl : key = key' := Except.ok.inj <|
        (readString_eq_ok.2 hputs.1).symm.trans (readString_eq_ok.2 hputs'.1)
      obtain ⟨-, bytes, hbytes, hvalue⟩ := hputs
      obtain ⟨-, bytes', hbytes', hvalue'⟩ := hputs'
      obtain rfl := hbytes.unique hbytes'
      obtain rfl := Except.ok.inj (hvalue.symm.trans hvalue')
      exact ⟨event, _, hevent, rfl, Fields.get?_insert event key value⟩
    · intro hne
      exact absurd rfl hne
  · have hstatus := hfault.status
    let call : CompletedCall :=
      ⟨.putField keyPtr keyLen valuePtr valueLen, m, [], .error error, m⟩
    refine ⟨call, fun _ => answer_of_shown call
      (perform_putField_of_putFault hm.exports hfault), ?_, rfl, ?_, ?_⟩
    · refine iff_of_false (status_ne_ok error) ?_
      rintro ⟨key, value, hputs⟩
      exact hfault.not_puts hputs
    · intro key value hputs
      exact absurd hputs hfault.not_puts
    · intro _
      exact ⟨hstatus, rfl, error, rfl, hfault⟩

end PutField

/-! ## log -/

/-- What a `log` does: whether or not there is a message, it writes a record. -/
structure LogEffect (m : Machine) (level text length : Word) (call : CompletedCall) : Prop where
  run : ∀ malloc, (answer malloc (.log level text length)).run m =
    .mark (.began (.log level text length) m) fun _ => call.rest
  ok : call.status = .ok
  unchanged : call.after = m

theorem log_effect (m : Machine) (level text length : Word) :
    ∃ call, LogEffect m level text length call := by
  let call : CompletedCall := ⟨.log level text length, m,
    [.record (logRecord m level text length)], .ok .ok, m⟩
  exact ⟨call, fun _ => answer_of_shown call rfl, rfl, rfl⟩

/-! ## currentTime -/

section CurrentTime

variable {m : Machine} {out : Word}

/-- What a `currentTime` does that is told a time. -/
structure TimeEffect (m : Machine) (out : Word) (time : Int64) (call : CompletedCall) : Prop where
  ok : call.status = .ok ↔ out.toNat + 8 ≤ m.memory.size
  /-- The memory is all that ever changes. -/
  others : call.after = { m with memory := call.after.memory }
  size : call.after.memory.size = m.memory.size
  maxPages : call.after.memory.maxPages = m.memory.maxPages
  /-- In two's complement. -/
  written : call.status = .ok → call.after.memory.byte =
    overlay out.toNat (littleEndian 8 (time.toInt % 0x10000000000000000).toNat) m.memory.byte
  readBack : call.status = .ok → call.after.memory.int64 out = time
  refused : call.status ≠ .ok →
    call.status = .invalidArgument ∧ call.after = m ∧
      call.result = .error (.memoryAccess out.toNat 8 m.memory.size)

/-- The call that a `currentTime` is, once it is known what came of writing the time. -/
def timeCall (m : Machine) (out : Word) : Except HostCallError Memory → CompletedCall
  | .ok memory => ⟨.currentTime out, m, [], .ok .ok, { m with memory }⟩
  | .error error => ⟨.currentTime out, m, [], .error error, m⟩

theorem writeInt64_of_lt {memory : Memory} {time : Int64} (h : memory.size < out.toNat + 8) :
    memory.writeInt64 out time = .error (.memoryAccess out.toNat 8 memory.size) := by
  have hlength : (littleEndian 8 time.toUInt64.toNat).length = 8 := length_littleEndian _ _
  have hout : ¬ ((littleEndian 8 time.toUInt64.toNat).length < 0x100000000 ∧
      out.toNat + (littleEndian 8 time.toUInt64.toNat).length ≤ memory.size) := by
    rw [hlength]
    omega
  have hrefused := write_of_not hout
  rw [hlength] at hrefused
  exact hrefused

theorem timeEffect_timeCall (m : Machine) (out : Word) (time : Int64) :
    TimeEffect m out time (timeCall m out (m.memory.writeInt64 out time)) := by
  -- The place is outside and nothing is written, or all eight bytes are.
  rcases Nat.lt_or_ge m.memory.size (out.toNat + 8) with hout | hin
  · rw [writeInt64_of_lt hout]
    refine ⟨iff_of_false nofun (Nat.not_le_of_lt hout), rfl, rfl, rfl, nofun, nofun, ?_⟩
    intro _
    exact ⟨rfl, rfl, rfl⟩
  · obtain ⟨memory, hwrite⟩ : ∃ memory, m.memory.writeInt64 out time = .ok memory :=
      ⟨_, write_eq_ok.2 ⟨by simp, by simpa using hin, rfl⟩⟩
    have hbyte := byte_of_write hwrite
    rw [toNat_toUInt64] at hbyte
    obtain ⟨-, -, hmemory⟩ := write_eq_ok.1 hwrite
    rw [hwrite]
    refine ⟨iff_of_true rfl hin, rfl, size_of_write hwrite, ?_, fun _ => hbyte,
      fun _ => int64_of_writeInt64 hwrite, fun hne => absurd rfl hne⟩
    rw [hmemory]
    exact maxPages_setSlice _ _ _

/-- From the point where the time has been asked for. -/
theorem run_written (m : Machine) (out : Word) (written : Except HostCallError Memory) :
    ((do
      let memory ← HostCall.ofExcept written
      set { m with memory }
      pure .ok : HostCall Status).run.run m).bind (conclusion .currentTime) =
        (timeCall m out written).rest := by
  cases written with
  | ok memory =>
    rw [run_ofExcept_ok rfl, run_set_bind]
    exact conclusion_of_shown ⟨.currentTime out, m, [], .ok .ok, { m with memory }⟩
  | error error =>
    rw [run_ofExcept_error rfl]
    exact conclusion_of_shown ⟨.currentTime out, m, [], .error error, m⟩

/-- A `currentTime` asks for the time even if there is no place for it. -/
theorem currentTime_effect (hm : m.InCall) (malloc : Allocator) (out : Word) :
    (answer malloc (.currentTime out)).run m =
      .mark (.began (.currentTime out) m) fun _ =>
        .readClock fun time => (timeCall m out (m.memory.writeInt64 out time)).rest := by
  rw [run_answer, perform, currentTime, run_resolved_bind, if_pos hm.exports, run_readClock_bind,
    Run.bind]
  congr 1
  funext _
  congr 1
  funext time
  rw [run_get_bind]
  exact run_written m out (m.memory.writeInt64 out time)

end CurrentTime

/-! ## All three -/

/-- The effects of the three host calls that need no allocator, whatever their arguments and the
memory of the guest: `putField` changes at most one field of the event, and reports the first thing
that is wrong; `log` changes nothing; and `currentTime` changes the eight bytes that it is given,
whatever the time, or nothing. -/
theorem hostCall_effects {m : Machine} (hm : m.InCall) :
    (∀ keyPtr keyLen valuePtr valueLen, ∃ call, PutEffect m keyPtr keyLen valuePtr valueLen call) ∧
    (∀ level text length, ∃ call, LogEffect m level text length call) ∧
    ∀ out, ∃ call : Int64 → CompletedCall, (∀ time, TimeEffect m out time (call time)) ∧
      ∀ malloc, (answer malloc (.currentTime out)).run m =
        .mark (.began (.currentTime out) m) fun _ => .readClock fun time => (call time).rest := by
  refine ⟨putField_effect hm, log_effect m, ?_⟩
  intro out
  exact ⟨fun time => timeCall m out (m.memory.writeInt64 out time), timeEffect_timeCall m out,
    fun malloc => currentTime_effect hm malloc out⟩

/-- A guest in a call, with one page of memory. -/
def Machine.onePage : Machine :=
  (Session.small { malloc := .steps [], process := .steps [] } none).begin [("k", .null)]
    ⟨none, none⟩

/-- A time is written to the last eight bytes of the page, and is refused one byte further on. A
text of no bytes at the very end of the page is read, but is no value. -/
theorem hostCall_effects_onePage :
    Machine.onePage.InCall ∧
    (∃ call, PutEffect .onePage 0 0 65536 0 call ∧ call.status = .invalidArgument ∧
      call.after = .onePage) ∧
    (∃ call, LogEffect .onePage 7 0xFFFFFFFF 0xFFFFFFFF call ∧ call.after = .onePage) ∧
    (∃ call, TimeEffect .onePage 65528 (-2) call ∧ call.status = .ok ∧
      call.after.memory.int64 65528 = -2) ∧
    ∃ call, TimeEffect .onePage 65529 (-2) call ∧ call.status = .invalidArgument := by
  have hm : Machine.onePage.InCall := ⟨rfl, rfl⟩
  have hsize : Machine.onePage.memory.size = 65536 := by decide +kernel
  obtain ⟨hput, hlog, htime⟩ := hostCall_effects hm
  refine ⟨hm, ?_, ?_, ?_, ?_⟩
  · obtain ⟨call, hcall⟩ := hput 0 0 65536 0
    -- The empty text is no value.
    have hno : call.status ≠ .ok := by
      intro hok
      obtain ⟨key, value, -, bytes, hbytes, hvalue⟩ := hcall.ok.1 hok
      obtain rfl : bytes = [] := hbytes.2.symm
      cases hvalue
    exact ⟨call, hcall, (hcall.refused hno).1, (hcall.refused hno).2.1⟩
  · obtain ⟨call, hcall⟩ := hlog 7 0xFFFFFFFF 0xFFFFFFFF
    exact ⟨call, hcall, hcall.unchanged⟩
  · -- There is room for eight bytes before the end of the memory,
    obtain ⟨call, hcall, -⟩ := htime 65528
    have hok : (call (-2)).status = .ok := by
      rw [(hcall (-2)).ok, hsize]
      decide
    exact ⟨call (-2), hcall (-2), hok, (hcall (-2)).readBack hok⟩
  · -- and one byte further there is not.
    obtain ⟨call, hcall, -⟩ := htime 65529
    have hno : (call (-2)).status ≠ .ok := by
      rw [Ne, (hcall (-2)).ok, hsize]
      decide
    exact ⟨call (-2), hcall (-2), ((hcall (-2)).refused hno).1⟩

end EventSandbox
