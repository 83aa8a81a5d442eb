import EventSandbox.Proofs.Guest.Invariant
import EventSandbox.Proofs.Json.Printer

/-!
# EventSandbox.Proofs.Guest.RoundTrip — a field on its way through a guest's memory

A `getField` that goes well overwrites what the allocator has left in three places: the payload,
its address and its length (`Fetched`). If the places are apart, a guest that hands the same
address and length to `putField` sets the field's value under another key, or is refused because
the value is nested too deep to be read (`getField_putField`).
-/

namespace EventSandbox

/-! ## What a `getField` leaves behind -/

namespace HostCall

/-- The allocator has given room for a payload, and the payload, its address and its length have
been written, in this order. `left` is the state in which the allocator ended, `inner` what it
showed. -/
structure Fetched (malloc : Allocator) (m : Machine) (payload : Bytes)
    (outPtr outLen address length : Word) (inner : List Label) (left m' : Machine) : Prop where
  size : length.toNat = payload.length
  given : ((malloc length).run m).Traced inner (some (.ok address, left))
  written : ∃ placed pointed done, left.memory.write address payload = .ok placed ∧
    placed.writeWord outPtr address = .ok pointed ∧ pointed.writeWord outLen length = .ok done ∧
    m' = { left with memory := done }

section

variable {malloc : Allocator} {m m' left : Machine} {outPtr outLen address length : Word}
  {payload : Bytes} {inner : List Label}

/-- There is no other way for a `getField` to go well. -/
theorem fetched_of_ok {keyPtr keyLen : Word} {trace : List Label}
    (h : ((answer malloc (.getField keyPtr keyLen outPtr outLen)).run m).Traced trace
      (some (Status.ok.code.toUInt32, m'))) :
    ∃ key value address length inner left, Wants m keyPtr keyLen outPtr outLen key value ∧
      Fetched malloc m value.toJson outPtr outLen address length inner left m' ∧
      trace = .moment (.began (.getField keyPtr keyLen outPtr outLen) m) ::
        (inner ++ [.record (.fieldRead key value.toJson.length), .moment (.ended .ok m')]) := by
  -- Of the ways of a `getField` only the last ends with this status.
  have hanswered := answered_of_traced h
  generalize hend : some (Status.ok.code.toUInt32, m') = end? at hanswered
  cases hanswered with
  | forever => cases hend
  | @ended inner result last hperformed =>
    obtain ⟨hcode, rfl⟩ := Prod.ext_iff.1 (Option.some.inj hend)
    have hok : outcome result = .ok := eq_of_word hcode.symm
    cases result with
    | error error => exact absurd hok (status_ne_ok error)
    | ok status =>
      obtain rfl : status = .ok := hok
      cases hperformed with
      | getDone hw hlength hmalloc hwrite hptr hlen =>
        refine ⟨_, _, _, _, _, _, hw, ⟨Memory.lengthWord?_eq_some.1 hlength, hmalloc,
          _, _, _, hwrite, hptr, hlen, rfl⟩, ?_⟩
        simp [report, outcome]

/-- What has been written is the field that is known to be there. -/
theorem fetched_of_found {keyPtr keyLen : Word} {trace : List Label} {event : Fields} {key : String}
    {v : Value} (hkey : m.memory.readString keyPtr keyLen = .ok key)
    (hevent : m.event? = some event)
    (hfound : event.get? key = some v)
    (h : ((answer malloc (.getField keyPtr keyLen outPtr outLen)).run m).Traced trace
      (some (Status.ok.code.toUInt32, m'))) :
    ∃ address length inner left, m.exports?.isSome ∧
      Fetched malloc m v.toJson outPtr outLen address length inner left m' ∧
      trace = .moment (.began (.getField keyPtr keyLen outPtr outLen) m) ::
        (inner ++ [.record (.fieldRead key v.toJson.length), .moment (.ended .ok m')]) := by
  obtain ⟨key', v', address, length, inner, left, hw, hfetched, htrace⟩ := fetched_of_ok h
  obtain rfl : key = key' := Except.ok.inj (hkey.symm.trans hw.readable)
  obtain ⟨event', hevent', hfound'⟩ := hw.found
  obtain rfl : event = event' := Option.some.inj (hevent.symm.trans hevent')
  obtain rfl : v = v' := Option.some.inj (hfound.symm.trans hfound')
  exact ⟨address, length, inner, left, hw.resolved, hfetched, htrace⟩

namespace Fetched

open Memory

theorem word_outLen (h : Fetched malloc m payload outPtr outLen address length inner left m') :
    m'.memory.word outLen = length := by
  obtain ⟨_, _, _, _, _, hlen, rfl⟩ := h.written
  exact word_of_writeWord hlen

theorem word_outPtr (h : Fetched malloc m payload outPtr outLen address length inner left m')
    (hout : (Range.named outPtr 4).Apart (Range.named outLen 4)) :
    m'.memory.word outPtr = address := by
  obtain ⟨_, pointed, done, _, hptr, hlen, rfl⟩ := h.written
  have hkept : done.slice outPtr.toNat (4 : Word).toNat =
      pointed.slice outPtr.toNat (4 : Word).toNat := slice_of_writeWord hlen hout.symm
  rw [← word_of_writeWord hptr]
  exact congrArg (fun bytes => UInt32.ofNat (ofLittleEndian bytes)) hkept

/-- The payload is where the guest is told that it is. -/
theorem read_payload (h : Fetched malloc m payload outPtr outLen address length inner left m')
    (hptr : (Range.named address length).Apart (Range.named outPtr 4))
    (hlen : (Range.named address length).Apart (Range.named outLen 4)) :
    m'.memory.read address length = .ok payload := by
  obtain ⟨placed, pointed, done, hwrite, hwptr, hwlen, rfl⟩ := h.written
  have hsize : done.size = left.memory.size := by
    rw [size_of_write hwlen, size_of_write hwptr, size_of_write hwrite]
  -- The two words are written after the payload and do not meet it.
  have hslice : done.slice address.toNat length.toNat =
      placed.slice address.toNat length.toNat := by
    rw [slice_of_writeWord hwlen hlen.symm, slice_of_writeWord hwptr hptr.symm]
  obtain ⟨-, hle, rfl⟩ := write_eq_ok.1 hwrite
  refine read_eq_ok.2 ⟨?_, ?_⟩
  · rw [hsize, h.size]
    exact hle
  · rw [hslice, h.size]
    exact (slice_setSlice_self payload hle).symm

/-- A range apart from all three places is as the allocator left it. -/
theorem readString_other (h : Fetched malloc m payload outPtr outLen address length inner left m')
    {other otherLen : Word}
    (hpayload : (Range.named address length).Apart (Range.named other otherLen))
    (hptr : (Range.named outPtr 4).Apart (Range.named other otherLen))
    (hlen : (Range.named outLen 4).Apart (Range.named other otherLen)) :
    m'.memory.readString other otherLen = left.memory.readString other otherLen := by
  obtain ⟨placed, pointed, done, hwrite, hwptr, hwlen, rfl⟩ := h.written
  apply readString_congr
  · rw [size_of_write hwlen, size_of_write hwptr, size_of_write hwrite]
  · rw [slice_of_writeWord hwlen hlen, slice_of_writeWord hwptr hptr]
    apply slice_of_write hwrite
    rw [← h.size]
    exact hpayload

/-- Both places for the answer can be read. -/
theorem inBounds (h : Fetched malloc m payload outPtr outLen address length inner left m') :
    Machine.inBounds m'.memory outPtr 4 ∧ Machine.inBounds m'.memory outLen 4 := by
  obtain ⟨placed, pointed, done, hwrite, hwptr, hwlen, rfl⟩ := h.written
  obtain ⟨-, hptr, -⟩ := write_eq_ok.1 hwptr
  obtain ⟨-, hlen, -⟩ := write_eq_ok.1 hwlen
  rw [length_littleEndian] at hptr hlen
  have hsize : done.size = pointed.size := size_of_write hwlen
  have hsize' : pointed.size = placed.size := size_of_write hwptr
  unfold Machine.inBounds
  simp only [decide_eq_true_eq]
  omega

/-- The allocator may have put fields, but the event is still bound. -/
theorem inCall {depth : Nat}
    (h : Fetched (Code.allocator depth) m payload outPtr outLen address length inner left m')
    (hm : m.InCall) : m'.InCall := by
  obtain ⟨_, _, _, _, _, _, rfl⟩ := h.written
  -- The host's own writes leave the event alone.
  have hkeeps := Machine.kept_inCall.keeps_rules.allocator depth length m inner _ h.given hm
  have hleft := hkeeps.2 none left rfl
  exact ⟨hleft.event, hleft.exports⟩

end Fetched

end

/-! ## What a `putField` makes of it -/

section

variable {malloc : Allocator} {m : Machine} {key : String} {keyPtr keyLen valuePtr valueLen : Word}
  {bytes : Bytes} {before : Fields} {trace : List Label}

/-- A `putField` whose ranges are in bounds does what its bytes say. -/
theorem putField_ends {end? : Option (Word × Machine)} (hx : m.exports?.isSome)
    (hkey : m.memory.readString keyPtr keyLen = .ok key)
    (hbytes : m.memory.read valuePtr valueLen = .ok bytes) (hevent : m.event? = some before)
    (h : ((answer malloc (.putField keyPtr keyLen valuePtr valueLen)).run m).Traced trace end?) :
    some (match Value.ofJson bytes with
      | .ok value => (Status.ok.code.toUInt32, { m with event? := some (before.insert key value) })
      | .error _ => (Status.invalidArgument.code.toUInt32, m)) = end? := by
  cases answered_of_traced h with
  | forever hperformed => cases hperformed
  | ended hperformed =>
    -- The ranges are in bounds and an event is bound, so only the value can be refused.
    cases hperformed with
    | unresolved _ hnone =>
      rw [hnone] at hx
      cases hx
    | putUnreadable _ hunreadable =>
      rw [hkey, hbytes] at hunreadable
      rcases hunreadable with hno | ⟨_, -, hno⟩ <;> cases hno
    | putUndecodable _ _ hread hvalue =>
      obtain rfl := Except.ok.inj (hbytes.symm.trans hread)
      rw [hvalue]
      rfl
    | putUnbound _ _ _ _ hunbound =>
      rw [hunbound] at hevent
      cases hevent
    | putDone _ hread hread' hvalue hbound =>
      obtain rfl := Except.ok.inj (hkey.symm.trans hread)
      obtain rfl := Except.ok.inj (hbytes.symm.trans hread')
      obtain rfl := Option.some.inj (hevent.symm.trans hbound)
      rw [hvalue]
      rfl

end

end HostCall

theorem Machine.run_load {m : Machine} {address : Word} (h : inBounds m.memory address 4) :
    (load 4 address).run.run m = (.ok (m.memory.word address), m) := by
  rw [load, Pure.run_get_bind, if_pos h]
  rfl

namespace HostCall

/-- The step of a guest that sets a field to what it finds through two places in its memory. -/
def putLoaded (keyPtr keyLen outPtr outLen : Word) : Step :=
  .putField (.const keyPtr) (.const keyLen) (.load32 (.const outPtr)) (.load32 (.const outLen))

theorem run_putLoaded {malloc : Allocator} {frame : Frame} {m : Machine}
    {keyPtr keyLen outPtr outLen : Word} (hptr : Machine.inBounds m.memory outPtr 4)
    (hlen : Machine.inBounds m.memory outLen 4) :
    ((putLoaded keyPtr keyLen outPtr outLen).exec malloc frame).run.run m =
      ((answer malloc (.putField keyPtr keyLen (m.memory.word outPtr)
        (m.memory.word outLen))).run m).bind fun (w, m) => .done (.ok (.next w), m) := by
  -- The operands are evaluated in `m` itself, so the call is made from `m`.
  have hconst (w : Word) : ((Expr.const w).eval frame).run.run m = (.ok w, m) := rfl
  have hload {address : Word} (h : Machine.inBounds m.memory address 4) :
      ((Expr.load32 (.const address)).eval frame).run.run m = (.ok (m.memory.word address), m) := by
    rw [Expr.eval, Pure.run_bind, hconst]
    exact Machine.run_load h
  unfold putLoaded Step.exec
  rw [Guarded.run_ofPure_bind (hconst keyPtr), Guarded.run_ofPure_bind (hconst keyLen),
    Guarded.run_ofPure_bind (hload hptr), Guarded.run_ofPure_bind (hload hlen),
    Guarded.run_called]

/-- A field has been set to a value that was read back, or the value was nested too deep to be
read back and nothing has changed. The status is the guest's. -/
def Landed (v : Value) (key : String) (m : Machine) (status : Status) (m' : Machine) : Prop :=
  if v.nesting ≤ 127 then
    status = .ok ∧ ∃ before after, m.event? = some before ∧
      m' = { m with event? := some after } ∧
      ∀ k, after.get? k = if k = key then some v else before.get? k
  else status = .invalidArgument ∧ m' = m

theorem landed_of_read {malloc : Allocator} {frame : Frame} {m : Machine} {before : Fields}
    {v : Value} {key : String} {keyPtr keyLen outPtr outLen : Word} {trace : List Label}
    {end? : Option (Except Trap Flow × Machine)} (hcanonical : v.Canonical)
    (hintegral : v.Integral) (hx : m.exports?.isSome) (hbefore : m.event? = some before)
    (hptr : Machine.inBounds m.memory outPtr 4) (hlen : Machine.inBounds m.memory outLen 4)
    (hkey : m.memory.readString keyPtr keyLen = .ok key)
    (hbytes : m.memory.read (m.memory.word outPtr) (m.memory.word outLen) = .ok v.toJson)
    (h :
      (((putLoaded keyPtr keyLen outPtr outLen).exec malloc frame).run.run m).Traced trace end?) :
    ∃ status m', end? = some (.ok (.next status.code.toUInt32), m') ∧ Landed v key m status m' := by
  rw [run_putLoaded hptr hlen] at h
  rcases Run.traced_bind.1 h with ⟨⟨w, m'⟩, first, rest, hfirst, hrest, rfl⟩ | ⟨hforever, rfl⟩
  · obtain ⟨rfl, rfl⟩ := Run.traced_done.1 hrest
    have hend := (Option.some.inj (putField_ends hx hkey hbytes hbefore hfirst)).symm
    rw [Value.ofJson_toJson hcanonical hintegral] at hend
    -- The text that was delivered is refused only if it is nested deeper than the reader goes.
    by_cases hdeep : v.nesting ≤ 127
    · rw [if_pos (show v.nesting ≤ Json.maxNesting from hdeep)] at hend
      obtain ⟨rfl, rfl⟩ := Prod.mk.inj hend
      refine ⟨.ok, _, rfl, ?_⟩
      rw [Landed, if_pos hdeep]
      exact ⟨rfl, before, _, hbefore, rfl, Fields.get?_insert before key v⟩
    · rw [if_neg (show ¬ v.nesting ≤ Json.maxNesting from hdeep)] at hend
      obtain ⟨hword, hsame⟩ := Prod.mk.inj hend
      rw [hword, hsame]
      refine ⟨.invalidArgument, m, rfl, ?_⟩
      rw [Landed, if_neg hdeep]
      exact ⟨rfl, rfl⟩
  · cases putField_ends hx hkey hbytes hbefore hforever

/-- A `getField` that went well and gave a field without doubles, in three places that are apart. -/
structure Placed (m : Machine) (keyPtr keyLen outPtr outLen : Word) (key : String) (v : Value)
    (m' : Machine) : Prop where
  readable : m.memory.readString keyPtr keyLen = .ok key
  found : ∃ event, m.event? = some event ∧ event.get? key = some v
  integral : v.Integral
  went : ∃ depth trace, ((answer (Code.allocator depth)
    (.getField keyPtr keyLen outPtr outLen)).run m).Traced trace
      (some (Status.ok.code.toUInt32, m'))
  apart : List.Pairwise Memory.Range.Apart
    [.named (m'.memory.word outPtr) (m'.memory.word outLen), .named outPtr 4, .named outLen 4]

/-- Whoever puts what is found at the two places copies the field, under whichever key, and
whatever the guest has done to its globals and its meter since. -/
def Copied (outPtr outLen : Word) (v : Value) (m : Machine) : Prop :=
  ∀ otherPtr otherLen other, m.memory.readString otherPtr otherLen = .ok other →
    ∀ malloc frame meter globals holdings trace end?,
      (((putLoaded otherPtr otherLen outPtr outLen).exec malloc frame).run.run
        { m with meter, globals, holdings }).Traced trace end? →
      ∃ status m', end? = some (.ok (.next status.code.toUInt32), m') ∧
        Landed v other { m with meter, globals, holdings } status m'

section

variable {m m' : Machine} {key : String} {v : Value} {keyPtr keyLen outPtr outLen : Word}

/-- A field that was placed is copied. -/
theorem Placed.copied (h : Placed m keyPtr keyLen outPtr outLen key v m')
    (hordered : m.Ordered) : Copied outPtr outLen v m' := by
  obtain ⟨hkey, ⟨event, hevent, hfound⟩, hintegral, ⟨depth, trace, hget⟩, hapart⟩ := h
  obtain ⟨address, length, inner, left, hresolved, hfetched, -⟩ :=
    fetched_of_found hkey hevent hfound hget
  simp only [List.pairwise_cons, List.mem_cons, List.not_mem_nil, or_false, forall_eq_or_imp,
    forall_eq] at hapart
  obtain ⟨⟨hptr, hlen⟩, hout, -⟩ := hapart
  intro otherPtr otherLen other hreadable malloc frame meter globals holdings trace' end? hput
  -- The event is bound still, whatever the allocator has put into it.
  obtain ⟨hbound, hx⟩ := hfetched.inCall ⟨by simp [hevent], hresolved⟩
  obtain ⟨before, hbefore⟩ := Option.isSome_iff_exists.1 hbound
  obtain ⟨hinPtr, hinLen⟩ := hfetched.inBounds
  have hcanonical : v.Canonical := Value.canonical_of_get? (hordered event hevent) hfound
  -- The guest loads what the host has written, as the address has not been overwritten.
  have hbytes : m'.memory.read (m'.memory.word outPtr) (m'.memory.word outLen) = .ok v.toJson := by
    rw [hfetched.word_outLen, hfetched.word_outPtr hout] at hptr hlen ⊢
    exact hfetched.read_payload hptr hlen
  exact landed_of_read (m := { m' with meter, globals, holdings }) hcanonical hintegral hx hbefore
    hinPtr hinLen hreadable hbytes hput

/-- So it is wherever a guest calls the host while an event is processed: every step of a call keeps
the fields of the event in order. -/
theorem Placed.copied_in_call {s : Session} {event : Fields} {trace : List Label}
    {ended? : Option Session.Ended} (hevent : (Value.object event).Canonical)
    (hcall : (s.guestProcess event).Traced trace ended?)
    (hbegan : .moment (.began (.getField keyPtr keyLen outPtr outLen) m) ∈ trace)
    (h : Placed m keyPtr keyLen outPtr outLen key v m') : Copied outPtr outLen v m' :=
  h.copied (Session.guestProcess_ordered hevent hcall _ hbegan)

end

/-- A field survives the trip through a guest's memory. Whatever the allocator did and wherever it
made room, if the places for the payload, its address, its length and the other key are apart,
then the other key is as the allocator left it, and a guest that puts under it what it finds at the
two places, though it may have worked on since, copies the field. The order of fields is no
condition on the guest (`Placed.copied_in_call`). -/
theorem getField_putField {depth : Nat} {m m' : Machine} {event : Fields} {key : String} {v : Value}
    {keyPtr keyLen outPtr outLen otherPtr otherLen : Word} {trace : List Label}
    (hevent : m.event? = some event) (hordered : m.Ordered)
    (hkey : m.memory.readString keyPtr keyLen = .ok key) (hfound : event.get? key = some v)
    (hintegral : v.Integral)
    (hget : ((answer (Code.allocator depth) (.getField keyPtr keyLen outPtr outLen)).run m).Traced
      trace (some (Status.ok.code.toUInt32, m')))
    (hapart : List.Pairwise Memory.Range.Apart
      [.named (m'.memory.word outPtr) (m'.memory.word outLen), .named outPtr 4, .named outLen 4,
        .named otherPtr otherLen]) :
    (∃ inner left, ((Code.allocator depth (m'.memory.word outLen)).run m).Traced inner
        (some (.ok (m'.memory.word outPtr), left)) ∧
      trace = .moment (.began (.getField keyPtr keyLen outPtr outLen) m) ::
        (inner ++ [.record (.fieldRead key v.toJson.length), .moment (.ended .ok m')]) ∧
      m'.memory.readString otherPtr otherLen = left.memory.readString otherPtr otherLen) ∧
    ∀ other, m'.memory.readString otherPtr otherLen = .ok other →
      ∀ malloc frame meter globals holdings trace' end?,
        (((putLoaded otherPtr otherLen outPtr outLen).exec malloc frame).run.run
          { m' with meter, globals, holdings }).Traced trace' end? →
        ∃ status m'', end? = some (.ok (.next status.code.toUInt32), m'') ∧
          Landed v other { m' with meter, globals, holdings } status m'' := by
  have hplaced : Placed m keyPtr keyLen outPtr outLen key v m' :=
    { readable := hkey
      found := ⟨event, hevent, hfound⟩
      integral := hintegral
      went := ⟨depth, trace, hget⟩
      apart := hapart.sublist (List.sublist_append_left [_, _, _] [_]) }
  refine ⟨?_, hplaced.copied hordered otherPtr otherLen⟩
  obtain ⟨address, length, inner, left, -, hfetched, htrace⟩ :=
    fetched_of_found hkey hevent hfound hget
  simp only [List.pairwise_cons, List.mem_cons, List.not_mem_nil, or_false, forall_eq_or_imp,
    forall_eq] at hapart
  obtain ⟨⟨hptr, hlen, hother⟩, ⟨hout, hptrOther⟩, hlenOther, -⟩ := hapart
  rw [hfetched.word_outLen, hfetched.word_outPtr hout] at hother ⊢
  exact ⟨inner, left, hfetched.given, htrace,
    hfetched.readString_other hother hptrOther hlenOther⟩

/-- A guest with room at 16, in a call whose event has one field. -/
def roomy : Machine :=
  (Session.small { malloc := .steps [.ret (.const 16)], process := .steps [] } none).begin
    [("", .array [.bool true])] ⟨none, none⟩

theorem getField_putField_roomy :
    ∃ trace m', ((answer (Code.allocator 1) (.getField 0 0 8 12)).run roomy).Traced trace
        (some (Status.ok.code.toUInt32, m')) ∧
      m'.memory.word 8 = 16 ∧ m'.memory.word 12 = 6 ∧
      m'.memory.readString 0 1 = .ok "\x00" ∧
      ∀ malloc frame trace' end?,
        (((putLoaded 0 1 8 12).exec malloc frame).run.run m').Traced trace' end? →
        ∃ m'', end? = some (.ok (.next Status.ok.code.toUInt32), m'') ∧
          ∃ after, m''.event? = some after ∧ after.get? "\x00" = some (.array [.bool true]) := by
  -- The allocator gives 16, which is apart from the places for the answer.
  have hrun : (((answer (Code.allocator 1) (.getField 0 0 8 12)).run roomy).watch 0).2.map
      (fun (w, m') => (w, m'.memory.word 8, m'.memory.word 12, m'.memory.readString 0 1)) =
        some (Status.ok.code.toUInt32, 16, 6, .ok "\x00") := by
    decide +kernel
  obtain ⟨⟨w, m'⟩, hended, hafter⟩ := Option.map_eq_some_iff.1 hrun
  obtain ⟨rfl, hptr, hlen, hother⟩ : w = Status.ok.code.toUInt32 ∧ m'.memory.word 8 = 16 ∧
      m'.memory.word 12 = 6 ∧ m'.memory.readString 0 1 = .ok "\x00" := by
    simpa only [Prod.mk.injEq] using hafter
  have hget := ((answer (Code.allocator 1) (.getField 0 0 8 12)).run roomy).traced_watch 0
  rw [hended] at hget
  have hapart : List.Pairwise Memory.Range.Apart
      [.named (m'.memory.word 8) (m'.memory.word 12), .named 8 4, .named 12 4, .named 0 1] := by
    rw [hptr, hlen]
    have before {a n b k : Word} (h : a.toNat + n.toNat ≤ b.toNat) :
        (Memory.Range.named a n).Apart (.named b k) := Memory.Range.apart_of_le h
    simp only [List.pairwise_cons, List.mem_cons, List.not_mem_nil, or_false, forall_eq_or_imp,
      forall_eq]
    exact ⟨⟨(before (by decide)).symm, (before (by decide)).symm, (before (by decide)).symm⟩,
      ⟨before (by decide), (before (by decide)).symm⟩, (before (by decide)).symm, by simp⟩
  have hordered : roomy.Ordered := by
    rintro _ ⟨⟩
    simp [Value.Canonical, Value.CanonicalFields, Value.CanonicalItems]
  have hintegral : (Value.array [.bool true]).Integral := ⟨trivial, trivial⟩
  have hkey : roomy.memory.readString 0 0 = .ok "" := by decide +kernel
  refine ⟨_, m', hget, hptr, hlen, hother, ?_⟩
  intro malloc frame trace' end? hput
  obtain ⟨status, m'', rfl, hlanded⟩ :=
    (getField_putField rfl hordered hkey rfl hintegral hget hapart).2 _ hother malloc frame
      m'.meter m'.globals m'.holdings trace' end? hput
  rw [Landed, if_pos (by decide)] at hlanded
  obtain ⟨rfl, before, after, -, rfl, hafter⟩ := hlanded
  exact ⟨_, rfl, after, rfl, hafter "\x00"⟩

end HostCall

end EventSandbox
