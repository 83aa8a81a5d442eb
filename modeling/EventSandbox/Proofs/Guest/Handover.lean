import EventSandbox.Proofs.Guest.CleanFailure
import EventSandbox.Proofs.Guest.RoundTrip
import EventSandbox.Proofs.Memory.Text

/-!
# EventSandbox.Proofs.Guest.Handover — what a getField that goes well has written

A `getField` that answers OK has called the guest's allocator once (`CallsOnce`), and then has laid
three things over the memory that the allocator has left: the payload, its address and its length,
in this order. `Handover` says so byte by byte, so that it holds of places that overlap too: the
later of them is seen.
-/

namespace EventSandbox.HostCall

open Memory

variable {malloc : Allocator} {m m' : Machine} {keyPtr keyLen outPtr outLen : Word}

/-! ## The allocator is called once -/

/-- A request calls its allocator once: from the state in which the request begins, for room for so
many bytes. How the request goes on from there does not depend on the allocator any more. -/
def CallsOnce (m : Machine) (request : HostRequest) (length : Word) : Prop :=
  ∃ rest : Except Trap Word × Machine → Run (Word × Machine), ∀ malloc : Allocator,
    (answer malloc request).run m =
      .mark (.began request m) fun _ => ((malloc length).run m).bind rest

theorem callsOnce_getField {key : String} {value : Value} {length : Word}
    (hw : Wants m keyPtr keyLen outPtr outLen key value)
    (hlength : lengthWord? value.toJson.length = some length) :
    CallsOnce m (.getField keyPtr keyLen outPtr outLen) length := by
  obtain ⟨event, hevent, hget⟩ := hw.found
  -- What follows the allocator is left open, and read off below.
  refine ⟨?rest, fun malloc => ?_⟩
  rotate_left
  -- Up to there the call goes the same way whatever the allocator does.
  simp only [answer, Exec.run_bind, Exec.run_get, Exec.run_mark, Run.bind]
  congr 1
  funext _
  simp only [perform, getField, run_resolved_bind, run_get_bind]
  rw [if_pos hw.resolved, run_ofExcept_ok hw.readable]
  simp only [hevent, hget]
  rw [run_ofExcept_ok hw.outPtr, run_ofExcept_ok hw.outLen]
  simp only [deliver, Except.run_bind, run_place, hlength, Run.bind_assoc]
  rfl

/-- An allocator that gave an address was the guest's own function, entered with the length. -/
theorem allocator_eq_ok {depth : Nat} {length address : Word} {left : Machine} {inner : List Label}
    (h : ((Code.allocator depth length).run m).Traced inner (some (.ok address, left))) :
    ∃ depth' exports, depth = depth' + 1 ∧ m.exports? = some exports ∧
      ((Code.enter (Code.allocator depth') exports.malloc length).run.run m).Traced inner
        (some (.ok address, left)) := by
  -- An allocator that gave an address was found among the exports, below the bound of activations.
  cases depth with
  | zero =>
    obtain ⟨-, hend⟩ := Run.traced_done.1 h
    cases hend
  | succ depth =>
    change
      ((ExceptT.mk (Code.allocator (depth + 1) length) : Guarded Word).run.run m).Traced _ _ at h
    rw [Guarded.allocator_succ, Guarded.run_get_bind] at h
    cases hx : m.exports? with
    | none =>
      rw [hx] at h
      obtain ⟨-, hend⟩ := Run.traced_done.1 h
      cases hend
    | some exports =>
      rw [hx] at h
      exact ⟨depth, exports, rfl, rfl, h⟩

/-! ## What it has written -/

/-- What is true of a `getField` that has answered OK: it has found `value` under `key`, and the
guest's allocator, which has shown `inner` and left the state `left`, has given room for its text
at `address`. -/
structure Handover (depth : Nat) (m : Machine) (keyPtr keyLen outPtr outLen : Word)
    (key : String) (value : Value) (length address : Word) (inner : List Label) (left : Machine)
    (trace : List Label) (m' : Machine) : Prop where
  readable : m.memory.Holds keyPtr keyLen (utf8 key)
  found : ∃ event, m.event? = some event ∧ event.get? key = some value
  fits : length.toNat = value.toJson.length
  once : CallsOnce m (.getField keyPtr keyLen outPtr outLen) length
  given : ∃ depth' exports, depth = depth' + 1 ∧ m.exports? = some exports ∧
    ((Code.enter (Code.allocator depth') exports.malloc length).run.run m).Traced inner
      (some (.ok address, left))
  shown : trace = .moment (.began (.getField keyPtr keyLen outPtr outLen) m) ::
    (inner ++ [.record (.fieldRead key value.toJson.length), .moment (.ended .ok m')])
  room : address.toNat + length.toNat ≤ left.memory.size
  /-- All three are laid over the memory that the allocator has left, the length last. -/
  bytes : m'.memory.byte =
    overlay outLen.toNat (littleEndian 4 length.toNat)
      (overlay outPtr.toNat (littleEndian 4 address.toNat)
        (overlay address.toNat value.toJson left.memory.byte))
  size : m'.memory.size = left.memory.size
  /-- Nothing but the memory has changed since the allocator has ended. -/
  others : m' = { left with memory := m'.memory }

theorem handover_of_fetched {depth : Nat} {key : String} {value : Value} {length address : Word}
    {inner trace : List Label} {left : Machine} (hw : Wants m keyPtr keyLen outPtr outLen key value)
    (h : Fetched (Code.allocator depth) m value.toJson outPtr outLen address length inner left m')
    (htrace : trace = .moment (.began (.getField keyPtr keyLen outPtr outLen) m) ::
      (inner ++ [.record (.fieldRead key value.toJson.length), .moment (.ended .ok m')])) :
    Handover depth m keyPtr keyLen outPtr outLen key value length address inner left trace m' := by
  have hlength := lengthWord?_eq_some.2 h.size
  obtain ⟨placed, pointed, done, hwrite, hptr, hlen, hm'⟩ := h.written
  have hmemory : m'.memory = done := by rw [hm']
  have hroom := (write_eq_ok.1 hwrite).2.1
  rw [← h.size] at hroom
  refine ⟨readString_eq_ok.1 hw.readable, hw.found, h.size, callsOnce_getField hw hlength,
    allocator_eq_ok h.given, htrace, hroom, ?_, ?_, ?_⟩
  · rw [hmemory, byte_of_write hlen, byte_of_write hptr, byte_of_write hwrite]
  · rw [hmemory, size_of_write hlen, size_of_write hptr, size_of_write hwrite]
  · rw [hmemory]
    exact hm'

/-- A `getField` that answers OK has found a field of the event and has called the guest's own
allocator once, with the length of the field's text. It has laid the text, its address and its
length over the memory that the allocator has left, and has changed nothing else. The guest always
finds the length, the address if the two words are apart, and the text if all three places are. -/
theorem getField_delivers {depth : Nat} {trace : List Label}
    (h : ((answer (Code.allocator depth) (.getField keyPtr keyLen outPtr outLen)).run m).Traced
      trace (some (Status.ok.code.toUInt32, m'))) :
    ∃ key value length address inner left,
      Handover depth m keyPtr keyLen outPtr outLen key value length address inner left trace m' ∧
      (Machine.load 4 outLen).run.run m' = (.ok length, m') ∧
      ((Range.named outPtr 4).Apart (.named outLen 4) →
        (Machine.load 4 outPtr).run.run m' = (.ok address, m')) ∧
      (List.Pairwise Range.Apart [.named address length, .named outPtr 4, .named outLen 4] →
        m'.memory.Holds address length value.toJson) := by
  obtain ⟨key, value, address, length, inner, left, hw, hfetched, htrace⟩ := fetched_of_ok h
  obtain ⟨hinPtr, hinLen⟩ := hfetched.inBounds
  refine ⟨key, value, length, address, inner, left, handover_of_fetched hw hfetched htrace,
    ?_, ?_, ?_⟩
  · rw [Machine.run_load hinLen, hfetched.word_outLen]
  · intro hout
    rw [Machine.run_load hinPtr, hfetched.word_outPtr hout]
  · intro hapart
    simp only [List.pairwise_cons, List.mem_cons, List.not_mem_nil, or_false, forall_eq_or_imp,
      forall_eq] at hapart
    obtain ⟨⟨hptr, hlen⟩, -⟩ := hapart
    exact read_eq_ok_iff_holds.1 (hfetched.read_payload hptr hlen)

/-- A guest whose allocator gives room that the places for the answer overlap. -/
def crowded : Machine :=
  (Session.small { malloc := .steps [.ret (.const 6)], process := .steps [] } none).begin
    [("", .bool true)] ⟨none, none⟩

/-- The payload is put at 6, its address at 8 and its length at 10: of the payload and of the
address only the first two bytes are left. -/
theorem getField_delivers_crowded :
    ∃ trace m' address inner left,
      ((answer (Code.allocator 1) (.getField 0 0 8 10)).run crowded).Traced trace
        (some (Status.ok.code.toUInt32, m')) ∧
      m'.memory.slice 6 8 = [116, 114, 6, 0, 4, 0, 0, 0] ∧
      Handover 1 crowded 0 0 8 10 "" (.bool true) 4 address inner left trace m' := by
  -- The address is written over the end of the payload, and the length over that of the address.
  have hrun : (((answer (Code.allocator 1) (.getField 0 0 8 10)).run crowded).watch 0).2.map
      (fun last => (last.1, last.2.memory.slice 6 8)) =
        some (Status.ok.code.toUInt32, [116, 114, 6, 0, 4, 0, 0, 0]) := by
    decide +kernel
  obtain ⟨⟨w, m'⟩, hended, hafter⟩ := Option.map_eq_some_iff.1 hrun
  obtain ⟨rfl, hslice⟩ := Prod.mk.inj hafter
  obtain ⟨trace, htrace⟩ := Run.exists_traced_of_watch hended
  obtain ⟨key, value, length, address, inner, left, hover, -⟩ := getField_delivers htrace
  obtain rfl : "" = key :=
    Except.ok.inj ((by decide +kernel : crowded.memory.readString 0 0 = .ok "").symm.trans
      (readString_eq_ok.2 hover.readable))
  obtain ⟨event, hevent, hget⟩ := hover.found
  cases hevent
  cases hget
  obtain rfl : length = 4 := UInt32.toNat_inj.1 hover.fits
  exact ⟨trace, m', address, inner, left, htrace, hslice, hover⟩

end EventSandbox.HostCall
