import EventSandbox.Proofs.Memory.Bytes
import EventSandbox.Proofs.Text.Malformed

/-!
# EventSandbox.Proofs.Memory.Text — what a range of a memory holds

`Memory.Holds` says of a range that it is in bounds and which bytes it has. A range is read exactly
if it holds something, and as text exactly if it holds the UTF-8 of some text. Otherwise it is
refused for being out of bounds, or else for being ill-formed.
-/

namespace EventSandbox.Memory

variable {m : Memory} {address length : UInt32} {bytes : Bytes} {text : String}
  {error : HostCallError}

/-- The range that an address and a length name is in bounds, and these are its bytes. -/
def Holds (m : Memory) (address length : UInt32) (bytes : Bytes) : Prop :=
  address.toNat + length.toNat ≤ m.size ∧ m.slice address.toNat length.toNat = bytes

theorem Holds.unique {bytes' : Bytes} (h : m.Holds address length bytes)
    (h' : m.Holds address length bytes') : bytes = bytes' :=
  h.2.symm.trans h'.2

theorem read_eq_ok_iff_holds :
    m.read address length = .ok bytes ↔ m.Holds address length bytes := by
  rw [read_eq_ok, Holds, eq_comm (a := bytes)]

/-- A range that is in bounds holds its bytes. -/
theorem holds_or_lt (m : Memory) (address length : UInt32) :
    (∃ bytes, m.Holds address length bytes) ∨ m.size < address.toNat + length.toNat := by
  rcases Nat.lt_or_ge m.size (address.toNat + length.toNat) with hout | hin
  · exact .inr hout
  · exact .inl ⟨_, hin, rfl⟩

theorem readString_of_lt (h : m.size < address.toNat + length.toNat) :
    m.readString address length = .error (.memoryAccess address.toNat length.toNat m.size) := by
  unfold readString
  rw [read_of_lt h]
  rfl

theorem readString_of_holds (h : m.Holds address length bytes) :
    m.readString address length =
      match Utf8.decode bytes with
      | .ok chars => .ok (String.ofList chars)
      | .error fault => .error (.invalidUtf8 fault) := by
  unfold readString
  rw [read_eq_ok_iff_holds.2 h]
  rfl

theorem decode_eq_ok_iff_utf8 {chars : List Char} :
    Utf8.decode bytes = .ok chars ↔ bytes = utf8 (String.ofList chars) := by
  rw [Utf8.decode_eq_ok, Utf8.utf8_ofList]

/-- Text is read exactly from the ranges that hold its UTF-8. -/
theorem readString_eq_ok :
    m.readString address length = .ok text ↔ m.Holds address length (utf8 text) := by
  constructor
  · intro h
    -- What is read is in bounds, and it is text or refused.
    rcases holds_or_lt m address length with ⟨bytes, hbytes⟩ | hout
    · rw [readString_of_holds hbytes] at h
      cases hdecode : Utf8.decode bytes with
      | error fault =>
        rw [hdecode] at h
        cases h
      | ok chars =>
        rw [hdecode] at h
        cases h
        rw [← decode_eq_ok_iff_utf8.1 hdecode]
        exact hbytes
    · rw [readString_of_lt hout] at h
      cases h
  · intro h
    have hdecode : Utf8.decode (utf8 text) = .ok text.toList := by
      rw [decode_eq_ok_iff_utf8, String.ofList_toList]
    rw [readString_of_holds h, hdecode]
    simp

end EventSandbox.Memory
