import EventSandbox.Proofs.Guest.Effects
import EventSandbox.Proofs.Text.Malformed

/-!
# EventSandbox.Proofs.Guest.Messages — one range read as a key and as a message

The guest names a key by a range of its memory, and a message too. Keys are decoded strictly and
messages lossily. `Heard` says how far both agree: on every text, and up to the first fault
elsewhere.
-/

namespace EventSandbox

open Memory Utf8

/-- What the bytes of a range are as a key and, in a `log` of that range, as a message. -/
structure Heard (m : Machine) (level address length : Word) (bytes : Bytes) (message : String) :
    Prop where
  /-- The whole `log`, with its one record. -/
  logged : m.exports?.isSome → ∀ malloc,
    (HostCall.answer malloc (.log level address length)).run m =
      .mark (.began (.log level address length) m) fun _ =>
        CompletedCall.rest ⟨.log level address length, m,
          [.record (.guest (LogLevel.ofNumber level.toInt32) message)], .ok .ok, m⟩
  /-- Exactly the texts are keys. -/
  key : (∃ key, m.memory.readString address length = .ok key) ↔ ∃ text, bytes = utf8 text
  /-- A key has the bytes of the range, and is the message too. -/
  same : ∀ key, m.memory.readString address length = .ok key → utf8 key = bytes ∧ message = key
  /-- What is no key is refused with its first fault; the message has the text before the fault,
  one U+FFFD for it and what lossy decoding makes of the bytes behind it. -/
  refused : ∀ error, m.memory.readString address length = .error error →
    ∃ fault good, error = .invalidUtf8 fault ∧ fault.Fits bytes ∧
      bytes.take fault.validUpTo = utf8 (String.ofList good) ∧
      message.toList = good ++ '\ufffd' :: fault.tail bytes

theorem run_log {m : Machine} {level address length : Word} {bytes : Bytes}
    (hx : m.exports?.isSome) (h : m.memory.Holds address length bytes) (malloc : Allocator) :
    (HostCall.answer malloc (.log level address length)).run m =
      .mark (.began (.log level address length) m) fun _ =>
        CompletedCall.rest ⟨.log level address length, m,
          [.record (.guest (LogLevel.ofNumber level.toInt32) (String.ofList (decodeLossy bytes)))],
          .ok .ok, m⟩ := by
  obtain ⟨exports, hexports⟩ := Option.isSome_iff_exists.1 hx
  have hrecord : HostCall.logRecord m level address length =
      .guest (LogLevel.ofNumber level.toInt32) (String.ofList (decodeLossy bytes)) := by
    simp only [HostCall.logRecord, hexports, read_eq_ok_iff_holds.2 h]
    rfl
  rw [← hrecord]
  exact HostCall.answer_of_shown ⟨.log level address length, m, [.record _], .ok .ok, m⟩ rfl

/-- The strict decoding of keys and the lossy decoding of messages agree, whatever a range of the
guest's memory holds. -/
theorem heard_of_holds {m : Machine} {address length : Word} {bytes : Bytes}
    (h : m.memory.Holds address length bytes) (level : Word) :
    ∃ message, Heard m level address length bytes message := by
  refine ⟨_, fun hx malloc => run_log hx h malloc, ?_, ?_, ?_⟩
  · -- What can be read is text, and text can be read.
    constructor
    · rintro ⟨key, hkey⟩
      exact ⟨key, h.unique (readString_eq_ok.1 hkey)⟩
    · rintro ⟨text, rfl⟩
      exact ⟨text, readString_eq_ok.2 h⟩
  · intro key hkey
    obtain rfl := h.unique (readString_eq_ok.1 hkey)
    refine ⟨rfl, ?_⟩
    rw [utf8_toList, decodeLossy_text, String.ofList_toList]
  · -- Bytes that no text has are cut where the strict reading stops, and the lossy one goes on from
    -- there.
    intro error herror
    have hs (cs : List Char) : bytes ≠ encode cs := by
      intro hcs
      rw [← utf8_ofList] at hcs
      rw [hcs] at h
      cases herror.symm.trans (readString_eq_ok.2 h)
    obtain ⟨fault, good, hdecode, hfits, htake, hlossy⟩ := decode_eq_error hs
    rw [readString_of_holds h, hdecode] at herror
    refine ⟨fault, good, (Except.error.inj herror).symm, hfits, ?_, ?_⟩
    · rw [utf8_ofList, htake]
    · rw [String.toList_ofList, hlossy]

/-- A page that begins with an `a`, the three bytes of a surrogate and two of a euro sign. The key
is refused for the first byte of the surrogate; in the message each of its bytes is a piece, and
the unfinished euro sign is the last one. -/
theorem heard_surrogate :
    let m := { Machine.onePage with
      memory := Machine.onePage.memory.setSlice 0 [0x61, 0xED, 0xA0, 0x80, 0xE2, 0x82] }
    m.memory.readString 0 6 = .error (.invalidUtf8 ⟨1, some 1⟩) ∧
    ∃ message, Heard m 3 0 6 [0x61, 0xED, 0xA0, 0x80, 0xE2, 0x82] message ∧
      message = "a\ufffd\ufffd\ufffd\ufffd" := by
  intro m
  have hin : 6 ≤ Machine.onePage.memory.size := by decide +kernel
  have hholds : m.memory.Holds 0 6 [0x61, 0xED, 0xA0, 0x80, 0xE2, 0x82] := by
    -- The range is in bounds whatever is written into it.
    refine ⟨?_, slice_setSlice_self _ hin⟩
    rw [size_setSlice]
    exact hin
  have hread : m.memory.readString 0 6 = .error (.invalidUtf8 ⟨1, some 1⟩) := by
    rw [readString_of_holds hholds]
    rfl
  obtain ⟨message, hheard⟩ := heard_of_holds hholds 3
  refine ⟨hread, message, hheard, ?_⟩
  obtain ⟨fault, good, herror, -, hgood, hmessage⟩ := hheard.refused _ hread
  cases herror
  have hdecode := decode_eq_ok_iff_utf8.2 hgood
  have hchars : decode [0x61] = .ok ['a'] := by decide
  cases hchars.symm.trans hdecode
  rw [← String.ofList_toList (s := message), hmessage]
  rfl

end EventSandbox
