import EventSandbox.Proofs.Guest.RoundTrip
import EventSandbox.Proofs.Json.Depth
import EventSandbox.Proofs.Json.Reread

/-!
# EventSandbox.Proofs.Guest.Floats — doubles on their way through texts

An event with doubles in it does not always come back as it was: reading a double's text rounds on
the way. Its sign is kept, and it comes back as itself if its digits and its power of ten are
doubles; otherwise it may be a few doubles off. This holds of a line that is printed and read back
and of bytes that a guest was given for a field and sets a field to.
-/

namespace EventSandbox

/-- What becomes of a value whose text is read. -/
structure Value.NearlyKept (v : Value) : Prop where
  /-- Each double is replaced, and nothing else, unless the value is nested too deep to be read. -/
  text : Value.ofJson v.toJson = if v.nesting ≤ 127 then .ok v.reread else .error .malformed
  /-- So it is with an event that is printed as a line. -/
  line : ∀ event, v = .object event → (Fields.ofJson v.toJson).toOption =
    if v.nesting ≤ 127 then some (Value.rereadFields event) else none
  /-- And so it is with the bytes of a field that a guest puts. -/
  put : ∀ {malloc : Allocator} {m : Machine} {key : String}
    {keyPtr keyLen valuePtr valueLen : Word} {before : Fields} {trace : List Label}
    {result : Option (Word × Machine)}, m.exports?.isSome →
    m.memory.readString keyPtr keyLen = .ok key →
    m.memory.read valuePtr valueLen = .ok v.toJson → m.event? = some before →
    ((HostCall.answer malloc (.putField keyPtr keyLen valuePtr valueLen)).run m).Traced trace
      result →
    result = some (if v.nesting ≤ 127
      then (Status.ok.code.toUInt32, { m with event? := some (before.insert key v.reread) })
      else (Status.invalidArgument.code.toUInt32, m))
  /-- What replaces a double does not depend on where it stands, and is not far from it. -/
  double : ∀ x : Double, (Value.number (.float x)).reread = .number (.float x.reread) ∧ x.NearlyKept

/-- What becomes of the doubles of a value whose text is read, as a value, as the line of an event
or as what a guest puts. -/
theorem floats_reread {v : Value} (hcanonical : v.Canonical) : v.NearlyKept := by
  have hread : Value.ofJson v.toJson =
      if v.nesting ≤ 127 then .ok v.reread else .error .malformed :=
    Value.ofJson_toJson_reread hcanonical
  refine { text := hread, line := ?line, put := ?put, double := ?double }
  case line =>
    rintro event rfl
    rw [Value.reread] at hread
    exact Fields.toOption_ofJson hread
  case put =>
    intro malloc m key keyPtr keyLen valuePtr valueLen before trace result hx hkey hbytes hevent h
    rw [← HostCall.putField_ends hx hkey hbytes hevent h, hread]
    split_ifs <;> rfl
  case double =>
    intro x
    exact ⟨by rw [Value.reread], x.nearlyKept⟩

/-- The largest double below 2 ^ 53, which is written with one digit too many to be kept. -/
def Double.moved : Double := ⟨false, 0x433FFFFFFFFFFFFF, by decide⟩

/-- The double that is read instead, its neighbour below. -/
def Double.movedTo : Double := ⟨false, 0x433FFFFFFFFFFFFE, by decide⟩

/-- A guest with room at 16, in a call whose event has one field. -/
def copying : Machine :=
  (Session.small { malloc := .steps [.ret (.const 16)], process := .steps [] } none).begin
    [("", .number (.float .moved))] ⟨none, none⟩

open HostCall in
theorem floats_reread_moved :
    Double.moved.reread = .movedTo ∧
    Value.ofJson (Value.number (.float .moved)).toJson = .ok (.number (.float .movedTo)) ∧
    ∃ trace m', ((answer (Code.allocator 1) (.getField 0 0 8 12)).run copying).Traced trace
        (some (Status.ok.code.toUInt32, m')) ∧
      ∀ malloc trace' result, ((answer malloc (.putField 0 1 16 18)).run m').Traced trace' result →
        ∃ m'' after, result = some (Status.ok.code.toUInt32, m'') ∧ m''.event? = some after ∧
          after.get? "\x00" = some (.number (.float .movedTo)) := by
  have hcanonical : (Value.number (.float .moved)).Canonical := trivial
  have hmoved : Double.moved.reread = .movedTo := by decide +kernel
  obtain ⟨hvalue, -, hput, hdouble⟩ := floats_reread hcanonical
  rw [(hdouble .moved).1, hmoved] at hvalue hput
  refine ⟨hmoved, hvalue, ?_⟩
  -- The first call leaves the text of the double at 16.
  have hrun : (((answer (Code.allocator 1) (.getField 0 0 8 12)).run copying).watch 0).2.map
      (fun p => (p.1, p.2.exports?.isSome && p.2.event?.isSome, p.2.memory.readString 0 1,
        p.2.memory.read 16 18)) =
        some (Status.ok.code.toUInt32, true, .ok "\x00",
          .ok (Value.number (.float .moved)).toJson) := by
    decide +kernel
  obtain ⟨⟨w, m'⟩, hended, hafter⟩ := Option.map_eq_some_iff.1 hrun
  obtain ⟨rfl, ⟨hx, hbound⟩, hkey, hbytes⟩ : w = Status.ok.code.toUInt32 ∧
      (m'.exports?.isSome ∧ m'.event?.isSome) ∧ m'.memory.readString 0 1 = .ok "\x00" ∧
      m'.memory.read 16 18 = .ok (Value.number (.float .moved)).toJson := by
    simpa only [Prod.mk.injEq, Bool.and_eq_true] using hafter
  obtain ⟨before, hbefore⟩ := Option.isSome_iff_exists.1 hbound
  have hget := ((answer (Code.allocator 1) (.getField 0 0 8 12)).run copying).traced_watch 0
  rw [hended] at hget
  refine ⟨_, m', hget, fun malloc trace' result h => ?_⟩
  have hend := hput hx hkey hbytes hbefore h
  rw [if_pos (by decide)] at hend
  refine ⟨_, _, hend, rfl, ?_⟩
  rw [Fields.get?_insert, if_pos rfl]

end EventSandbox
