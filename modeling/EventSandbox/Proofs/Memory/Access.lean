import EventSandbox.Proofs.Memory.Text
import EventSandbox.Proofs.Number.Checked

/-!
# EventSandbox.Proofs.Memory.Access — reading and writing, step by step

A guest hands over addresses and lengths as signed words. An access first finds out which range they
name, in words whose sum might overflow, and then moves the bytes. The step that moves them relies
on the range: beyond the end of the memory, or with more or fewer bytes than the range has room for,
it would break the host off. `Access` is for computations that are written out in such steps. What
one of them has changed stays changed, however it ends.

Written out in this way, the accesses do what `Memory.read`, `Memory.check` and `Memory.write` say
and nothing else (`on_read`, `on_check`, `on_write`): no step breaks off, and a write that is
refused leaves the memory as it was. `access_faithful` says with them what the three come to: a
memory is an array of bytes with checked bounds.
-/

namespace EventSandbox.Memory

variable {m : Memory} {bytes : Bytes} {α β : Type}

/-! ## Signed words -/

/-- The number that the bits of a signed word stand for if none of them is a sign. -/
def unsigned (word : Int32) : Nat := (word.toInt % 0x100000000).toNat

theorem toNat_toUInt32 (word : Int32) : word.toUInt32.toNat = unsigned word :=
  toNat_eq_toInt_emod word.toBitVec

/-- The signed word that carries a length, if 32 bits can. -/
def signedLength? (count : Nat) : Option Int32 := (lengthWord? count).map UInt32.toInt32

/-- The range that two signed words name, added up in 64 bits. -/
def signedRange (address length : Int32) (size : Nat) : Except HostCallError Range :=
  let start := address.toUInt32.toUInt64
  let refusal := HostCallError.memoryAccess start.toNat length.toUInt32.toNat size
  match Checked.add start length.toUInt32.toUInt64 with
  | some stop => if size < stop.toNat then .error refusal else .ok ⟨start.toNat, stop.toNat⟩
  | none => .error refusal

theorem signedRange_eq (address length : Int32) (size : Nat) :
    signedRange address length size =
      checkedRange address.toUInt32 length.toUInt32 size := by
  have haddress := address.toUInt32.toNat_lt
  have hlength := length.toUInt32.toNat_lt
  obtain ⟨stop, hstop⟩ : ∃ stop,
      Checked.add address.toUInt32.toUInt64 length.toUInt32.toUInt64 = some stop := by
    -- Two words of 32 bits do not overflow 64.
    apply Checked.exists_add
    rw [UInt32.toNat_toUInt64, UInt32.toNat_toUInt64]
    omega
  have hsum := Checked.add_eq_some.1 hstop
  rw [UInt32.toNat_toUInt64, UInt32.toNat_toUInt64] at hsum
  simp only [signedRange, checkedRange, hstop, hsum, UInt32.toNat_toUInt64]
  by_cases hin : address.toUInt32.toNat + length.toUInt32.toNat ≤ size
  · rw [if_pos hin, if_neg (Nat.not_lt_of_le hin)]
  · rw [if_neg hin, if_pos (Nat.lt_of_not_le hin)]

/-! ## Steps -/

/-- How an access stops before it is done. -/
inductive Halt
  /-- A check refused it. -/
  | refused (error : HostCallError)
  /-- A step could not be taken, and broke the host off. -/
  | broken
deriving DecidableEq, Repr

/-- A computation on a memory that may stop. -/
abbrev Access := ExceptT Halt (StateM Memory)

namespace Access

/-- How an access of a memory ends, and the memory that it leaves behind. -/
def on (x : Access α) (m : Memory) : Except Halt α × Memory := x.run.run m

/-- Goes on with what a check found. -/
def ofExcept : Except HostCallError α → Access α
  | .ok a => pure a
  | .error error => throw (.refused error)

/-- The bytes of a range, which has to lie in the memory. -/
def load (range : Range) : Access Bytes := do
  let m ← get
  if range.start ≤ range.stop ∧ range.stop ≤ m.size then
    pure (m.slice range.start (range.stop - range.start))
  else throw .broken

/-- Puts bytes in the place of a range, which has to lie in the memory and to be as long. -/
def store (range : Range) (bytes : Bytes) : Access Unit := do
  let m ← get
  if range.start ≤ range.stop ∧ range.stop ≤ m.size ∧ bytes.length = range.stop - range.start then
    set (m.setSlice range.start bytes)
  else throw .broken

/-- The range for a number of bytes. -/
def span (address : Int32) (count : Nat) : Access Range := do
  let m ← get
  match signedLength? count with
  | some length => ofExcept (signedRange address length m.size)
  | none =>
    throw (.refused (.memoryAccess address.toUInt32.toNat 0x7FFFFFFFFFFFFFFF m.size))

/-- The bytes of the range that two signed words name. -/
def read (address length : Int32) : Access Bytes := do
  let m ← get
  let range ← ofExcept (signedRange address length m.size)
  load range

/-- Whether a number of bytes could be written at an address. -/
def check (address : Int32) (count : Nat) : Access Unit := do
  let _ ← span address count

/-- Writes bytes at an address. -/
def write (address : Int32) (bytes : Bytes) : Access Unit := do
  let range ← span address bytes.length
  store range bytes

/-! ## Runs -/

theorem on_bind (x : Access α) (f : α → Access β) (m : Memory) :
    (x >>= f).on m = match x.on m with
      | (.ok a, m') => (f a).on m'
      | (.error halt, m') => (.error halt, m') := by
  unfold on
  simp only [ExceptT.run_bind, StateT.run_bind]
  rcases x.run.run m with ⟨_ | _, m'⟩
  · rfl
  · rfl

theorem on_get_bind (f : Memory → Access β) (m : Memory) : (get >>= f).on m = (f m).on m := rfl

/-- A check changes nothing. -/
theorem on_ofExcept (result : Except HostCallError α) (m : Memory) :
    (ofExcept result).on m = (result.mapError .refused, m) := by
  cases result with
  | ok a => rfl
  | error error => rfl

theorem on_load {range : Range} (hrange : range.start ≤ range.stop) (hstop : range.stop ≤ m.size) :
    (load range).on m = (.ok (m.slice range.start (range.stop - range.start)), m) := by
  unfold load
  rw [on_get_bind, if_pos ⟨hrange, hstop⟩]
  rfl

theorem on_store {range : Range} (hrange : range.start ≤ range.stop) (hstop : range.stop ≤ m.size)
    (hlength : bytes.length = range.stop - range.start) :
    (store range bytes).on m = (.ok (), m.setSlice range.start bytes) := by
  unfold store
  rw [on_get_bind, if_pos ⟨hrange, hstop, hlength⟩]
  rfl

theorem on_span (address : Int32) (count : Nat) (m : Memory) :
    (span address count).on m = ((m.checkedSpan address.toUInt32 count).mapError .refused, m) := by
  unfold span checkedSpan signedLength?
  rw [on_get_bind]
  cases lengthWord? count with
  | none => rfl
  | some word =>
    simp only [Option.map_some]
    rw [on_ofExcept, signedRange_eq, UInt32.toUInt32_toInt32]

theorem on_read (address length : Int32) (m : Memory) :
    (read address length).on m =
      ((m.read address.toUInt32 length.toUInt32).mapError .refused, m) := by
  unfold read Memory.read
  rw [on_get_bind, signedRange_eq, on_bind, on_ofExcept]
  cases h : checkedRange address.toUInt32 length.toUInt32 m.size with
  | error error => rfl
  | ok range =>
    -- The range has been checked for all that `load` relies on.
    obtain ⟨hle, rfl⟩ := checkedRange_eq_ok.1 h
    exact on_load (Nat.le_add_right _ _) hle

theorem on_check (address : Int32) (count : Nat) (m : Memory) :
    (check address count).on m = ((m.check address.toUInt32 count).mapError .refused, m) := by
  unfold check Memory.check
  rw [on_bind, on_span]
  cases m.checkedSpan address.toUInt32 count with
  | error error => rfl
  | ok range => rfl

/-- How a write ends: it is done, or it is refused and the memory is as it was. -/
def settled (m : Memory) : Except HostCallError Memory → Except Halt Unit × Memory
  | .ok m' => (.ok (), m')
  | .error error => (.error (.refused error), m)

theorem mapError_ne_broken (result : Except HostCallError α) :
    result.mapError Halt.refused ≠ .error .broken := by
  cases result with
  | ok a => nofun
  | error error => nofun

theorem settled_ne_broken (m : Memory) (result : Except HostCallError Memory) :
    (settled m result).1 ≠ .error .broken := by
  cases result with
  | ok m' => nofun
  | error error => nofun

theorem settled_unchanged {result : Except HostCallError Memory} {halt : Halt}
    (h : (settled m result).1 = .error halt) : (settled m result).2 = m := by
  cases result with
  | ok m' => cases h
  | error error => rfl

theorem on_write (address : Int32) (bytes : Bytes) (m : Memory) :
    (write address bytes).on m = settled m (m.write address.toUInt32 bytes) := by
  unfold write Memory.write
  rw [on_bind, on_span]
  cases h : m.checkedSpan address.toUInt32 bytes.length with
  | error error => rfl
  | ok range =>
    -- It is as long as the bytes are, since their length was not cut off.
    obtain ⟨-, hle, rfl⟩ := checkedSpan_eq_ok.1 h
    exact on_store (Nat.le_add_right _ _) hle (Nat.add_sub_cancel_left ..).symm

end Access

/-! ## Faithfulness -/

/-- What is true of a read. -/
structure FaithfulRead (m : Memory) (address length : Int32) : Prop where
  ok_iff : (∃ bytes, m.read address.toUInt32 length.toUInt32 = .ok bytes) ↔
    unsigned address + unsigned length ≤ m.size
  found : ∀ {bytes}, m.read address.toUInt32 length.toUInt32 = .ok bytes →
    bytes.length = unsigned length ∧
      ∀ i, i < unsigned length → bytes[i]? = some (m.byte (unsigned address + i))
  refused : ∀ {error}, m.read address.toUInt32 length.toUInt32 = .error error →
    error = .memoryAccess (unsigned address) (unsigned length) m.size
  /-- Step by step it ends in the same way and changes nothing. -/
  steps : (Access.read address length).on m =
    ((m.read address.toUInt32 length.toUInt32).mapError .refused, m)
  unbroken : ((Access.read address length).on m).1 ≠ .error .broken

/-- What is true of a write, and of the check that goes before it. -/
structure FaithfulWrite (m : Memory) (address : Int32) (bytes : Bytes) : Prop where
  ok_iff : (∃ m', m.write address.toUInt32 bytes = .ok m') ↔
    bytes.length < 0x100000000 ∧ unsigned address + bytes.length ≤ m.size
  refused : ∀ {error}, m.write address.toUInt32 bytes = .error error →
    error = .memoryAccess (unsigned address) (reported bytes.length) m.size
  /-- A check ends as the write does. -/
  check : m.check address.toUInt32 bytes.length =
    (m.write address.toUInt32 bytes).map fun _ => ()
  size : ∀ {m'}, m.write address.toUInt32 bytes = .ok m' → m'.size = m.size
  /-- Any range that could be read before can be read after a write. It has the new bytes where
  they were written, and elsewhere the old ones. -/
  readBack : ∀ {m'}, m.write address.toUInt32 bytes = .ok m' →
    ∀ {other length : Int32} {old}, m.read other.toUInt32 length.toUInt32 = .ok old →
      ∃ new, m'.read other.toUInt32 length.toUInt32 = .ok new ∧ new.length = old.length ∧
        ∀ i, i < old.length → new[i]? =
          if unsigned address ≤ unsigned other + i ∧
              unsigned other + i < unsigned address + bytes.length then
            bytes[unsigned other + i - unsigned address]?
          else old[i]?
  /-- Step by step the check ends in the same way and changes nothing. -/
  checkSteps : (Access.check address bytes.length).on m =
    ((m.check address.toUInt32 bytes.length).mapError .refused, m)
  /-- So does the write, but for the memory that it leaves when it is done. -/
  steps : (Access.write address bytes).on m = Access.settled m (m.write address.toUInt32 bytes)
  unbroken : ((Access.write address bytes).on m).1 ≠ .error .broken
  /-- If it stops, for whatever reason, the memory is as it was. -/
  unchanged : ∀ {halt}, ((Access.write address bytes).on m).1 = .error halt →
    ((Access.write address bytes).on m).2 = m

theorem faithfulRead (m : Memory) (address length : Int32) : FaithfulRead m address length := by
  have haddress := toNat_toUInt32 address
  have hlength := toNat_toUInt32 length
  constructor
  case ok_iff =>
    rw [← haddress, ← hlength]
    constructor
    · rintro ⟨bytes, hread⟩
      exact (read_eq_ok.1 hread).1
    · intro hle
      exact ⟨_, read_eq_ok.2 ⟨hle, rfl⟩⟩
  case found =>
    intro bytes hread
    obtain ⟨-, rfl⟩ := read_eq_ok.1 hread
    rw [← haddress, ← hlength]
    constructor
    · exact length_slice _ _ _
    · intro i hi
      exact getElem?_slice m _ hi
  -- A read that is refused has nothing at its range, and then the error is that of the range.
  case refused =>
    intro error hread
    rw [← haddress, ← hlength]
    rcases holds_or_lt m address.toUInt32 length.toUInt32 with ⟨bytes, hbytes⟩ | hout
    · cases (read_eq_ok_iff_holds.2 hbytes).symm.trans hread
    · cases (read_of_lt hout).symm.trans hread
      rfl
  case steps => exact Access.on_read address length m
  case unbroken =>
    rw [Access.on_read]
    exact Access.mapError_ne_broken _

/-- A range that could be read before a write can be read after it. -/
theorem readBack_of_write {m' : Memory} {start other length : UInt32} {old : Bytes}
    (hwrite : m.write start bytes = .ok m') (hold : m.read other length = .ok old) :
    ∃ new, m'.read other length = .ok new ∧ new.length = old.length ∧
      ∀ i, i < old.length → new[i]? =
        if start.toNat ≤ other.toNat + i ∧ other.toNat + i < start.toNat + bytes.length then
          bytes[other.toNat + i - start.toNat]?
        else old[i]? := by
  obtain ⟨hle, rfl⟩ := read_eq_ok.1 hold
  have hsize := size_of_write hwrite
  refine ⟨m'.slice other.toNat length.toNat, read_eq_ok.2 ⟨by omega, rfl⟩, ?_, ?_⟩
  · rw [length_slice, length_slice]
  · intro i hi
    rw [length_slice] at hi
    rw [getElem?_slice m' _ hi, getElem?_slice m _ hi, byte_of_write hwrite, some_overlay]

theorem exists_write (m : Memory) (address : Int32) (bytes : Bytes) :
    (∃ m', m.write address.toUInt32 bytes = .ok m') ↔
      bytes.length < 0x100000000 ∧ unsigned address + bytes.length ≤ m.size := by
  rw [← toNat_toUInt32]
  constructor
  · rintro ⟨m', hwrite⟩
    obtain ⟨hlt, hle, -⟩ := write_eq_ok.1 hwrite
    exact ⟨hlt, hle⟩
  · rintro ⟨hlt, hle⟩
    exact ⟨_, write_eq_ok.2 ⟨hlt, hle, rfl⟩⟩

theorem faithfulWrite (m : Memory) (address : Int32) (bytes : Bytes) :
    FaithfulWrite m address bytes := by
  have haddress := toNat_toUInt32 address
  have hsteps := Access.on_write address bytes m
  constructor
  case ok_iff => exact exists_write m address bytes
  case refused =>
    intro error hwrite
    by_cases hin : bytes.length < 0x100000000 ∧ unsigned address + bytes.length ≤ m.size
    · -- What fits is written.
      obtain ⟨m', hdone⟩ := (exists_write m address bytes).2 hin
      cases hdone.symm.trans hwrite
    · rw [← haddress] at hin ⊢
      cases (write_of_not hin).symm.trans hwrite
      rfl
  case check => exact check_eq_write m _ bytes
  case size => exact size_of_write
  case readBack =>
    intro m' hwrite other length old hold
    rw [← haddress, ← toNat_toUInt32 other]
    exact readBack_of_write hwrite hold
  case checkSteps => exact Access.on_check address bytes.length m
  case steps => exact hsteps
  case unbroken =>
    rw [hsteps]
    exact Access.settled_ne_broken m _
  case unchanged =>
    rw [hsteps]
    exact Access.settled_unchanged

/-- A memory is an array of bytes with checked bounds, whatever its size and whichever words and
bytes an access is given. A range is read or written exactly if it ends within the memory, where
address and length count without a sign and their sum is not cut off; an access that fails reports
them. Bytes too many for 32 bits are refused, wherever they would go. What was written is read back
and all else is as it was, also in ranges that overlap it in part. -/
theorem access_faithful (m : Memory) (address : Int32) :
    (∀ length, FaithfulRead m address length) ∧ ∀ bytes, FaithfulWrite m address bytes :=
  ⟨faithfulRead m address, faithfulWrite m address⟩

/-- On one page, two bytes fit its end, and are seen in a range that begins a byte before them. One
byte further on they are refused. A range of no bytes may lie behind the last byte, and -1 is an
address far behind it. -/
theorem access_faithful_page : ∃ m : Memory, m.size = 65536 ∧
    (∃ m' old new, m.write (65534 : Int32).toUInt32 [1, 2] = .ok m' ∧
      m.read (65533 : Int32).toUInt32 (3 : Int32).toUInt32 = .ok old ∧
      m'.read (65533 : Int32).toUInt32 (3 : Int32).toUInt32 = .ok new ∧
      new.length = 3 ∧ new[0]? = old[0]? ∧ new[1]? = some 1 ∧ new[2]? = some 2) ∧
    (∀ m', m.write (65535 : Int32).toUInt32 [1, 2] ≠ .ok m') ∧
    m.read (65536 : Int32).toUInt32 (0 : Int32).toUInt32 = .ok [] ∧
    ∀ bytes, m.read (-1 : Int32).toUInt32 (1 : Int32).toUInt32 ≠ .ok bytes := by
  -- The write at the last two bytes is read back over one byte before them.
  let m := zeros 1 1 (Nat.le_refl 1)
  have hsize : m.size = 65536 := size_zeros (Nat.le_refl 1)
  have hwrite := (access_faithful m 65534).2 [1, 2]
  have hread := (access_faithful m 65533).1 3
  obtain ⟨m', hm'⟩ := hwrite.ok_iff.2 ⟨by decide, by rw [hsize]; decide⟩
  obtain ⟨old, hold⟩ := hread.ok_iff.2 (by rw [hsize]; decide)
  obtain ⟨hlength, -⟩ := hread.found hold
  obtain ⟨new, hnew, hsame, hbytes⟩ := hwrite.readBack hm' hold
  have hthree : old.length = 3 := hlength
  refine ⟨m, hsize, ⟨m', old, new, hm', hold, hnew, hsame.trans hthree, ?_, ?_, ?_⟩, ?_, ?_, ?_⟩
  · exact hbytes 0 (by omega)
  · exact hbytes 1 (by omega)
  · exact hbytes 2 (by omega)
  · intro m'' hdone
    have hin := (((access_faithful m 65535).2 [1, 2]).ok_iff.1 ⟨m'', hdone⟩).2
    rw [hsize] at hin
    exact absurd hin (by decide)
  · obtain ⟨bytes, hbytes⟩ := ((access_faithful m 65536).1 0).ok_iff.2 (by rw [hsize]; decide)
    obtain ⟨hnone, -⟩ := ((access_faithful m 65536).1 0).found hbytes
    rw [List.eq_nil_of_length_eq_zero hnone] at hbytes
    exact hbytes
  · intro bytes hfound
    have hin := ((access_faithful m (-1)).1 1).ok_iff.1 ⟨bytes, hfound⟩
    rw [hsize] at hin
    exact absurd hin (by decide)

end EventSandbox.Memory
