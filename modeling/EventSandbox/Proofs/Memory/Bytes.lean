import EventSandbox.Memory
import Mathlib.Algebra.Group.Nat.Defs
import Mathlib.Tactic.Common

/-!
# EventSandbox.Proofs.Memory.Bytes — a memory, byte by byte

What a write does is said by index: inside the range it wrote, the new bytes are found, outside of
it the old ones (`byte_setSlice`), and the size is never touched. Everything about ranges that
overlap, or do not, follows from that.
-/

namespace EventSandbox.Memory

variable {m : Memory} {start : Nat}

/-! ## Sizes -/

@[simp] theorem pageCount_setByte (m : Memory) (i : Nat) (b : UInt8) :
    (m.setByte i b).pageCount = m.pageCount := by
  simp [pageCount, setByte]

@[simp] theorem maxPages_setByte (m : Memory) (i : Nat) (b : UInt8) :
    (m.setByte i b).maxPages = m.maxPages := rfl

@[simp] theorem pageCount_setSlice (m : Memory) (start : Nat) (bytes : Bytes) :
    (m.setSlice start bytes).pageCount = m.pageCount := by
  induction bytes generalizing m start with
  | nil => rfl
  | cons b rest ih => simp [setSlice, ih]

@[simp] theorem maxPages_setSlice (m : Memory) (start : Nat) (bytes : Bytes) :
    (m.setSlice start bytes).maxPages = m.maxPages := by
  induction bytes generalizing m start with
  | nil => rfl
  | cons b rest ih => simp [setSlice, ih]

@[simp] theorem pageCount_fill (m : Memory) (start : Nat) (b : UInt8) (length : Nat) :
    (m.fill start b length).pageCount = m.pageCount := by
  induction length generalizing m start with
  | zero => rfl
  | succ length ih => simp [fill, ih]

@[simp] theorem maxPages_fill (m : Memory) (start : Nat) (b : UInt8) (length : Nat) :
    (m.fill start b length).maxPages = m.maxPages := by
  induction length generalizing m start with
  | zero => rfl
  | succ length ih => simp [fill, ih]

@[simp] theorem size_setByte (m : Memory) (i : Nat) (b : UInt8) :
    (m.setByte i b).size = m.size := by
  simp [size]

@[simp] theorem size_setSlice (m : Memory) (start : Nat) (bytes : Bytes) :
    (m.setSlice start bytes).size = m.size := by
  simp [size]

theorem size_zeros {pages maxPages : Nat} (h : pages ≤ maxPages) :
    (zeros pages maxPages h).size = pages * pageSize := by
  simp [size, pageCount, zeros]

theorem pageCount_of_grow? {m' : Memory} {more : Nat} (h : m.grow? more = some m') :
    m'.pageCount = m.pageCount + more ∧ m'.maxPages = m.maxPages := by
  unfold grow? at h
  split at h
  · cases h
    simp [pageCount]
  · cases h

/-! ## Bytes -/

theorem pageOf_lt_iff {i : Nat} : pageOf i < m.pageCount ↔ i < m.size := by
  unfold pageOf size
  exact Nat.div_lt_iff_lt_mul (by decide)

/-- Two indices with the same page and the same place on it are the same. -/
theorem eq_of_pageOf {i j : Nat} (hpage : pageOf i = pageOf j) (hoffset : offsetOf i = offsetOf j) :
    i = j := by
  have hmod : i % pageSize = j % pageSize := congrArg Fin.val hoffset
  rw [← Nat.div_add_mod i pageSize, ← Nat.div_add_mod j pageSize, hmod]
  congr 1
  exact congrArg _ hpage

theorem Page.get_set (p : Page) (i j : Fin pageSize) (b : UInt8) :
    (p.set i b).get j = if i = j then b else p.get j := by
  have hsize : p.data.data.size = pageSize := p.size_eq
  have hi : i.val < p.data.data.size := by omega
  have hj : j.val < p.data.data.size := by omega
  have hset : j.val < (p.data.data.set i.val b hi).size := by simpa using hj
  show (p.data.data.set i.val b hi)[j.val] = if i = j then b else p.data.data[j.val]
  rw [Array.getElem_set]
  simp only [Fin.ext_iff]

theorem byte_setByte (m : Memory) (i j : Nat) (b : UInt8) :
    (m.setByte i b).byte j = if i = j ∧ i < m.size then b else m.byte j := by
  simp only [byte, setByte, Array.getElem?_modify]
  -- The byte is in the page that is changed or in another one; a page that is missing has no bytes.
  by_cases hpage : pageOf i = pageOf j
  · rw [if_pos hpage]
    cases hj : m.pages[pageOf j]? with
    | none =>
      have hlt : ¬ i < m.size := by
        rw [← pageOf_lt_iff, hpage]
        simpa [pageCount] using hj
      simp [hlt]
    | some page =>
      have hlt : i < m.size := by
        rw [← pageOf_lt_iff, hpage]
        exact (Array.getElem?_eq_some_iff.1 hj).1
      simp only [Option.map_some, Page.get_set, hlt, and_true]
      congr 1
      exact propext ⟨eq_of_pageOf hpage, fun h => h ▸ rfl⟩
  · rw [if_neg hpage, if_neg]
    rintro ⟨rfl, -⟩
    exact hpage rfl

theorem byte_setSlice (bytes : Bytes) (h : start + bytes.length ≤ m.size) (j : Nat) :
    (m.setSlice start bytes).byte j =
      if start ≤ j then bytes.getD (j - start) (m.byte j) else m.byte j := by
  induction bytes generalizing m start with
  | nil => simp [setSlice]
  | cons b rest ih =>
    rw [List.length_cons] at h
    rw [setSlice, ih (by simpa using by omega), byte_setByte]
    have hstart : start < m.size := by omega
    -- The first byte is set before the rest, and the rest does not reach it.
    rcases Nat.lt_trichotomy j start with hj | rfl | hj
    · have h1 : ¬ start + 1 ≤ j := by omega
      have h2 : ¬ start ≤ j := by omega
      have h3 : ¬ start = j := by omega
      simp [h1, h2, h3]
    · have h1 : ¬ j + 1 ≤ j := by omega
      simp [hstart, h1]
    · have h1 : start + 1 ≤ j := by omega
      have h2 : start ≤ j := by omega
      have h3 : ¬ start = j := by omega
      have h4 : j - start = j - (start + 1) + 1 := by omega
      simp [h1, h2, h3, h4]

/-- What is seen at an index once bytes have been laid over a memory from an address on. -/
def overlay (start : Nat) (bytes : Bytes) (old : Nat → UInt8) (i : Nat) : UInt8 :=
  if start ≤ i then bytes.getD (i - start) (old i) else old i

/-- What was laid over a memory is seen where it lies, and what was there before elsewhere. -/
theorem some_overlay (start : Nat) (bytes : Bytes) (old : Nat → UInt8) (i : Nat) :
    some (overlay start bytes old i) =
      if start ≤ i ∧ i < start + bytes.length then bytes[i - start]? else some (old i) := by
  unfold overlay
  -- Below the bytes, among them, or after them.
  by_cases hlow : start ≤ i
  · rw [if_pos hlow, List.getD_eq_getElem?_getD]
    by_cases hhigh : i < start + bytes.length
    · have hlt : i - start < bytes.length := by omega
      rw [if_pos ⟨hlow, hhigh⟩, List.getElem?_eq_getElem hlt]
      rfl
    · have hle : bytes.length ≤ i - start := by omega
      rw [if_neg fun h => hhigh h.2, List.getElem?_eq_none hle]
      rfl
  · rw [if_neg hlow, if_neg fun h => hlow h.1]

/-! ## Ranges -/

@[simp] theorem length_slice (m : Memory) (start length : Nat) :
    (m.slice start length).length = length := by
  simp [slice]

theorem getElem_slice (m : Memory) (start length i : Nat) (h : i < (m.slice start length).length) :
    (m.slice start length)[i] = m.byte (start + i) := by
  simp [slice]

theorem getElem?_slice (m : Memory) (start : Nat) {i length : Nat} (hi : i < length) :
    (m.slice start length)[i]? = some (m.byte (start + i)) := by
  have hlength : i < (m.slice start length).length := by rwa [length_slice]
  rw [List.getElem?_eq_getElem hlength, getElem_slice]

theorem slice_congr {m' : Memory} {length : Nat}
    (h : ∀ i, start ≤ i → i < start + length → m'.byte i = m.byte i) :
    m'.slice start length = m.slice start length := by
  apply List.map_congr_left
  intro i hi
  obtain ⟨hlow, hhigh⟩ := List.mem_range'_1.1 hi
  exact h i hlow hhigh

/-- What was written is read back. -/
theorem slice_setSlice_self (bytes : Bytes) (h : start + bytes.length ≤ m.size) :
    (m.setSlice start bytes).slice start bytes.length = bytes := by
  apply List.ext_getElem (by simp)
  intro i hi hi'
  rw [getElem_slice, byte_setSlice bytes h, if_pos (by omega)]
  simp [hi']

/-- The range that an address and a length name. -/
def Range.named (address length : UInt32) : Range :=
  ⟨address.toNat, address.toNat + length.toNat⟩

/-- Two ranges that share no byte. -/
def Range.Apart (r s : Range) : Prop :=
  ∀ i, ¬ (r.start ≤ i ∧ i < r.stop ∧ s.start ≤ i ∧ i < s.stop)

theorem Range.Apart.symm {r s : Range} (h : r.Apart s) : s.Apart r :=
  fun i ⟨hs, hs', hr, hr'⟩ => h i ⟨hr, hr', hs, hs'⟩

theorem Range.apart_of_le {r s : Range} (h : r.stop ≤ s.start) : r.Apart s := by
  rintro i ⟨-, hr, hs, -⟩
  omega

/-- A range that a write does not meet keeps its bytes. -/
theorem slice_setSlice_of_apart {other length : Nat} (bytes : Bytes)
    (h : start + bytes.length ≤ m.size)
    (hapart : Range.Apart ⟨start, start + bytes.length⟩ ⟨other, other + length⟩) :
    (m.setSlice start bytes).slice other length = m.slice other length := by
  apply slice_congr
  intro i hlow hhigh
  rw [byte_setSlice bytes h]
  split
  -- The index lies past the end of what was written.
  · have hbeyond : bytes.length ≤ i - start := by
      by_contra hlt
      exact hapart i ⟨‹_›, by simp only; omega, hlow, hhigh⟩
    rw [List.getD_eq_getElem?_getD, List.getElem?_eq_none hbeyond]
    rfl
  · rfl

/-! ## Checked access -/

theorem lengthWord?_eq_some {n : Nat} {word : UInt32} :
    lengthWord? n = some word ↔ word.toNat = n := by
  unfold lengthWord?
  constructor
  · intro h
    split at h
    · cases h
      simpa using by omega
    · cases h
  · rintro rfl
    have hlt : word.toNat < 0x100000000 := word.toNat_lt
    simp [hlt]

theorem checkedRange_eq_ok {address length : UInt32} {size : Nat} {range : Range} :
    checkedRange address length size = .ok range ↔
      address.toNat + length.toNat ≤ size ∧
        range = ⟨address.toNat, address.toNat + length.toNat⟩ := by
  by_cases h : address.toNat + length.toNat ≤ size
  · simp [checkedRange, h, eq_comm]
  · simp [checkedRange, h]

theorem checkedSpan_eq_ok {address : UInt32} {length : Nat} {range : Range} :
    m.checkedSpan address length = .ok range ↔
      length < 0x100000000 ∧ address.toNat + length ≤ m.size ∧
        range = ⟨address.toNat, address.toNat + length⟩ := by
  unfold checkedSpan
  -- A length that is no word is refused before the range is looked at.
  cases hw : lengthWord? length with
  | none =>
    have : ¬ length < 0x100000000 := by
      intro hlt
      have hword : lengthWord? length = some (UInt32.ofNat length) :=
        lengthWord?_eq_some.2 (by simpa using hlt)
      rw [hw] at hword
      cases hword
    simp [this]
  | some word =>
    obtain rfl := lengthWord?_eq_some.1 hw
    have := word.toNat_lt
    rw [checkedRange_eq_ok]
    simp [this]

theorem read_eq_ok {address length : UInt32} {bytes : Bytes} :
    m.read address length = .ok bytes ↔
      address.toNat + length.toNat ≤ m.size ∧ bytes = m.slice address.toNat length.toNat := by
  unfold read
  cases h : checkedRange address length m.size with
  | error e =>
    have : ¬ address.toNat + length.toNat ≤ m.size := by
      intro hle
      simp [checkedRange, hle] at h
    simp [this, bind, Except.bind]
  | ok range =>
    obtain ⟨hle, rfl⟩ := checkedRange_eq_ok.1 h
    simp [hle, bind, Except.bind, pure, Except.pure, eq_comm]

theorem write_eq_ok {m' : Memory} {address : UInt32} {bytes : Bytes} :
    m.write address bytes = .ok m' ↔
      bytes.length < 0x100000000 ∧ address.toNat + bytes.length ≤ m.size ∧
        m' = m.setSlice address.toNat bytes := by
  unfold write
  cases h : m.checkedSpan address bytes.length with
  | error e =>
    have : ¬ (bytes.length < 0x100000000 ∧ address.toNat + bytes.length ≤ m.size) := by
      rintro ⟨hlt, hle⟩
      have := checkedSpan_eq_ok.2 ⟨hlt, hle, rfl⟩
      simp [h] at this
    simp [bind, Except.bind]
    tauto
  | ok range =>
    obtain ⟨hlt, hle, rfl⟩ := checkedSpan_eq_ok.1 h
    simp [hlt, hle, bind, Except.bind, pure, Except.pure, eq_comm]

theorem check_eq_ok {address : UInt32} {length : Nat} :
    m.check address length = .ok () ↔
      length < 0x100000000 ∧ address.toNat + length ≤ m.size := by
  unfold check
  cases h : m.checkedSpan address length with
  | error e =>
    constructor
    · intro hok
      cases hok
    · rintro ⟨hlt, hle⟩
      rw [checkedSpan_eq_ok.2 ⟨hlt, hle, rfl⟩] at h
      cases h
  | ok range =>
    obtain ⟨hlt, hle, -⟩ := checkedSpan_eq_ok.1 h
    constructor
    · intro _
      exact ⟨hlt, hle⟩
    · intro _
      rfl

/-- A check is a write without the bytes. -/
theorem check_eq_write (m : Memory) (address : UInt32) (bytes : Bytes) :
    m.check address bytes.length = (m.write address bytes).map fun _ => () := by
  unfold check write
  cases m.checkedSpan address bytes.length with
  | error error => rfl
  | ok range => rfl

theorem read_congr {m' : Memory} {address length : UInt32} (hsize : m'.size = m.size)
    (hslice : m'.slice address.toNat length.toNat = m.slice address.toNat length.toNat) :
    m'.read address length = m.read address length := by
  unfold read
  rw [hsize]
  cases h : checkedRange address length m.size with
  | error e => rfl
  | ok range =>
    obtain ⟨-, rfl⟩ := checkedRange_eq_ok.1 h
    have hlength : address.toNat + length.toNat - address.toNat = length.toNat := by omega
    simp only [bind, Except.bind, hlength, hslice]

theorem readString_congr {m' : Memory} {address length : UInt32} (hsize : m'.size = m.size)
    (hslice : m'.slice address.toNat length.toNat = m.slice address.toNat length.toNat) :
    m'.readString address length = m.readString address length := by
  unfold readString
  rw [read_congr hsize hslice]

section Writes

variable {m' : Memory} {address other length : UInt32} {bytes : Bytes}

theorem size_of_write (h : m.write address bytes = .ok m') : m'.size = m.size := by
  obtain ⟨-, -, rfl⟩ := write_eq_ok.1 h
  exact size_setSlice _ _ _

/-- A write lays its bytes over the memory, and leaves all others. -/
theorem byte_of_write (h : m.write address bytes = .ok m') :
    m'.byte = overlay address.toNat bytes m.byte := by
  obtain ⟨-, hle, rfl⟩ := write_eq_ok.1 h
  funext i
  exact byte_setSlice bytes hle i

theorem slice_of_write (h : m.write address bytes = .ok m')
    (hapart : Range.Apart ⟨address.toNat, address.toNat + bytes.length⟩ (.named other length)) :
    m'.slice other.toNat length.toNat = m.slice other.toNat length.toNat := by
  obtain ⟨-, hle, rfl⟩ := write_eq_ok.1 h
  exact slice_setSlice_of_apart bytes hle hapart

end Writes

/-! ## Refusals

Whatever a memory refuses is out of its bounds, and an invalid argument. -/

section Refused

variable {address length : UInt32} {bytes : Bytes} {count : Nat}

theorem checkedRange_of_lt {size : Nat} (h : size < address.toNat + length.toNat) :
    checkedRange address length size = .error (.memoryAccess address.toNat length.toNat size) :=
  if_neg (Nat.not_le_of_lt h)

theorem read_of_lt (h : m.size < address.toNat + length.toNat) :
    m.read address length = .error (.memoryAccess address.toNat length.toNat m.size) := by
  unfold read
  rw [checkedRange_of_lt h]
  rfl

/-- The length that a refusal reports. One that 32 bits cannot carry has no word of its own. -/
def reported (count : Nat) : Int := if count < 0x100000000 then count else 0x7FFFFFFFFFFFFFFF

theorem checkedSpan_of_not (h : ¬ (count < 0x100000000 ∧ address.toNat + count ≤ m.size)) :
    m.checkedSpan address count =
      .error (.memoryAccess address.toNat (reported count) m.size) := by
  unfold checkedSpan reported
  by_cases hword : count < 0x100000000
  · obtain ⟨word, hsome⟩ : ∃ word, lengthWord? count = some word := ⟨_, if_pos hword⟩
    obtain rfl := lengthWord?_eq_some.1 hsome
    rw [hsome, if_pos hword]
    exact checkedRange_of_lt (by omega)
  · have hnone : lengthWord? count = none := if_neg hword
    rw [hnone, if_neg hword]

theorem write_of_not
    (h : ¬ (bytes.length < 0x100000000 ∧ address.toNat + bytes.length ≤ m.size)) :
    m.write address bytes =
      .error (.memoryAccess address.toNat (reported bytes.length) m.size) := by
  unfold write
  rw [checkedSpan_of_not h]
  rfl

end Refused

theorem status_of_checkedRange {address length : UInt32} {size : Nat} {error : HostCallError}
    (h : checkedRange address length size = .error error) : error.status = .invalidArgument := by
  simp only [checkedRange] at h
  split at h
  · cases h
  · cases h
    rfl

theorem status_of_checkedSpan {address : UInt32} {length : Nat} {error : HostCallError}
    (h : m.checkedSpan address length = .error error) : error.status = .invalidArgument := by
  unfold checkedSpan at h
  split at h
  · exact status_of_checkedRange h
  · cases h
    rfl

/-- A step that cannot fail adds no refusal of its own to the check before it. -/
theorem error_of_bind_pure {α β ε : Type} {x : Except ε α} {f : α → β} {e : ε}
    (h : (x >>= fun a => pure (f a)) = .error e) : x = .error e := by
  cases x with
  | error fault =>
    cases h
    rfl
  | ok a => cases h

theorem status_of_read {address length : UInt32} {error : HostCallError}
    (h : m.read address length = .error error) : error.status = .invalidArgument :=
  status_of_checkedRange (error_of_bind_pure h)

theorem status_of_readString {address length : UInt32} {error : HostCallError}
    (h : m.readString address length = .error error) : error.status = .invalidArgument := by
  unfold readString at h
  cases hread : m.read address length with
  | error fault =>
    rw [hread] at h
    cases h
    exact status_of_read hread
  | ok bytes =>
    simp only [hread, bind, Except.bind] at h
    split at h
    · cases h
    · cases h
      rfl

theorem status_of_check {address : UInt32} {length : Nat} {error : HostCallError}
    (h : m.check address length = .error error) : error.status = .invalidArgument :=
  status_of_checkedSpan (error_of_bind_pure h)

theorem status_of_write {address : UInt32} {bytes : Bytes} {error : HostCallError}
    (h : m.write address bytes = .error error) : error.status = .invalidArgument :=
  status_of_checkedSpan (error_of_bind_pure h)

/-! ## Words -/

@[simp] theorem length_littleEndian (count word : Nat) :
    (littleEndian count word).length = count := by
  induction count generalizing word with
  | zero => rfl
  | succ count ih => simp [littleEndian, ih]

theorem ofLittleEndian_littleEndian (count word : Nat) :
    ofLittleEndian (littleEndian count word) = word % 256 ^ count := by
  induction count generalizing word with
  | zero => simp [littleEndian, ofLittleEndian, Nat.mod_one]
  | succ count ih =>
    have hbyte : (UInt8.ofNat (word % 256)).toNat = word % 256 := by simp
    rw [littleEndian, ofLittleEndian, ih, hbyte, Nat.pow_succ', Nat.mod_mul]

theorem ofLittleEndian_word (word : UInt32) :
    UInt32.ofNat (ofLittleEndian (littleEndian 4 word.toNat)) = word := by
  have := word.toNat_lt
  rw [ofLittleEndian_littleEndian, Nat.mod_eq_of_lt (by omega)]
  simp

theorem slice_of_writeWord {m' : Memory} {address word other length : UInt32}
    (h : m.writeWord address word = .ok m')
    (hapart : (Range.named address 4).Apart (.named other length)) :
    m'.slice other.toNat length.toNat = m.slice other.toNat length.toNat := by
  apply slice_of_write h
  rw [length_littleEndian]
  exact hapart

/-- The word at an address. -/
def word (m : Memory) (address : UInt32) : UInt32 :=
  UInt32.ofNat (ofLittleEndian (m.slice address.toNat 4))

/-- A word that was written is found again. -/
theorem word_of_writeWord {m' : Memory} {address word : UInt32}
    (h : m.writeWord address word = .ok m') : m'.word address = word := by
  obtain ⟨-, hle, rfl⟩ := write_eq_ok.1 h
  have hslice := slice_setSlice_self (littleEndian 4 word.toNat) hle
  rw [length_littleEndian] at hslice
  rw [Memory.word, hslice, ofLittleEndian_word]

/-- The 64-bit integer at an address. -/
def int64 (m : Memory) (address : UInt32) : Int64 :=
  (UInt64.ofNat (ofLittleEndian (m.slice address.toNat 8))).toInt64

/-- The bits of a word make the residue of the integer that they stand for. -/
theorem toNat_eq_toInt_emod {w : Nat} (x : BitVec w) :
    x.toNat = (x.toInt % (2 ^ w : Nat)).toNat := by
  have hlt : (x.toNat : Int) < (2 ^ w : Nat) := Int.ofNat_lt.2 x.isLt
  rw [x.toInt_eq_toNat_bmod, Int.bmod_emod, Int.emod_eq_of_lt (Int.natCast_nonneg _) hlt,
    Int.toNat_natCast]

/-- The two's complement of an integer. -/
theorem toNat_toUInt64 (n : Int64) :
    n.toUInt64.toNat = (n.toInt % 0x10000000000000000).toNat :=
  toNat_eq_toInt_emod n.toBitVec

/-- An integer that was written is found again. -/
theorem int64_of_writeInt64 {m' : Memory} {address : UInt32} {n : Int64}
    (h : m.writeInt64 address n = .ok m') : m'.int64 address = n := by
  obtain ⟨-, hle, rfl⟩ := write_eq_ok.1 h
  have hslice := slice_setSlice_self (littleEndian 8 n.toUInt64.toNat) hle
  rw [length_littleEndian] at hslice
  have hlt : n.toUInt64.toNat < 256 ^ 8 := n.toUInt64.toBitVec.isLt
  rw [int64, hslice, ofLittleEndian_littleEndian, Nat.mod_eq_of_lt hlt, UInt64.ofNat_toNat]
  rfl

end EventSandbox.Memory
