import EventSandbox.Error

/-!
# EventSandbox.Memory — the guest's linear memory

A memory is an array of bytes that grows by pages of 64 KiB up to a fixed number of them. It is
read and written through three functions, `size`, `byte` and `setByte`; everything else is made of
them.

Guests name places by an address and a length of 32 bits. `checkedRange` is the one place where a
pair of them becomes a range: both are read as unsigned, their sum is taken without wrap-around,
and it may reach the end of the memory but not pass it.
-/

namespace EventSandbox

/-! ## Pages -/

/-- The size of a page. -/
def pageSize : Nat := 65536

/-- The most pages that 32-bit addresses can reach. -/
def maxAddressablePages : Nat := 65536

/-- One page of bytes. -/
structure Page where
  data : ByteArray
  size_eq : data.size = pageSize

namespace Page

/-- A page of zeros. -/
def zero : Page := ⟨⟨Array.replicate pageSize 0⟩, Array.size_replicate⟩

/-- The byte at a place. -/
def get (p : Page) (i : Fin pageSize) : UInt8 :=
  p.data.get i.val (by rw [p.size_eq]; exact i.isLt)

/-- The page with one byte set. -/
def set (p : Page) (i : Fin pageSize) (b : UInt8) : Page :=
  have h : i.val < p.data.size := by rw [p.size_eq]; exact i.isLt
  ⟨p.data.set i.val b h, (Array.size_set h).trans p.size_eq⟩

end Page

/-! ## Memories -/

/-- A memory: its pages and the number of them that it may not pass. -/
structure Memory where
  pages : Array Page
  maxPages : Nat
  size_le : pages.size ≤ maxPages

namespace Memory

/-- The page that a byte lies on. -/
def pageOf (i : Nat) : Nat := i / pageSize

/-- Where on its page a byte lies. -/
def offsetOf (i : Nat) : Fin pageSize := ⟨i % pageSize, Nat.mod_lt i (by decide)⟩

/-- A memory of zeros. -/
def zeros (pages maxPages : Nat) (h : pages ≤ maxPages) : Memory :=
  ⟨Array.replicate pages Page.zero, maxPages, by simpa using h⟩

/-- The number of pages. -/
def pageCount (m : Memory) : Nat := m.pages.size

/-- The number of bytes. -/
def size (m : Memory) : Nat := m.pageCount * pageSize

/-- The byte at an index; zero beyond the end. -/
def byte (m : Memory) (i : Nat) : UInt8 :=
  match m.pages[pageOf i]? with
  | some page => page.get (offsetOf i)
  | none => 0

/-- The memory with one byte set; unchanged if the index is beyond the end. -/
def setByte (m : Memory) (i : Nat) (b : UInt8) : Memory :=
  ⟨m.pages.modify (pageOf i) fun page => page.set (offsetOf i) b, m.maxPages, by
    simpa using m.size_le⟩

/-- The bytes from an index on. -/
def slice (m : Memory) (start length : Nat) : Bytes := (List.range' start length).map m.byte

/-- The memory with bytes set from an index on. -/
def setSlice (m : Memory) (start : Nat) : Bytes → Memory
  | [] => m
  | b :: rest => (m.setByte start b).setSlice (start + 1) rest

/-- The memory with a number of bytes from an index on set to one value. -/
def fill (m : Memory) (start : Nat) (b : UInt8) : (length : Nat) → Memory
  | 0 => m
  | length + 1 => (m.setByte start b).fill (start + 1) b length

/-- The memory with more pages, all zero, unless that would pass its limit. -/
def grow? (m : Memory) (more : Nat) : Option Memory :=
  if h : m.pageCount + more ≤ m.maxPages then
    some ⟨m.pages ++ Array.replicate more Page.zero, m.maxPages, by simpa [pageCount] using h⟩
  else none

/-! ## Checked access -/

/-- A range of indices. -/
structure Range where
  start : Nat
  stop : Nat
deriving DecidableEq, Repr

/-- The range that an address and a length name in a memory of the given size. -/
def checkedRange (address length : UInt32) (size : Nat) : Except HostCallError Range :=
  let start := address.toNat
  let stop := start + length.toNat
  if stop ≤ size then .ok ⟨start, stop⟩ else .error (.memoryAccess start length.toNat size)

/-- The word that gives a length to the guest, if it fits. -/
def lengthWord? (length : Nat) : Option UInt32 :=
  if length < 0x100000000 then some (UInt32.ofNat length) else none

/-- The range that would take bytes of any length, which is refused if it does not fit 32 bits. -/
def checkedSpan (m : Memory) (address : UInt32) (length : Nat) : Except HostCallError Range :=
  match lengthWord? length with
  | some word => checkedRange address word m.size
  | none => .error (.memoryAccess address.toNat 0x7FFFFFFFFFFFFFFF m.size)

/-- The bytes of a range. -/
def read (m : Memory) (address length : UInt32) : Except HostCallError Bytes := do
  let range ← checkedRange address length m.size
  pure (m.slice range.start (range.stop - range.start))

/-- The text of a range. -/
def readString (m : Memory) (address length : UInt32) : Except HostCallError String := do
  let bytes ← m.read address length
  match Utf8.decode bytes with
  | .ok chars => pure (String.ofList chars)
  | .error fault => .error (.invalidUtf8 fault)

/-- Whether bytes of a length could be written at an address. -/
def check (m : Memory) (address : UInt32) (length : Nat) : Except HostCallError Unit := do
  let _ ← m.checkedSpan address length

/-- The memory with bytes written at an address. -/
def write (m : Memory) (address : UInt32) (bytes : Bytes) : Except HostCallError Memory := do
  let range ← m.checkedSpan address bytes.length
  pure (m.setSlice range.start bytes)

/-- The bytes of a word of `count` bytes, least significant first. -/
def littleEndian : (count : Nat) → (word : Nat) → Bytes
  | 0, _ => []
  | count + 1, word => UInt8.ofNat (word % 256) :: littleEndian count (word / 256)

/-- The number whose bytes, least significant first, are given. -/
def ofLittleEndian : Bytes → Nat
  | [] => 0
  | b :: rest => b.toNat + 256 * ofLittleEndian rest

/-- The memory with a 32-bit word written at an address. -/
def writeWord (m : Memory) (address word : UInt32) : Except HostCallError Memory :=
  m.write address (littleEndian 4 word.toNat)

/-- The memory with a 64-bit integer written at an address, in two's complement. -/
def writeInt64 (m : Memory) (address : UInt32) (n : Int64) : Except HostCallError Memory :=
  m.write address (littleEndian 8 n.toUInt64.toNat)

end Memory

end EventSandbox
