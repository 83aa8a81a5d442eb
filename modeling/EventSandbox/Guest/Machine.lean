import EventSandbox.Budget
import EventSandbox.Guest.Program

/-!
# EventSandbox.Guest.Machine — the state of a guest, and its pure steps

The state of a guest holds what survives a call, its memory, its globals and what else the instance
holds, and what belongs to one: the bound event and the meter. `Machine.exports?` is empty until
instantiation has found the guest's allocator and memory.

Expressions and stores change the state and may trap; a trap leaves the state as it was found, and
an access beyond the memory writes nothing.
-/

namespace EventSandbox

/-- What the host calls in a guest, once it is resolved. -/
structure Exports where
  malloc : Code
  process : Code
deriving Repr

/-- The state of a guest. -/
structure Machine where
  memory : Memory
  globals : Vector Word 4
  holdings : Holdings
  /-- The event that is being processed. -/
  event? : Option Fields
  exports? : Option Exports
  meter : Meter

/-- What an activation of a function has of its own. -/
structure Frame where
  argument : Word
  /-- The status of its last host call, 0 at first. -/
  status : Word
deriving DecidableEq, Repr

/-! ## Limits -/

namespace Meter

/-- The meter after some work. -/
def charge (m : Meter) (amount : Nat) : Meter :=
  ⟨m.fuel?.map (· - amount), m.work?.map (· - amount)⟩

/-- The trap that is due when a function is entered or a loop begins a turn. Fuel is looked at
first. -/
def due? (m : Meter) : Option Trap :=
  if m.fuel? = some 0 then some .outOfFuel
  else if m.work? = some 0 then some .interrupted
  else none

/-- The trap that ends an endless loop, if anything does. -/
def spinTrap? (m : Meter) : Option Trap :=
  match m.fuel?, m.work? with
  | some fuel, some work => some (if fuel ≤ work then .outOfFuel else .interrupted)
  | some _, none => some .outOfFuel
  | none, some _ => some .interrupted
  | none, none => none

/-- The meter after an endless loop: the limit that ended it is used up. -/
def spent (m : Meter) : Meter :=
  match m.fuel?, m.work? with
  | some fuel, some work => m.charge (min fuel work)
  | some fuel, none => m.charge fuel
  | none, some work => m.charge work
  | none, none => m

/-- What any step costs. -/
def stepCost : Nat := 10

/-- What it costs to exhaust the call stack. -/
def recursionCost : Nat := 150000

end Meter

/-! ## Expressions -/

/-- A computation on the state of a guest that may trap. -/
abbrev Pure (α : Type) := ExceptT Trap (StateM Machine) α

namespace BinaryOp

/-- The result of an operation. Division is signed and truncates; its one overflow traps. -/
def eval (op : BinaryOp) (a b : Word) : Except Trap Word :=
  let truth (b : Bool) : Word := if b then 1 else 0
  match op with
  | .add => .ok (a + b)
  | .sub => .ok (a - b)
  | .mul => .ok (a * b)
  | .or => .ok (a ||| b)
  | .eq => .ok (truth (a = b))
  | .ne => .ok (truth (a ≠ b))
  | .ltUnsigned => .ok (truth (a < b))
  | .remUnsigned => if b = 0 then .error .integerDivisionByZero else .ok (a % b)
  | .divSigned =>
    if b = 0 then .error .integerDivisionByZero
    else if a = 0x80000000 ∧ b = 0xFFFFFFFF then .error .integerOverflow
    else .ok (a.toInt32 / b.toInt32).toUInt32

end BinaryOp

namespace Machine

/-- Bounds of an access that the guest makes itself. -/
def inBounds (m : Memory) (address : Word) (length : Nat) : Bool := address.toNat + length ≤ m.size

/-- The word of `count` bytes at an address. -/
def load (count : Nat) (address : Word) : Pure Word := do
  let m ← get
  if inBounds m.memory address count then
    pure (UInt32.ofNat (Memory.ofLittleEndian (m.memory.slice address.toNat count)))
  else throw .memoryOutOfBounds

/-- Writes the low `count` bytes of a word. -/
def store (count : Nat) (address value : Word) : Pure Unit := do
  let m ← get
  if inBounds m.memory address count then
    set { m with
      memory := m.memory.setSlice address.toNat (Memory.littleEndian count value.toNat) }
  else throw .memoryOutOfBounds

/-- Sets a range to one byte. -/
def fill (target byte length : Word) : Pure Unit := do
  let m ← get
  if inBounds m.memory target length.toNat then
    set { m with memory := m.memory.fill target.toNat byte.toUInt8 length.toNat }
  else throw .memoryOutOfBounds

/-- Copies a range to another, which may overlap it. -/
def copy (target source length : Word) : Pure Unit := do
  let m ← get
  if inBounds m.memory source length.toNat ∧ inBounds m.memory target length.toNat then
    set { m with
      memory := m.memory.setSlice target.toNat (m.memory.slice source.toNat length.toNat) }
  else throw .memoryOutOfBounds

/-- A part of a segment or table, if it ends in time. -/
def part? {α : Type} (items : List α) (source length : Word) : Option (List α) :=
  if source.toNat + length.toNat ≤ items.length then
    some ((items.drop source.toNat).take length.toNat)
  else none

/-- Copies a part of a data segment into the memory. -/
def initMemory (segment : Nat) (target source length : Word) : Pure Unit := do
  let m ← get
  match part? (m.holdings.data.getD segment []) source length with
  | none => throw .memoryOutOfBounds
  | some bytes =>
    if inBounds m.memory target bytes.length then
      set { m with memory := m.memory.setSlice target.toNat bytes }
    else throw .memoryOutOfBounds

/-- Drops a data segment. -/
def dropData (segment : Nat) : Pure Unit :=
  modify fun m => { m with holdings.data := m.holdings.data.set segment [] }

/-- Overwrites a part of the table, if anything is given to write there. -/
def setTable (target : Word) (items? : Option (List (Option Nat))) : Pure Unit := do
  let m ← get
  match items? with
  | none => throw .tableOutOfBounds
  | some items =>
    let last := target.toNat + items.length
    let table := m.holdings.table
    if last ≤ table.length then
      set { m with holdings.table := table.take target.toNat ++ items ++ table.drop last }
    else throw .tableOutOfBounds

/-- Copies a part of an element segment into the table. -/
def initTable (segment : Nat) (target source length : Word) : Pure Unit := do
  let functions := (← get).holdings.elements.getD segment []
  setTable target ((part? functions source length).map (·.map some))

/-- Copies a part of the table to another, which may overlap it. -/
def copyTable (target source length : Word) : Pure Unit := do
  setTable target (part? (← get).holdings.table source length)

/-- Drops an element segment. -/
def dropElements (segment : Nat) : Pure Unit :=
  modify fun m => { m with holdings.elements := m.holdings.elements.set segment [] }

/-- Grows the memory: the old number of pages, or -1. -/
def grow (pages : Word) : Pure Word := do
  let m ← get
  match m.memory.grow? pages.toNat with
  | some memory =>
    set { m with memory }
    pure (UInt32.ofNat m.memory.pageCount)
  | none => pure 0xFFFFFFFF

/-- Sets a global. -/
def setGlobal (i : Fin 4) (value : Word) : Pure Unit :=
  modify fun m => { m with globals := m.globals.set i value }

end Machine

/-- The value of an expression; operands are evaluated left to right. -/
def Expr.eval (frame : Frame) : Expr → Pure Word
  | .const w => pure w
  | .status => pure frame.status
  | .argument => pure frame.argument
  | .memorySize => do pure (UInt32.ofNat (← get).memory.pageCount)
  | .global i => do pure (← get).globals[i]
  | .grow pages => do Machine.grow (← pages.eval frame)
  | .load32 address => do Machine.load 4 (← address.eval frame)
  | .load8 address => do Machine.load 1 (← address.eval frame)
  | .binary op a b => do
    let x ← a.eval frame
    let y ← b.eval frame
    op.eval x y

end EventSandbox
