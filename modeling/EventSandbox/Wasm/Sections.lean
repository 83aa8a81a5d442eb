import EventSandbox.Wasm.Code

/-!
# EventSandbox.Wasm.Sections — what the sections of a module say of a guest

Each section lists things of one kind, and a section that is not there lists none. Read here are
the sections of guests that import nothing and have no start function: types, functions, a memory,
globals, exports, code and data.
-/

namespace EventSandbox.Wasm

/-- Whether the parts of a guest fit together: no name is exported twice, and the memory's bounds
are in order and in reach. -/
def isValid (g : Guest) : Bool :=
  g.exportNames.eraseDups.length = g.exportNames.length
    && g.minPages ≤ g.maxPages?.getD maxAddressablePages
    && g.maxPages?.getD maxAddressablePages ≤ maxAddressablePages

/-! ## Entries -/

/-- What can be exported under a name. -/
inductive Exported
  | function (index : Nat)
  | memory
  | global
deriving DecidableEq, Repr

/-- A part of the initial data. -/
inductive Segment
  /-- Copied into the memory when the guest is instantiated, and then dropped. -/
  | active (offset : Word) (bytes : Bytes)
  | passive (bytes : Bytes)
deriving DecidableEq, Repr

/-- What is left of a segment when the guest is instantiated. -/
def Segment.remainder : Segment → Bytes
  | active _ _ => []
  | passive bytes => bytes

/-- The place and bytes of a segment that is copied. -/
def Segment.copied? : Segment → Option (Word × Bytes)
  | active offset bytes => some (offset, bytes)
  | passive _ => none

namespace Reader

/-- A certain byte. -/
def expect (expected : UInt8) : Reader Unit := do
  if (← byte) = expected then pure () else failure

def valueType : Reader ValueType := do
  match (← byte).toNat with
  | 0x7F => pure .i32
  | 0x7E => pure .i64
  | 0x7D => pure .f32
  | 0x7C => pure .f64
  | _ => failure

def funcType : Reader FuncType := do
  expect 0x60
  pure ⟨← list valueType, ← list valueType⟩

/-- The bounds of a memory. -/
def limits : Reader (Nat × Option Nat) := do
  match (← byte).toNat with
  | 0 => pure (← number, none)
  | 1 =>
    let least ← number
    pure (least, some (← number))
  | _ => failure

/-- A constant expression. -/
def constant : Reader Word := do
  expect 0x41
  let w ← word
  expect 0x0B
  pure w

/-- A mutable global and its first value. -/
def globalEntry : Reader Word := do
  expect 0x7F
  expect 1
  constant

def name : Reader String := do
  liftM (Utf8.decode? (← counted))

/-- An export of a module that has so many functions and globals, and perhaps a memory. -/
def exportEntry (functions globals : Nat) (memory : Bool) : Reader (String × Exported) := do
  let name ← name
  match (← byte).toNat with
  | 0 => pure (name, .function (← below functions))
  | 2 =>
    let _ ← below memory.toNat
    pure (name, .memory)
  | 3 =>
    let _ ← below globals
    pure (name, .global)
  | _ => failure

def segment (memory : Bool) : Reader Segment := do
  match (← byte).toNat with
  | 0 => if memory then pure (.active (← constant) (← counted)) else failure
  | 1 => pure (.passive (← counted))
  | _ => failure

end Reader

/-! ## Modules -/

/-- The order in which sections come: the number of data segments is given before the code. -/
def sectionOrder : List UInt8 := [1, 3, 5, 6, 7, 12, 10, 11]

/-- A function, still without a name: its body is read in the scope of the module. -/
def functionOf? (scope : Scope) (type : FuncType) (content : Bytes) : Option Export := do
  let argument ←
    if type = .malloc then some true else if type = .process then some false else none
  let steps ← (Reader.body { scope with argument } content.length).whole? content
  pure ⟨"", type, .steps steps⟩

/-- The guest that the sections after a good header describe. -/
def sections? (bytes : Bytes) : Option Guest := do
  let sections ← sectionsOf? bytes.length (bytes.drop 8)
  let entries {α : Type} (id : UInt8) (entry : Reader α) : Option (List α) :=
    entry.list.whole? ((sections.lookup id).getD [0])
  guard ((sections.map Prod.fst).isSublist sectionOrder)
  let types ← entries 1 Reader.funcType
  let functions ← (← entries 3 (Reader.below types.length)).mapM (types[·]?)
  let memories ← entries 5 Reader.limits
  let globals ← entries 6 Reader.globalEntry
  let hasMemory := !memories.isEmpty
  let exports ← entries 7 (Reader.exportEntry functions.length globals.length hasMemory)
  let bodies ← entries 10 Reader.counted
  let segments ← entries 11 (Reader.segment hasMemory)
  let segmentCount? ← (sections.lookup 12).mapM Reader.number.whole?
  guard (memories.length ≤ 1 ∧ globals.length ≤ 4 ∧ bodies.length = functions.length ∧
    segmentCount?.getD segments.length = segments.length)
  let scope : Scope := ⟨false, hasMemory, globals.length, segmentCount?.getD 0⟩
  let compiled ← (functions.zip bodies).mapM fun (type, content) => functionOf? scope type content
  let named (wanted : Exported → Bool) : List String :=
    (exports.filter fun entry => wanted entry.2).map Prod.fst
  let guest : Guest := {
    imports := []
    minPages := (memories.head?.map Prod.fst).getD 0
    maxPages? := memories.head? >>= Prod.snd
    memoryName? := (named (· = .memory)).head?
    globals := Vector.ofFn fun i => globals.getD i 0
    functions := exports.filterMap fun (name, exported) =>
      match exported with
      | .function index => compiled[index]?.map ({ · with name })
      | _ => none
    constants := named (· = .global)
    start? := none
    data := segments.filterMap Segment.copied?
    holdings := { Holdings.none with data := segments.map Segment.remainder } }
  guard (guest.exportNames = exports.map Prod.fst ∧ isValid guest)
  pure guest

end EventSandbox.Wasm
