import EventSandbox.Log
import EventSandbox.Memory

/-!
# EventSandbox.Guest.Program — what a guest is made of

A guest brings functions written as steps over 32-bit words, four global words, one linear memory
with initial data, a table, segments that it may copy from as it runs, and a list of host functions
that it wants to import. Two of its functions matter to the host: `malloc`, which finds room for a
payload, and `process`, which handles an event.
-/

namespace EventSandbox

/-- A 32-bit word of a guest. -/
abbrev Word := UInt32

/-! ## Function types -/

/-- The types of a function's parameters and results. -/
inductive ValueType
  | i32
  | i64
  | f32
  | f64
  /-- Any other type, by name. -/
  | other (name : String)
deriving DecidableEq, Repr

/-- The name of a type. -/
def ValueType.name : ValueType → String
  | i32 => "i32"
  | i64 => "i64"
  | f32 => "f32"
  | f64 => "f64"
  | other name => name

/-- The type with a name. -/
def ValueType.ofName (name : String) : ValueType :=
  ([i32, i64, f32, f64].find? fun t => t.name = name).getD (other name)

/-- The type of a function. -/
structure FuncType where
  params : List ValueType
  results : List ValueType
deriving DecidableEq, Repr

namespace FuncType

/-- A named list of types; nothing for an empty one. -/
def clause (name : String) (types : List ValueType) : String :=
  if types.isEmpty then ""
  else " (" ++ name ++ " " ++ " ".intercalate (types.map ValueType.name) ++ ")"

/-- The text of a function type. -/
def render (t : FuncType) : String :=
  "(func" ++ clause "param" t.params ++ clause "result" t.results ++ ")"

/-- The type of an allocator. -/
def malloc : FuncType := ⟨[.i32], [.i32]⟩

/-- The type of an event handler. -/
def process : FuncType := ⟨[], [.i32]⟩

end FuncType

/-- The type of a host function. -/
def HostFunction.type : HostFunction → FuncType
  | .getField => ⟨[.i32, .i32, .i32, .i32], [.i32]⟩
  | .putField => ⟨[.i32, .i32, .i32, .i32], [.i32]⟩
  | .log => ⟨[.i32, .i32, .i32], [.i32]⟩
  | .currentTime => ⟨[.i32], [.i32]⟩

/-- A host function together with the words that it is called with. -/
inductive HostRequest
  | getField (key keyLength outAddress outLength : Word)
  | putField (key keyLength value valueLength : Word)
  | log (level text textLength : Word)
  | currentTime (out : Word)
deriving DecidableEq, Repr

/-- The function that a request is for. -/
def HostRequest.function : HostRequest → HostFunction
  | .getField .. => .getField
  | .putField .. => .putField
  | .log .. => .log
  | .currentTime .. => .currentTime

/-! ## Steps -/

/-- Arithmetic on two words. Comparisons give 0 or 1. -/
inductive BinaryOp
  | add
  | sub
  | mul
  | or
  | eq
  | ne
  | ltUnsigned
  | remUnsigned
  | divSigned
deriving DecidableEq, Repr

/-- An expression. -/
inductive Expr
  | const (w : Word)
  /-- The status of this activation's last host call. -/
  | status
  /-- The argument of this activation. -/
  | argument
  /-- The number of pages of the memory. -/
  | memorySize
  | global (i : Fin 4)
  /-- Grows the memory; the old number of pages, or -1. -/
  | grow (pages : Expr)
  | load32 (address : Expr)
  | load8 (address : Expr)
  | binary (op : BinaryOp) (a b : Expr)
deriving DecidableEq, Repr

/-- A step of a function. -/
inductive Step
  | getField (key keyLength outAddress outLength : Expr)
  | putField (key keyLength value valueLength : Expr)
  | log (level text textLength : Expr)
  | currentTime (out : Expr)
  | store32 (address value : Expr)
  | store8 (address value : Expr)
  | fill (target byte length : Expr)
  | copy (target source length : Expr)
  /-- Copies a part of a data segment into the memory. -/
  | initMemory (segment : Nat) (target source length : Expr)
  /-- Lets go of a data segment. -/
  | dropData (segment : Nat)
  /-- Copies a part of an element segment into the table. -/
  | initTable (segment : Nat) (target source length : Expr)
  /-- Copies a part of the table to another, which may overlap it. -/
  | copyTable (target source length : Expr)
  /-- Lets go of an element segment. -/
  | dropElements (segment : Nat)
  | setGlobal (i : Fin 4) (value : Expr)
  | drop (value : Expr)
  | branch (condition : Expr) (yes no : List Step)
  /-- Does the body as often as the count says, which is read once. -/
  | loop (count : Expr) (body : List Step)
  | ret (value : Expr)
  | trap
  /-- Calls itself without end. -/
  | recurse
  /-- Loops without end. -/
  | spin
  /-- Loops for a while. -/
  | burn (amount : Nat)
deriving Repr

/-! ## Segments and tables -/

/-- What an instance holds besides its memory and its globals. Functions are named by their numbers
here: a guest may move them about, but makes no call through its table. -/
structure Holdings where
  /-- The passive data segments; nothing is left of one that was dropped. -/
  data : List Bytes
  /-- The passive element segments; nothing is left of one that was dropped. -/
  elements : List (List Nat)
  table : List (Option Nat)
deriving DecidableEq, Repr

/-- The holdings of a guest that has neither segments nor a table. -/
def Holdings.none : Holdings := ⟨[], [], []⟩

/-! ## Modules -/

/-- The body of a guest's function. A function of another type than its place asks for does
nothing but trap. -/
inductive Code
  | steps (body : List Step)
  | trapping (type : FuncType)
deriving Repr

/-- A function that a guest wants to import. -/
structure Import where
  module : String
  name : String
  type : FuncType
deriving DecidableEq, Repr

/-- A function that a guest exports. -/
structure Export where
  name : String
  type : FuncType
  code : Code
deriving Repr

/-- A guest module. -/
structure Guest where
  imports : List Import
  /-- The size of the memory at first, in pages. -/
  minPages : Nat
  /-- The size that the memory may not pass. -/
  maxPages? : Option Nat
  /-- The name under which the memory is exported. -/
  memoryName? : Option String
  globals : Vector Word 4
  /-- The exported functions. -/
  functions : List Export
  /-- The names of exported constants. -/
  constants : List String
  /-- What runs when the guest is instantiated. -/
  start? : Option (List Step)
  /-- Bytes that are copied into the memory before that. -/
  data : List (Word × Bytes)
  /-- The passive segments, and the table as it is at first. -/
  holdings : Holdings := .none
deriving Repr

/-- A module with nothing in it. -/
def Guest.empty : Guest where
  imports := []
  minPages := 0
  maxPages? := none
  memoryName? := none
  globals := #v[0, 0, 0, 0]
  functions := []
  constants := []
  start? := none
  data := []

/-- All names that a guest exports: memory, functions, constants. -/
def Guest.exportNames (g : Guest) : List String :=
  g.memoryName?.toList ++ g.functions.map (·.name) ++ g.constants

/-- An allocator that hands out what lies above global 0 and never takes anything back. -/
def bumpAllocator : List Step :=
  [ .setGlobal 0 (.binary .add (.global 0) .argument),
    .ret (.binary .sub (.global 0) .argument) ]

end EventSandbox
