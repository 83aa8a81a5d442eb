import EventSandbox.Wasm.Binary

/-!
# EventSandbox.Wasm.Code — the instructions of a function

Instructions leave their results on a stack, where others find them. A guest's steps take their
operands as expressions, so the stack holds expressions while instructions are read, and a step is
complete when an instruction uses the whole stack up. Operands are evaluated in the order in which
they came to the stack.

Read here are functions that run straight through: arithmetic, globals, and the memory with its data
segments.
-/

namespace EventSandbox.Wasm

/-- What a function can refer to. -/
structure Scope where
  /-- Whether the function has an argument. -/
  argument : Bool
  memory : Bool
  globals : Nat
  /-- The number of data segments. -/
  segments : Nat

/-! ## Immediates -/

/-- A signed number in at most five groups of seven bits, least significant first. -/
def signedLeb128? : (groups : Nat) → Bytes → Option (Int × Bytes)
  | 0, _ => none
  | _, [] => none
  | groups + 1, b :: s =>
    let low := b.toNat % 128
    if b.toNat < 128 then some (if low < 64 then (low : Int) else (low : Int) - 128, s)
    else do
      let (rest, s) ← signedLeb128? groups s
      pure (low + 128 * rest, s)

namespace Reader

/-- A word, written as a signed number. -/
def word : Reader Word := do
  let n ← signedLeb128? 5
  if -0x80000000 ≤ n ∧ n < 0x80000000 then pure (UInt32.ofInt n) else failure

/-- A number below a bound. -/
def below (bound : Nat) : Reader Nat := do
  let n ← number
  if n < bound then pure n else failure

/-- One of the globals. -/
def global (scope : Scope) : Reader (Fin 4) := do
  let i ← below scope.globals
  if h : i < 4 then pure ⟨i, h⟩ else failure

/-- The memory: there is only one. -/
def memory (scope : Scope) : Reader Unit := do
  let index ← byte
  if scope.memory ∧ index = 0 then pure () else failure

/-- How the memory is accessed: the alignment that may be relied on, and no offset. -/
def access (scope : Scope) (alignment : Nat) : Reader Unit := do
  let _ ← below (alignment + 1)
  let offset ← number
  if scope.memory ∧ offset = 0 then pure () else failure

/-! ## Instructions -/

/-- The operation of an instruction on two words. -/
def binaryOp? (opcode : Nat) : Option BinaryOp :=
  [(0x46, .eq), (0x47, .ne), (0x49, .ltUnsigned), (0x6A, .add), (0x6B, .sub), (0x6C, .mul),
    (0x6D, .divSigned), (0x70, .remUnsigned), (0x72, .or)].lookup opcode

/-- An instruction that leaves an operand on the stack, the last operand first. -/
def operand (scope : Scope) (opcode : Nat) (stack : List Expr) : Reader (List Expr) := do
  match opcode, stack with
  | 0x20, _ =>
    let index ← number
    if scope.argument ∧ index = 0 then pure (.argument :: stack) else failure
  | 0x23, _ => pure (.global (← global scope) :: stack)
  | 0x28, address :: stack =>
    access scope 2
    pure (.load32 address :: stack)
  | 0x2D, address :: stack =>
    access scope 0
    pure (.load8 address :: stack)
  | 0x3F, _ =>
    memory scope
    pure (.memorySize :: stack)
  | 0x40, pages :: stack =>
    memory scope
    pure (.grow pages :: stack)
  | 0x41, _ => pure (.const (← word) :: stack)
  | _, b :: a :: stack => pure (.binary (← liftM (binaryOp? opcode)) a b :: stack)
  | _, _ => failure

/-- An instruction that uses up the stack. -/
def effect (scope : Scope) (opcode : Nat) (stack : List Expr) : Reader Step := do
  match opcode, stack with
  | 0x1A, [value] => pure (.drop value)
  | 0x24, [value] => pure (.setGlobal (← global scope) value)
  | 0x36, [value, address] =>
    access scope 2
    pure (.store32 address value)
  | 0x3A, [value, address] =>
    access scope 0
    pure (.store8 address value)
  | 0xFC, stack =>
    match ← number, stack with
    | 8, [length, source, target] =>
      let segment ← below scope.segments
      memory scope
      pure (.initMemory segment target source length)
    | 9, [] => pure (.dropData (← below scope.segments))
    | 10, [length, source, target] =>
      memory scope
      memory scope
      pure (.copy target source length)
    | 11, [length, value, target] =>
      memory scope
      pure (.fill target value length)
    | _, _ => failure
  | _, _ => failure

/-- The steps of a function up to its end, where its result is on the stack; `limit` bounds the
number of instructions. -/
def steps (scope : Scope) : (limit : Nat) → (stack : List Expr) → Reader (List Step)
  | 0, _ => failure
  | limit + 1, stack => do
    let opcode := (← byte).toNat
    match opcode, stack with
    | 0x0B, [value] => pure [.ret value]
    | _, _ =>
      match ← optional (operand scope opcode stack) with
      | some stack => steps scope limit stack
      | none =>
        let step ← effect scope opcode stack
        let rest ← steps scope limit []
        pure (step :: rest)

/-- The body of a function without local variables. -/
def body (scope : Scope) (length : Nat) : Reader (List Step) := do
  let _ ← below 1
  steps scope length []

end Reader

end EventSandbox.Wasm
