import EventSandbox.Wasm.Sections
import EventSandbox.Wasm.Text

/-!
# EventSandbox.Wasm.Module — compiling a module

A module comes as bytes, as text, or from a source that is read piece by piece and may fail. A
text that starts like a binary module is one. A guest whose program is known is a module as it
stands, if its parts fit together; in its binary form it has a good header, in its text form it is
text.
-/

namespace EventSandbox.Wasm

/-! ## Sources -/

/-- What a module is compiled from. -/
inductive Source
  | bytes (content : Bytes)
  /-- A guest in binary form. -/
  | binary (guest : Guest)
  /-- A guest in text form. -/
  | text (guest : Guest)
deriving Repr

/-! ## Compiling -/

/-- The error of bytes that are no module. -/
def binaryError : ProcessorError := .compilationFailed "Module compilation failed"

/-- The error of a text that is no module. -/
def textError : ProcessorError := .compilationFailed "WAT module compilation failed"

/-- The hash by which modules are told apart. -/
def contentHash (content : Bytes) : String := SipHash.hexWord (SipHash.ofBytes content).toNat

/-- A compiled guest, whose bytes nobody has seen. -/
def compileGuest (guest : Guest) (error : ProcessorError) : Except ProcessorError CompiledModule :=
  if isValid guest then .ok ⟨guest, ""⟩ else .error error

/-- Compiles a source as a binary module. -/
def compileBinary : Source → Except ProcessorError CompiledModule
  | .bytes content =>
    match checkHeader content with
    | .error fault => .error (.compilationFailed fault.message)
    | .ok () =>
      match sections? content with
      | some guest => .ok ⟨guest, contentHash content⟩
      | none => .error binaryError
  | .binary guest => compileGuest guest binaryError
  | .text _ => .error (.compilationFailed HeaderFault.badMagic.message)

/-- The module that a text holds, or the bytes of one that are given as text. -/
def textModule? (content : Bytes) : Option Guest :=
  if content.take 4 = magic then
    match checkHeader content with
    | .ok () => sections? content
    | .error _ => none
  else Utf8.decode? content >>= ofText?

/-- Compiles a source as a module in text form. -/
def compileText : Source → Except ProcessorError CompiledModule
  | .bytes content =>
    match textModule? content with
    | some guest => .ok ⟨guest, contentHash content⟩
    | none => .error textError
  | .binary guest => compileGuest guest textError
  | .text guest => compileGuest guest textError

/-! ## Readers -/

/-- What a reader does when it is asked for more. -/
inductive Chunk
  | bytes (content : Bytes)
  /-- Asks to be tried again. -/
  | interrupted
  | fails (reason : String)
deriving DecidableEq, Repr

/-- Everything that a reader gives, in pieces. -/
def readAll : List Chunk → Except ProcessorError (List Bytes)
  | [] => .ok []
  | .bytes content :: rest => (readAll rest).map (content :: ·)
  | .interrupted :: rest => readAll rest
  | .fails reason :: _ => .error (.io reason)

/-- Compiles what a reader gives as a binary module. It may start with a guest in binary form;
after that, only custom sections keep the module intact. -/
def compileReader (first? : Option Guest) (chunks : List Chunk) :
    Except ProcessorError CompiledModule := do
  let content := (← readAll chunks).flatten
  match first? with
  | some guest =>
    if customOnly content then compileBinary (.binary guest) else .error binaryError
  | none => compileBinary (.bytes content)

end EventSandbox.Wasm
