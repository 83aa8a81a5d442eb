import EventSandbox.Processor.Basic
import EventSandbox.Text.SipHash

/-!
# EventSandbox.Wasm.Binary — modules in binary form

A binary module is a header of eight bytes, magic and version, and then sections: a number, and a
content that is preceded by its length. The header is held against its rules first, since most
files that are no modules fail there. Custom sections carry a name and a payload that nobody looks
at.
-/

namespace EventSandbox.Wasm

/-! ## Header -/

/-- The four bytes that every binary module starts with. -/
def magic : Bytes := 0 :: utf8 "asm"

/-- The one version that is supported. -/
def version : Bytes := [1, 0, 0, 0]

/-- What is wrong with a header. -/
inductive HeaderFault
  | tooShort (length : Nat)
  | badMagic
  | badVersion (version : Bytes)
deriving DecidableEq, Repr

/-- A byte in two hexadecimal digits. -/
def hexByte (b : UInt8) : String :=
  String.ofList [Nat.digitChar (b.toNat / 16), Nat.digitChar (b.toNat % 16)]

/-- The wording of a header fault. -/
def HeaderFault.message : HeaderFault → String
  | tooShort length =>
    "not a WebAssembly binary: " ++ toString length ++ " byte(s) is shorter than the header"
  | badMagic => "not a WebAssembly binary: missing \\0asm magic"
  | badVersion version =>
    "unsupported WebAssembly binary version [" ++ ", ".intercalate (version.map hexByte) ++ "]"

/-- Holds a header against its rules: length, magic, version. -/
def checkHeader (bytes : Bytes) : Except HeaderFault Unit :=
  if bytes.length < 8 then .error (.tooShort bytes.length)
  else if bytes.take 4 ≠ magic then .error .badMagic
  else if (bytes.drop 4).take 4 ≠ version then .error (.badVersion ((bytes.drop 4).take 4))
  else .ok ()

/-! ## Reading -/

/-- Reads a part of a module from the bytes that are left of it. -/
abbrev Reader (α : Type) := StateT Bytes Option α

/-- A 32-bit number in at most five groups of seven bits, least significant first. -/
def leb128? : (groups : Nat) → (scale : Nat) → Bytes → Option (Nat × Bytes)
  | 0, _, _ => none
  | _, _, [] => none
  | groups + 1, scale, b :: s =>
    let value := b.toNat % 128 * scale
    if 0x100000000 ≤ value then none
    else if b.toNat < 128 then some (value, s)
    else do
      let (rest, s) ← leb128? groups (scale * 128) s
      pure (value + rest, s)

/-- Splits off a string of bytes that is preceded by its length. -/
def counted? (s : Bytes) : Option (Bytes × Bytes) := do
  let (length, s) ← leb128? 5 1 s
  if length ≤ s.length then pure (s.take length, s.drop length) else none

namespace Reader

/-- The next byte. -/
def byte : Reader UInt8 := fun s =>
  match s with
  | [] => none
  | b :: s => some (b, s)

/-- A number. -/
def number : Reader Nat := leb128? 5 1

/-- A string of bytes. -/
def counted : Reader Bytes := counted?

/-- So many items. -/
def times {α : Type} (item : Reader α) : Nat → Reader (List α)
  | 0 => pure []
  | count + 1 => do
    let first ← item
    let rest ← times item count
    pure (first :: rest)

/-- Items that are preceded by their number. -/
def list {α : Type} (item : Reader α) : Reader (List α) := do times item (← number)

/-- What a reader makes of bytes that it uses up. -/
def whole? {α : Type} (reader : Reader α) (bytes : Bytes) : Option α := do
  let (a, rest) ← reader bytes
  if rest.isEmpty then pure a else none

end Reader

/-! ## Sections -/

/-- The longest name of a section. -/
def maxNameLength : Nat := 100000

/-- Whether the content of a custom section starts with a name. -/
def hasName (content : Bytes) : Bool :=
  match counted? content with
  | some (name, _) => name.length ≤ maxNameLength && (Utf8.decode? name).isSome
  | none => false

/-- The sections of a text, by their numbers, without the custom ones; `limit` bounds how many
there are. -/
def sectionsOf? : (limit : Nat) → Bytes → Option (List (UInt8 × Bytes))
  | _, [] => some []
  | 0, _ => none
  | limit + 1, id :: s => do
    let (content, s) ← counted? s
    let rest ← sectionsOf? limit s
    if id ≠ 0 then pure ((id, content) :: rest)
    else if hasName content then pure rest
    else none

/-- Whether a text of sections holds custom sections only. -/
def customOnly (s : Bytes) : Bool :=
  match sectionsOf? s.length s with
  | some sections => sections.isEmpty
  | none => false

end EventSandbox.Wasm
