/-!
# EventSandbox.Text.Utf8 — bytes as text, strictly and lossily

A byte string is cut into *pieces*: scalar values, ill-formed runs and an unfinished tail. Both
decoders read the same pieces.

1. **Strict**: all pieces must be scalar values; otherwise the first other piece is reported by
   its offset and, unless the input ends inside it, by its length.
2. **Lossy**: every piece that is not a scalar value becomes one U+FFFD.

An ill-formed run is the longest start of a sequence that some scalar value could have, and at
least one byte long; the byte that breaks the sequence starts the next piece.
-/

namespace EventSandbox

/-- A string of bytes. -/
abbrev Bytes := List UInt8

/-- The byte of an ASCII character. -/
def ascii (c : Char) : UInt8 := UInt8.ofNat c.toNat

/-- The UTF-8 encoding of a string. -/
def utf8 (s : String) : Bytes := s.toByteArray.data.toList

namespace Utf8

/-! ## Pieces -/

/-- What a byte string is made of. -/
inductive Piece
  /-- A well-formed sequence. -/
  | scalar (c : Char)
  /-- Bytes that start a sequence which the next byte breaks off. -/
  | illFormed (length : Nat)
  /-- Bytes that start a sequence which the end of the input breaks off. -/
  | unfinished (length : Nat)
deriving DecidableEq, Repr

/-- How many bytes a sequence with this first byte has; 0 if none starts with it. -/
def width (lead : UInt8) : Nat :=
  if lead ≤ 0x7F then 1
  else if 0xC2 ≤ lead ∧ lead ≤ 0xDF then 2
  else if 0xE0 ≤ lead ∧ lead ≤ 0xEF then 3
  else if 0xF0 ≤ lead ∧ lead ≤ 0xF4 then 4
  else 0

/-- A byte that may continue a sequence. -/
def continues (b : UInt8) : Bool := 0x80 ≤ b ∧ b ≤ 0xBF

/-- A byte that may come second: four first bytes narrow the range, so that no overlong form, no
surrogate and nothing above U+10FFFF passes. -/
def seconds (lead b : UInt8) : Bool :=
  if lead = 0xE0 then 0xA0 ≤ b ∧ b ≤ 0xBF
  else if lead = 0xED then 0x80 ≤ b ∧ b ≤ 0x9F
  else if lead = 0xF0 then 0x90 ≤ b ∧ b ≤ 0xBF
  else if lead = 0xF4 then 0x80 ≤ b ∧ b ≤ 0x8F
  else continues b

/-- The scalar value whose first byte carries `lead` and whose other bytes carry six bits each. -/
def assemble (lead : Nat) (rest : Bytes) : Char :=
  Char.ofNat (rest.foldl (fun n b => n * 64 + b.toNat % 64) lead)

/-- Cuts a byte string into pieces; `acc` holds those already found, last first. -/
def scan (acc : List Piece) : Bytes → List Piece
  | [] => acc.reverse
  | a :: s =>
    match width a, s with
    | 1, s => scan (.scalar (assemble a.toNat []) :: acc) s
    | 2, [] => (.unfinished 1 :: acc).reverse
    | 2, b :: t =>
      if seconds a b then scan (.scalar (assemble (a.toNat % 32) [b]) :: acc) t
      else scan (.illFormed 1 :: acc) (b :: t)
    | 3, [] => (.unfinished 1 :: acc).reverse
    | 3, b :: t =>
      if seconds a b then
        match t with
        | [] => (.unfinished 2 :: acc).reverse
        | c :: u =>
          if continues c then scan (.scalar (assemble (a.toNat % 16) [b, c]) :: acc) u
          else scan (.illFormed 2 :: acc) (c :: u)
      else scan (.illFormed 1 :: acc) (b :: t)
    | 4, [] => (.unfinished 1 :: acc).reverse
    | 4, b :: t =>
      if seconds a b then
        match t with
        | [] => (.unfinished 2 :: acc).reverse
        | c :: u =>
          if continues c then
            match u with
            | [] => (.unfinished 3 :: acc).reverse
            | d :: v =>
              if continues d then scan (.scalar (assemble (a.toNat % 8) [b, c, d]) :: acc) v
              else scan (.illFormed 3 :: acc) (d :: v)
          else scan (.illFormed 2 :: acc) (c :: u)
      else scan (.illFormed 1 :: acc) (b :: t)
    | _, s => scan (.illFormed 1 :: acc) s

/-- The pieces of a byte string, first to last. -/
def pieces (bytes : Bytes) : List Piece := scan [] bytes

/-! ## Strict decoding -/

/-- Where a byte string stops being UTF-8. -/
structure Malformed where
  /-- The length of the longest well-formed start. -/
  validUpTo : Nat
  /-- The length of the ill-formed run there; `none` if the input ends inside a sequence. -/
  length? : Option Nat
deriving DecidableEq, Repr

/-- Reads pieces as characters; `acc` holds those read, last first, and `offset` their length. -/
def collect (acc : List Char) (offset : Nat) : List Piece → Except Malformed (List Char)
  | [] => .ok acc.reverse
  | .scalar c :: ps => collect (c :: acc) (offset + c.utf8Size) ps
  | .illFormed n :: _ => .error ⟨offset, some n⟩
  | .unfinished _ :: _ => .error ⟨offset, none⟩

/-- The characters that a byte string encodes, or where it goes wrong. -/
def decode (bytes : Bytes) : Except Malformed (List Char) := collect [] 0 (pieces bytes)

/-- Strict decoding without the position of the fault. -/
def decode? (bytes : Bytes) : Option String :=
  match decode bytes with
  | .ok cs => some (String.ofList cs)
  | .error _ => none

/-- The wording of a malformed sequence. -/
def Malformed.message (m : Malformed) : String :=
  match m.length? with
  | some n =>
    "invalid utf-8 sequence of " ++ toString n ++ " bytes from index " ++ toString m.validUpTo
  | none => "incomplete utf-8 byte sequence from index " ++ toString m.validUpTo

/-! ## Lossy decoding -/

/-- The character that stands for a piece in lossy text. -/
def Piece.char : Piece → Char
  | .scalar c => c
  | .illFormed _ => '\ufffd'
  | .unfinished _ => '\ufffd'

/-- The text of a byte string with one U+FFFD for every piece that is no scalar value. -/
def decodeLossy (bytes : Bytes) : List Char := (pieces bytes).map Piece.char

end Utf8

end EventSandbox
