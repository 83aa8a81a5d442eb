import EventSandbox.Toml.Value

/-!
# EventSandbox.Toml.Text — blanks, comments, strings and keys

Strings come in four forms: with or without escapes, on one line or on many. Control characters
other than the tab stand in none of them, nor in comments.
-/

namespace EventSandbox.Toml

/-! ## Blanks and line ends -/

/-- A blank within a line. -/
def isSpace (c : Char) : Bool := c = ' ' || c = '\t'

/-- The text after blanks within a line. -/
def skipSpace (s : List Char) : List Char := s.dropWhile isSpace

/-- A character that may stand for itself. -/
def isPlain (c : Char) : Bool := c = '\t' || (' ' ≤ c && c ≠ '\x7f')

/-- Reads a line break. -/
def newline? : List Char → Option (List Char)
  | '\n' :: s => some s
  | '\r' :: '\n' :: s => some s
  | _ => none

/-- The text after a comment, if there is one. -/
def skipComment (s : List Char) : List Char :=
  match s with
  | '#' :: t => t.dropWhile isPlain
  | s => s

/-- Reads the rest of a line on which nothing more is said. -/
def endLine? (s : List Char) : Option (List Char) :=
  match skipComment (skipSpace s) with
  | [] => some []
  | s => newline? s

/-- The text after blanks and line breaks; `limit` bounds their number. -/
def skipBreaks : (limit : Nat) → List Char → List Char
  | 0, s => s
  | limit + 1, s =>
    match newline? (skipSpace s) with
    | some t => skipBreaks limit t
    | none => skipSpace s

/-- The text after blanks, comments and line breaks; a comment has to be followed by a line break.
`limit` bounds the number of lines. -/
def skipLines? : (limit : Nat) → List Char → Option (List Char)
  | 0, _ => none
  | limit + 1, s =>
    let s := skipSpace s
    match s with
    | c :: _ =>
      if c = '#' ∨ c = '\n' ∨ c = '\r' then newline? (skipComment s) >>= skipLines? limit
      else some s
    | [] => some []

/-! ## Strings -/

/-- Reads exactly `count` hexadecimal digits. -/
def hex? : (count : Nat) → (acc : Nat) → List Char → Option (Nat × List Char)
  | 0, acc, s => some (acc, s)
  | count + 1, acc, c :: s => if isHexDigit c then hex? count (acc * 16 + digitValue c) s else none
  | _ + 1, _, [] => none

/-- Reads a scalar value given by so many hexadecimal digits. -/
def scalar? (count : Nat) (s : List Char) : Option (Char × List Char) := do
  let (n, s) ← hex? count 0 s
  if n < 0xD800 ∨ (0xDFFF < n ∧ n < 0x110000) then some (Char.ofNat n, s) else none

/-- Reads an escape after its backslash. -/
def escape? : List Char → Option (Char × List Char)
  | 'b' :: s => some ('\x08', s)
  | 't' :: s => some ('\t', s)
  | 'n' :: s => some ('\n', s)
  | 'f' :: s => some ('\x0c', s)
  | 'r' :: s => some ('\r', s)
  | '"' :: s => some ('"', s)
  | '\\' :: s => some ('\\', s)
  | 'u' :: s => scalar? 4 s
  | 'U' :: s => scalar? 8 s
  | _ => none

/-- Reads a string on one line after its opening quote. `limit` bounds its length. -/
def line? (quote : Char) (escapes : Bool) :
    (limit : Nat) → (acc : List Char) → List Char → Option (List Char × List Char)
  | 0, _, _ => none
  | _, _, [] => none
  | limit + 1, acc, c :: s =>
    if c = quote then some (acc.reverse, s)
    else if escapes ∧ c = '\\' then do
      let (e, s) ← escape? s
      line? quote escapes limit (e :: acc) s
    else if isPlain c then line? quote escapes limit (c :: acc) s
    else none

/-- Reads a string on many lines after its opening quotes. Three quotes close it, and one or two
more before them belong to it; a line break is one character however it is written; a backslash at
the end of a line joins the next line that is not blank. `limit` bounds its length. -/
def lines? (quote : Char) (escapes : Bool) :
    (limit : Nat) → (acc : List Char) → List Char → Option (List Char × List Char)
  | 0, _, _ => none
  | _, _, [] => none
  | limit + 1, acc, c :: s =>
    if c = quote then
      let more := (s.takeWhile (· = quote)).length
      if more < 2 then lines? quote escapes limit (c :: acc) s
      else
        let extra := min (more - 2) 2
        some ((List.replicate extra quote ++ acc).reverse, s.drop (extra + 2))
    else
      match newline? (c :: s) with
      | some t => lines? quote escapes limit ('\n' :: acc) t
      | none =>
        if escapes ∧ c = '\\' then
          match newline? (skipSpace s) with
          | some t => lines? quote escapes limit acc (skipBreaks limit t)
          | none => do
            let (e, s) ← escape? s
            lines? quote escapes limit (e :: acc) s
        else if isPlain c then lines? quote escapes limit (c :: acc) s
        else none

/-- Reads a string of any form. A line break right after three opening quotes does not count. -/
def string? (limit : Nat) (s : List Char) : Option (String × List Char) := do
  let (chars, s) ←
    match s with
    | '"' :: '"' :: '"' :: t => lines? '"' true limit [] ((newline? t).getD t)
    | '\'' :: '\'' :: '\'' :: t => lines? '\'' false limit [] ((newline? t).getD t)
    | '"' :: t => line? '"' true limit [] t
    | '\'' :: t => line? '\'' false limit [] t
    | _ => none
  pure (String.ofList chars, s)

/-! ## Keys -/

/-- A character of a key without quotes. -/
def isKeyChar (c : Char) : Bool := c.isAlphanum || c = '-' || c = '_'

/-- Reads one part of a key: without quotes, or a string on one line. -/
def keyPart? (limit : Nat) (s : List Char) : Option (String × List Char) :=
  match s with
  | '"' :: t => (line? '"' true limit [] t).map fun (cs, s) => (String.ofList cs, s)
  | '\'' :: t => (line? '\'' false limit [] t).map fun (cs, s) => (String.ofList cs, s)
  | s =>
    let name := s.takeWhile isKeyChar
    if name.isEmpty then none else some (String.ofList name, s.dropWhile isKeyChar)

/-- How many parts a key may have, and how many brackets may be open, both less one. -/
def maxParts : Nat := 80

/-- Reads a key: parts with points between them, blanks around each. `count` more parts may
follow. -/
def key? (limit : Nat) : (count : Nat) → List Char → Option (List String × List Char)
  | 0, _ => none
  | count + 1, s => do
    let (part, s) ← keyPart? limit (skipSpace s)
    match skipSpace s with
    | '.' :: s => do
      let (parts, s) ← key? limit count s
      pure (part :: parts, s)
    | s => pure ([part], s)

end EventSandbox.Toml
