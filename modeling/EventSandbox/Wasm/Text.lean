import EventSandbox.Guest.Program

/-!
# EventSandbox.Wasm.Text — modules in text form

The text form is read only as far as an empty module goes: blanks, comments, and one `(module)`
with or without a name. Line comments end at a line break; block comments nest.
-/

namespace EventSandbox.Wasm

/-- Blanks between tokens. -/
def isSpace (c : Char) : Bool := c = ' ' || c = '\t' || c = '\n' || c = '\r'

/-- Characters of names: printable ASCII without quotes, commas, semicolons and brackets. -/
def isNameChar (c : Char) : Bool :=
  '!' ≤ c && c ≤ '~' && c ∉ ['"', ',', ';', '(', ')', '[', ']', '\x7b', '\x7d']

/-- Characters that change the direction of the text around them, which no comment may hold. -/
def isConfusing (c : Char) : Bool :=
  c ∈ ['\u202a', '\u202b', '\u202d', '\u202e', '\u2066', '\u2067', '\u2068', '\u206c', '\u2069']

/-- The text after a line comment, at its line break. -/
def skipLine? : List Char → Option (List Char)
  | [] => some []
  | c :: s =>
    if c = '\n' ∨ c = '\r' then some (c :: s) else if isConfusing c then none else skipLine? s

/-- The text after a block comment that is `depth` further comments deep. -/
def skipBlock? (depth : Nat) : List Char → Option (List Char)
  | '(' :: ';' :: s => skipBlock? (depth + 1) s
  | ';' :: ')' :: s => if depth = 0 then some s else skipBlock? (depth - 1) s
  | c :: s => if isConfusing c then none else skipBlock? depth s
  | [] => none

/-- The text after blanks and comments; `limit` bounds their number. -/
def skipTrivia? : (limit : Nat) → List Char → Option (List Char)
  | 0, _ => none
  | _, [] => some []
  | limit + 1, c :: s =>
    if isSpace c then skipTrivia? limit s
    else
      match c, s with
      | ';', ';' :: t => skipLine? t >>= skipTrivia? limit
      | '(', ';' :: t => skipBlock? 0 t >>= skipTrivia? limit
      | _, _ => some (c :: s)

/-- Whether a word may be a module's name. -/
def isName (word : List Char) : Bool :=
  match word with
  | '$' :: _ :: _ => true
  | _ => false

/-- The module that a text holds. -/
def ofText? (text : String) : Option Guest := do
  let source := text.toList
  let trivia := skipTrivia? (source.length + 1)
  let close (s : List Char) : Option Guest :=
    match s with
    | ')' :: s => do
      let rest ← trivia s
      if rest.isEmpty then some Guest.empty else none
    | _ => none
  match ← trivia source with
  | '(' :: s => do
    let s ← trivia s
    let word := s.takeWhile isNameChar
    if word ≠ "module".toList then none
    else
      let s ← trivia (s.dropWhile isNameChar)
      let name := s.takeWhile isNameChar
      if name.isEmpty then close s
      else if isName name then trivia (s.dropWhile isNameChar) >>= close
      else none
  | _ => none

end EventSandbox.Wasm
