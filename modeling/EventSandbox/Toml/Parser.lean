import EventSandbox.Toml.Table
import EventSandbox.Toml.Text

/-!
# EventSandbox.Toml.Parser — reading a configuration file

A file is a sequence of lines: headers of tables, headers of elements of lists, and settings, which
belong to the last header above them. Values may span lines only inside square brackets and in
strings.

Nobody reads the reason why a file is refused, so none is given.
-/

namespace EventSandbox.Toml

/-! ## Values -/

/-- Reads the items of an array after its opening bracket. -/
def arrayItems? (item : List Char → Option (Value × List Char)) :
    (limit : Nat) → (acc : List Value) → List Char → Option (List Value × List Char)
  | 0, _, _ => none
  | limit + 1, acc, s => do
    match ← skipLines? limit s with
    | ']' :: s => pure (acc.reverse, s)
    | s =>
      let (v, s) ← item s
      match ← skipLines? limit s with
      | ',' :: s => arrayItems? item limit (v :: acc) s
      | ']' :: s => pure ((v :: acc).reverse, s)
      | _ => none

/-- Reads a key and its value, inside a line. -/
def setting? (limit : Nat) (value : List Char → Option (Value × List Char)) (s : List Char) :
    Option (String × List String × Value × List Char) := do
  match ← key? limit (maxParts - 1) s with
  | (name :: path, '=' :: s) =>
    let (v, s) ← value (skipSpace s)
    pure (name, path, v, skipSpace s)
  | _ => none

/-- Reads the settings of a table in braces after its first brace. -/
def inlineSettings? (limit : Nat) (value : List Char → Option (Value × List Char)) :
    (count : Nat) → Entries → List Char → Option (Entries × List Char)
  | 0, _, _ => none
  | count + 1, entries, s => do
    let (name, path, v, s) ← setting? limit value s
    let entries ← entries.assign v name path
    match s with
    | ',' :: s => inlineSettings? limit value count entries s
    | '\x7d' :: s => pure (entries, s)
    | _ => none

/-- Reads a value; `depth` more brackets may be opened. -/
def value? (limit : Nat) (depth : Nat) (s : List Char) : Option (Value × List Char) :=
  match s with
  | '[' :: t =>
    match depth with
    | 0 => none
    | depth + 1 => (arrayItems? (value? limit depth) limit [] t).map fun (vs, s) => (.array vs, s)
  | '\x7b' :: t =>
    match depth with
    | 0 => none
    | depth + 1 =>
      match skipSpace t with
      | '\x7d' :: s => some (.table [], s)
      | t =>
        (inlineSettings? limit (value? limit depth) limit [] t).map fun (entries, s) =>
          (.table (closeEntries entries), s)
  | 't' :: 'r' :: 'u' :: 'e' :: s => some (.boolean true, s)
  | 'f' :: 'a' :: 'l' :: 's' :: 'e' :: s => some (.boolean false, s)
  | c :: _ =>
    if c = '"' ∨ c = '\'' then (string? limit s).map fun (text, s) => (.string text, s)
    else
      match Datetime.read? s with
      | some (d, s) => some (.datetime d, s)
      | none => number? s
  | [] => none

/-! ## Files -/

/-- A file that has been read in part. -/
structure Draft where
  root : Entries
  /-- The last header. -/
  header : List String

/-- Splits a path into the way to a table and the table's own key. -/
def splitLast? : List String → Option (List String × String)
  | [] => none
  | [key] => some ([], key)
  | key :: next :: rest => (splitLast? (next :: rest)).map fun (path, last) => (key :: path, last)

namespace Draft

/-- Takes in a header. -/
def enter? (opening : String → Entries → Option Entries) (path : List String) (d : Draft) :
    Option Draft := do
  let (way, key) ← splitLast? path
  pure ⟨← d.root.within (opening key) way, path⟩

/-- Takes in a setting. -/
def assign? (v : Value) (name : String) (path : List String) (d : Draft) : Option Draft := do
  pure { d with root := ← d.root.within (Entries.assign v name path) d.header }

/-- Takes in a line that is not blank. -/
def line? (limit : Nat) (s : List Char) (d : Draft) : Option (Draft × List Char) := do
  match s with
  | '[' :: '[' :: s =>
    match ← key? limit (maxParts - 1) s with
    | (path, ']' :: ']' :: s) => pure (← d.enter? Entries.openElement path, s)
    | _ => none
  | '[' :: s =>
    match ← key? limit (maxParts - 1) s with
    | (path, ']' :: s) => pure (← d.enter? Entries.openTable path, s)
    | _ => none
  | s =>
    let (name, path, v, s) ← setting? limit (value? limit (maxParts - 1)) s
    pure (← d.assign? v name path, s)

/-- Takes in all lines that are left; `count` bounds their number. -/
def lines? (limit : Nat) : (count : Nat) → List Char → Draft → Option Draft
  | 0, _, _ => none
  | count + 1, s, d =>
    match skipSpace s with
    | [] => some d
    | c :: s =>
      if c = '#' ∨ c = '\n' ∨ c = '\r' then do
        lines? limit count (← endLine? (c :: s)) d
      else do
        let (d, s) ← d.line? limit (c :: s)
        lines? limit count (← endLine? s) d

end Draft

/-- The entries that a text holds. A byte order mark may stand first. -/
def parse? (text : String) : Option (List (String × Value)) :=
  let s := match text.toList with
    | '\ufeff' :: s => s
    | s => s
  let limit := s.length + 2
  (Draft.lines? limit limit s ⟨[], []⟩).map fun d => closeEntries d.root

end EventSandbox.Toml
