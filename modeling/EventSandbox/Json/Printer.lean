import EventSandbox.Json.Value
import EventSandbox.Text.Utf8

/-!
# EventSandbox.Json.Printer — the one text of a value

No insignificant whitespace, fields in key order, and only those characters escaped that have to
be: the quote, the backslash and the control characters below U+0020.
-/

namespace EventSandbox.Json

/-- The lower-case hexadecimal digit of a number below 16. -/
def hexDigit (n : Nat) : Char := Nat.digitChar n

/-- A character as it stands inside a quoted string. -/
def escape (c : Char) : List Char :=
  if c = '"' then ['\\', '"']
  else if c = '\\' then ['\\', '\\']
  else if c = '\x08' then ['\\', 'b']
  else if c = '\x0c' then ['\\', 'f']
  else if c = '\n' then ['\\', 'n']
  else if c = '\r' then ['\\', 'r']
  else if c = '\t' then ['\\', 't']
  else if c < ' ' then ['\\', 'u', '0', '0', hexDigit (c.toNat / 16), hexDigit (c.toNat % 16)]
  else [c]

/-- A string in quotes. -/
def quoted (s : String) : List Char := '"' :: (s.toList.flatMap escape ++ ['"'])

mutual

/-- The text of a value. -/
def render : Value → List Char
  | .null => "null".toList
  | .bool true => "true".toList
  | .bool false => "false".toList
  | .number n => n.render
  | .string s => quoted s
  | .array items => '[' :: (renderItems items ++ [']'])
  | .object fields => '{' :: (renderFields fields ++ ['}'])

/-- The items of an array, with commas between them. -/
def renderItems : List Value → List Char
  | [] => []
  | [v] => render v
  | v :: w :: rest => render v ++ ',' :: renderItems (w :: rest)

/-- The fields of an object, with commas between them. -/
def renderFields : List (String × Value) → List Char
  | [] => []
  | [(k, v)] => quoted k ++ ':' :: render v
  | (k, v) :: f :: rest => quoted k ++ ':' :: (render v ++ ',' :: renderFields (f :: rest))

end

end EventSandbox.Json

namespace EventSandbox

/-- The text of a value. -/
def Value.toText (v : Value) : String := String.ofList (Json.render v)

/-- The bytes of a value's text, which is what a guest is given. -/
def Value.toJson (v : Value) : Bytes := utf8 v.toText

end EventSandbox
