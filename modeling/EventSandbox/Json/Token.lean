import EventSandbox.Json.Number

/-!
# EventSandbox.Json.Token — blanks, words and strings

Every function takes the text that is left and answers the text after what it read. A string is
gathered as bytes and must be UTF-8 as a whole once its closing quote is found; `\u` escapes have
to name scalar values, surrogates in pairs.
-/

namespace EventSandbox.Json

/-- The four blanks. -/
def isBlank (b : UInt8) : Bool :=
  b = ascii ' ' ∨ b = ascii '\t' ∨ b = ascii '\n' ∨ b = ascii '\r'

/-- The text after the blanks at its start. -/
def skipBlank (s : Bytes) : Bytes := s.dropWhile isBlank

/-- Reads a fixed word. -/
def expect : (word : Bytes) → Bytes → Except Fault Bytes
  | [], s => .ok s
  | _ :: _, [] => .error .truncated
  | w :: ws, b :: s => if b = w then expect ws s else .error .malformed

/-! ## Strings -/

/-- The value of a hexadecimal digit of either case. -/
def hexValue? (b : UInt8) : Option Nat :=
  if isDigit b then some (digitValue b)
  else if ascii 'a' ≤ b ∧ b ≤ ascii 'f' then some (b.toNat - 87)
  else if ascii 'A' ≤ b ∧ b ≤ ascii 'F' then some (b.toNat - 55)
  else none

/-- The value of four hexadecimal digits. -/
def hexFour? (a b c d : UInt8) : Option Nat := do
  pure ((((← hexValue? a) * 16 + (← hexValue? b)) * 16 + (← hexValue? c)) * 16 + (← hexValue? d))

/-- The character of a one-letter escape. -/
def shortEscape? (b : UInt8) : Option Char :=
  if b = ascii '"' then some '"'
  else if b = ascii '\\' then some '\\'
  else if b = ascii '/' then some '/'
  else if b = ascii 'b' then some '\x08'
  else if b = ascii 'f' then some '\x0c'
  else if b = ascii 'n' then some '\n'
  else if b = ascii 'r' then some '\r'
  else if b = ascii 't' then some '\t'
  else none

/-- The first half of a surrogate pair. -/
def isLeading (n : Nat) : Bool := 0xD800 ≤ n ∧ n ≤ 0xDBFF

/-- The second half of a surrogate pair. -/
def isTrailing (n : Nat) : Bool := 0xDC00 ≤ n ∧ n ≤ 0xDFFF

/-- The scalar value of a surrogate pair. -/
def joinSurrogates (lead trail : Nat) : Nat := 0x10000 + (lead - 0xD800) * 0x400 + (trail - 0xDC00)

/-- Puts the bytes of a character on a reversed byte string. -/
def pushChar (acc : Bytes) (code : Nat) : Bytes :=
  (String.utf8EncodeChar (Char.ofNat code)).reverse ++ acc

/-- Reads a string after its opening quote; `acc` holds its bytes so far, last first. -/
def stringBody (acc : Bytes) : Bytes → Except Fault (String × Bytes)
  | [] => .error .truncated
  | b :: s =>
    if b = ascii '"' then
      match Utf8.decode? acc.reverse with
      | some text => .ok (text, s)
      | none => .error .malformed
    else if b < 0x20 then .error .malformed
    else if b = ascii '\\' then
      match s with
      | [] => .error .truncated
      | e :: t =>
        if e = ascii 'u' then
          match t with
          | h₁ :: h₂ :: h₃ :: h₄ :: u =>
            match hexFour? h₁ h₂ h₃ h₄ with
            | none => .error .malformed
            | some lead =>
              if isTrailing lead then .error .malformed
              else if isLeading lead then
                match u with
                | [] => .error .truncated
                | [p] => if p = ascii '\\' then .error .truncated else .error .malformed
                | p :: q :: w =>
                  if p = ascii '\\' ∧ q = ascii 'u' then
                    match w with
                    | k₁ :: k₂ :: k₃ :: k₄ :: x =>
                      match hexFour? k₁ k₂ k₃ k₄ with
                      | none => .error .malformed
                      | some trail =>
                        if isTrailing trail then
                          stringBody (pushChar acc (joinSurrogates lead trail)) x
                        else .error .malformed
                    | _ => .error .truncated
                  else .error .malformed
              else stringBody (pushChar acc lead) u
          | _ => .error .truncated
        else
          match shortEscape? e with
          | some c => stringBody (pushChar acc c.toNat) t
          | none => .error .malformed
    else stringBody (b :: acc) s

/-! ## Skipping

What nobody reads has only to follow the grammar. -/

/-- Passes over a string after its opening quote. Its escapes need not make sense. -/
def skipString : Bytes → Except Fault Bytes
  | [] => .error .truncated
  | b :: s =>
    if b = ascii '"' then .ok s
    else if b < 0x20 then .error .malformed
    else if b = ascii '\\' then
      match s with
      | [] => .error .truncated
      | e :: t =>
        if e = ascii 'u' then
          match t with
          | h₁ :: h₂ :: h₃ :: h₄ :: u =>
            match hexFour? h₁ h₂ h₃ h₄ with
            | none => .error .malformed
            | some _ => skipString u
          | _ => .error .truncated
        else
          match shortEscape? e with
          | some _ => skipString t
          | none => .error .malformed
    else skipString s

/-- Passes over at least one digit; the end of the input counts as a wrong digit. -/
def skipSomeDigits (s : Bytes) : Except Fault Bytes :=
  if startsWithDigit s then .ok (skipDigits s) else .error .malformed

/-- Passes over the digits of an exponent and their sign. -/
def skipExponent (s : Bytes) : Except Fault Bytes :=
  match s with
  | b :: t => skipSomeDigits (if b = ascii '+' ∨ b = ascii '-' then t else s)
  | [] => .error .malformed

/-- Passes over what may follow the digits before the point. -/
def skipNumberTail (s : Bytes) : Except Fault Bytes :=
  match s with
  | [] => .ok []
  | b :: t =>
    if b = ascii '.' then do
      match ← skipSomeDigits t with
      | [] => pure []
      | c :: u => if isExponentMark c then skipExponent u else pure (c :: u)
    else if isExponentMark b then skipExponent t
    else .ok s

/-- Passes over a number after its sign, whatever its size. -/
def skipNumber (s : Bytes) : Except Fault Bytes :=
  match s with
  | [] => .error .malformed
  | b :: t =>
    if b = ascii '0' then if startsWithDigit t then .error .malformed else skipNumberTail t
    else if isDigit b then skipNumberTail (skipDigits t)
    else .error .malformed

end EventSandbox.Json
