import EventSandbox.Json.Value
import EventSandbox.Text.Utf8

/-!
# EventSandbox.Json.Number — reading a number

A number without point and exponent that fits 64 bits is an integer, except `-0`. Every other
number is a double, computed in four roundings at most and hence not always the nearest one:

1. the digits are gathered in a 64-bit significand; digits that no longer fit count as powers of
   ten before the point and are dropped after it;
2. the significand is rounded to a double;
3. the power of ten is applied by one multiplication or division by a rounded power, after
   divisions by 1e308 for exponents beyond that;
4. the sign is applied last.

A number too large for a double is malformed.
-/

namespace EventSandbox.Json

/-- Why a text is refused. -/
inductive Fault
  /-- The input ended inside a value. -/
  | truncated
  /-- The text does not follow the grammar, or holds a number or string without a value. -/
  | malformed
  /-- The text is well formed so far and does not fit the wanted type. -/
  | mismatched
deriving DecidableEq, Repr

/-- The largest significand. -/
def maxSignificand : Nat := 0xFFFFFFFFFFFFFFFF

/-- The largest exponent that is read. -/
def maxExponent : Nat := 0x7FFFFFFF

/-- A decimal digit. -/
def isDigit (b : UInt8) : Bool := ascii '0' ≤ b ∧ b ≤ ascii '9'

/-- The number that a decimal digit stands for. -/
def digitValue (b : UInt8) : Nat := b.toNat - 48

/-- Whether the text goes on with a digit. -/
def startsWithDigit : Bytes → Bool
  | b :: _ => isDigit b
  | [] => false

/-- The text after the digits at its start. -/
def skipDigits (s : Bytes) : Bytes := s.dropWhile isDigit

/-- The digits before the point: the significand, how many digits no longer fitted, and the rest of
the text. -/
def wholeDigits (significand dropped : Nat) : Bytes → Nat × Nat × Bytes
  | [] => (significand, dropped, [])
  | b :: s =>
    if isDigit b then
      let next := significand * 10 + digitValue b
      if dropped = 0 ∧ next ≤ maxSignificand then wholeDigits next 0 s
      else wholeDigits significand (dropped + 1) s
    else (significand, dropped, b :: s)

/-- The digits after the point: the significand, how many of them it took up, and the rest. -/
def fractionDigits (significand taken : Nat) : Bytes → Nat × Nat × Bytes
  | [] => (significand, taken, [])
  | b :: s =>
    if isDigit b then
      let next := significand * 10 + digitValue b
      if next ≤ maxSignificand then fractionDigits next (taken + 1) s
      else (significand, taken, skipDigits s)
    else (significand, taken, b :: s)

/-- The digits of an exponent: its value, `none` once it passes `maxExponent`, and the rest. -/
def exponentDigits (exponent : Nat) : Bytes → Option Nat × Bytes
  | [] => (some exponent, [])
  | b :: s =>
    if isDigit b then
      let next := exponent * 10 + digitValue b
      if next ≤ maxExponent then exponentDigits next s else (none, skipDigits s)
    else (some exponent, b :: s)

/-- A number after `count` divisions by 1e308. -/
def shrink (x : Double) : (count : Nat) → Double
  | 0 => x
  | count + 1 => shrink (x.div (Double.powerOfTen 308)) count

/-- The double `significand * 10 ^ exponent` in the stated roundings. Three divisions by 1e308 take
every significand to zero, so no more are made. -/
def scale (significand : Nat) (exponent : Int) : Except Fault Double :=
  let x := Double.ofNat significand
  let n := exponent.natAbs
  if 0 ≤ exponent then
    if n ≤ 308 then
      match x.mul? (Double.powerOfTen n) with
      | some y => .ok y
      | none => .error .malformed
    else if x.isZero then .ok x
    else .error .malformed
  else
    let steps := (n - 1) / 308
    if steps ≤ 3 then .ok ((shrink x steps).div (Double.powerOfTen (n - 308 * steps)))
    else .ok Double.zero

/-- A double with its sign. -/
def signed (negative : Bool) (x : Double) : Number := .float (if negative then x.neg else x)

/-- A clamp to 32-bit exponents. -/
def saturate (e : Int) : Int := max (-0x80000000) (min e 0x7FFFFFFF)

/-- The number after its exponent letter: `exponent` comes from the digits before it. -/
def exponentPart (negative : Bool) (significand : Nat) (exponent : Int) (s : Bytes) :
    Except Fault (Number × Bytes) := do
  let (minus, s) :=
    match s with
    | b :: t =>
      if b = ascii '+' then (false, t) else if b = ascii '-' then (true, t) else (false, s)
    | [] => (false, s)
  match s with
  | [] => .error .truncated
  | b :: t =>
    if isDigit b then
      match exponentDigits (digitValue b) t with
      | (some e, rest) =>
        let x ← scale significand (saturate (if minus then exponent - e else exponent + e))
        pure (signed negative x, rest)
      | (none, rest) =>
        if significand ≠ 0 ∧ !minus then .error .malformed
        else pure (signed negative Double.zero, rest)
    else .error .malformed

/-- Whether a byte announces an exponent. -/
def isExponentMark (b : UInt8) : Bool := b = ascii 'e' ∨ b = ascii 'E'

/-- The number after its significand, when it is a double in any case. -/
def doubleTail (negative : Bool) (significand : Nat) (exponent : Int) (s : Bytes) :
    Except Fault (Number × Bytes) :=
  match s with
  | b :: t =>
    if isExponentMark b then exponentPart negative significand exponent t
    else (scale significand exponent).map fun x => (signed negative x, s)
  | [] => (scale significand exponent).map fun x => (signed negative x, s)

/-- The number after its point. -/
def fractionPart (negative : Bool) (significand : Nat) (exponent : Nat) (s : Bytes) :
    Except Fault (Number × Bytes) :=
  match s with
  | [] => .error .truncated
  | b :: _ =>
    if isDigit b then
      let (significand, taken, rest) := fractionDigits significand 0 s
      doubleTail negative significand (exponent - taken) rest
    else .error .malformed

/-- A number without point and exponent. -/
def integer (negative : Bool) (significand : Nat) : Number :=
  if negative then
    if significand = 0 then .float Double.zero.neg
    else
      match Number.ofInt? (-significand) with
      | some n => n
      | none => .float (Double.ofNat significand).neg
  else
    match Number.ofInt? significand with
    | some n => n
    | none => .float (Double.ofNat significand)

/-- The number after the digits before the point. -/
def numberTail (negative : Bool) (significand dropped : Nat) (s : Bytes) :
    Except Fault (Number × Bytes) :=
  match s with
  | b :: t =>
    if b = ascii '.' then fractionPart negative significand dropped t
    else if dropped ≠ 0 ∨ isExponentMark b then doubleTail negative significand dropped s
    else .ok (integer negative significand, s)
  | [] =>
    if dropped ≠ 0 then doubleTail negative significand dropped s
    else .ok (integer negative significand, s)

/-- Reads a number after its sign. A leading zero stands alone. -/
def number (negative : Bool) (s : Bytes) : Except Fault (Number × Bytes) :=
  match s with
  | [] => .error .truncated
  | b :: t =>
    if b = ascii '0' then
      if startsWithDigit t then .error .malformed else numberTail negative 0 0 t
    else if isDigit b then
      let (significand, dropped, rest) := wholeDigits 0 0 s
      numberTail negative significand dropped rest
    else .error .malformed

end EventSandbox.Json
