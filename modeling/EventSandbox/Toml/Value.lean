import EventSandbox.Number.Decimal
import EventSandbox.Toml.Datetime

/-!
# EventSandbox.Toml.Value — the values of a configuration file

Integers have 64 bits. A floating-point number is the double nearest to its text, or one of the
values that are no numbers. A table is a list of entries without repeated keys.
-/

namespace EventSandbox.Toml

/-- A floating-point value. -/
inductive Floating
  | finite (x : Double)
  | infinite (negative : Bool)
  | nan
deriving DecidableEq, Repr

/-- A value of a configuration file. -/
inductive Value
  | boolean (b : Bool)
  | integer (n : Int64)
  | floating (x : Floating)
  | string (s : String)
  | datetime (d : Datetime)
  | array (items : List Value)
  | table (entries : List (String × Value))
deriving Repr

/-! ## Reading numbers -/

/-- Reads digits of a base, between which single underscores may stand. -/
def groupedFrom (isDigit : Char → Bool) (acc : List Char) :
    List Char → Option (List Char × List Char)
  | '_' :: c :: s => if isDigit c then groupedFrom isDigit (c :: acc) s else none
  | '_' :: [] => none
  | c :: s => if isDigit c then groupedFrom isDigit (c :: acc) s else some (acc.reverse, c :: s)
  | [] => some (acc.reverse, [])

/-- Reads at least one digit of a base. -/
def grouped? (isDigit : Char → Bool) : List Char → Option (List Char × List Char)
  | c :: s => if isDigit c then groupedFrom isDigit [c] s else none
  | [] => none

/-- Reads decimal digits of which only a lone one may be zero at first. -/
def whole? (s : List Char) : Option (List Char × List Char) :=
  match s with
  | '0' :: t => some (['0'], t)
  | s => grouped? Char.isDigit s

/-- The value of a hexadecimal digit. -/
def digitValue (c : Char) : Nat :=
  if c.isDigit then c.toNat - 48 else if 'a' ≤ c then c.toNat - 87 else c.toNat - 55

/-- The natural that digits of a base stand for. -/
def natOfDigits (base : Nat) (digits : List Char) : Nat :=
  digits.foldl (fun n c => n * base + digitValue c) 0

/-- A hexadecimal digit of either case. -/
def isHexDigit (c : Char) : Bool :=
  c.isDigit || ('a' ≤ c && c ≤ 'f') || ('A' ≤ c && c ≤ 'F')

/-- The integer, if it has 64 bits. -/
def integer? (n : Int) : Option Value :=
  if -0x8000000000000000 ≤ n ∧ n < 0x8000000000000000 then some (.integer (Int64.ofInt n)) else none

/-- Reads the digits of an integer of base 16, 8 or 2 after their mark. -/
def based? (base : Nat) (isDigit : Char → Bool) (s : List Char) : Option (Value × List Char) := do
  let (digits, s) ← grouped? isDigit s
  pure (← integer? (natOfDigits base digits), s)

/-- Reads the exponent of a number, if there is one. -/
def exponent? (s : List Char) : Option (Int × List Char) :=
  match s with
  | c :: t =>
    if c = 'e' ∨ c = 'E' then do
      let (negative, t) :=
        match t with
        | '+' :: u => (false, u)
        | '-' :: u => (true, u)
        | t => (false, t)
      let (digits, u) ← grouped? Char.isDigit t
      let n : Int := natOfDigits 10 digits
      pure (if negative then -n else n, u)
    else some (0, s)
  | [] => some (0, s)

/-- The value of a decimal number. A number too large is refused if positive, and infinite if
negative. -/
def decimal? (negative : Bool) (digits : Nat) (exponent : Int) : Option Value :=
  match Double.ofDecimal? negative digits exponent with
  | some x => some (.floating (.finite x))
  | none => if negative then some (.floating (.infinite true)) else none

/-- Reads a decimal number after its sign. -/
def unsigned? (negative : Bool) (s : List Char) : Option (Value × List Char) := do
  let (digits, s) ← whole? s
  match s with
  | '.' :: t =>
    let (fraction, t) ← grouped? Char.isDigit t
    let (exponent, t) ← exponent? t
    let value ← decimal? negative (natOfDigits 10 (digits ++ fraction)) (exponent - fraction.length)
    pure (value, t)
  | c :: _ =>
    let n := natOfDigits 10 digits
    if c = 'e' ∨ c = 'E' then
      let (exponent, t) ← exponent? s
      pure (← decimal? negative n exponent, t)
    else pure (← integer? (if negative then -n else n), s)
  | [] =>
    let n := natOfDigits 10 digits
    pure (← integer? (if negative then -n else n), s)

/-- Reads a number after its sign, if it had one. -/
def magnitude? (negative : Bool) (s : List Char) : Option (Value × List Char) :=
  match s with
  | 'i' :: 'n' :: 'f' :: s => some (.floating (.infinite negative), s)
  | 'n' :: 'a' :: 'n' :: s => some (.floating .nan, s)
  | s => unsigned? negative s

/-- Reads a number. Only one without a sign may have a base other than ten. -/
def number? (s : List Char) : Option (Value × List Char) :=
  match s with
  | '+' :: s => magnitude? false s
  | '-' :: s => magnitude? true s
  | '0' :: 'x' :: s => based? 16 isHexDigit s
  | '0' :: 'o' :: s => based? 8 (fun c => '0' ≤ c && c ≤ '7') s
  | '0' :: 'b' :: s => based? 2 (fun c => c = '0' || c = '1') s
  | s => magnitude? false s

end EventSandbox.Toml
