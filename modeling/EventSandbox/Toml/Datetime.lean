/-!
# EventSandbox.Toml.Datetime — dates and times of a configuration file

A date and a time of day may stand alone or together, and together they may say how far they are
from UTC. The text of a datetime is in one fixed form, whatever it was read from: `T` between date
and time, no trailing zeros in a fraction.
-/

namespace EventSandbox.Toml

/-- A day of the Gregorian calendar. -/
structure Date where
  year : Nat
  month : Nat
  day : Nat
deriving DecidableEq, Repr

/-- A time of day; a leap second is second 60. -/
structure Time where
  hour : Nat
  minute : Nat
  second : Nat
  nanosecond : Nat
deriving DecidableEq, Repr

/-- A distance from UTC. -/
inductive Offset
  | utc
  | minutes (negative : Bool) (count : Nat)
deriving DecidableEq, Repr

/-- A date, a time, or both. -/
inductive Datetime
  | date (date : Date)
  | time (time : Time)
  | both (date : Date) (time : Time) (offset? : Option Offset)
deriving DecidableEq, Repr

/-! ## Text -/

/-- A natural with at least so many digits. -/
def padded (width n : Nat) : List Char :=
  let digits := Nat.toDigits 10 n
  List.replicate (width - digits.length) '0' ++ digits

/-- A list of characters without the zeros at its end. -/
def trimZeros (digits : List Char) : List Char := (digits.reverse.dropWhile (· = '0')).reverse

/-- The text of a date. -/
def Date.render (d : Date) : List Char :=
  padded 4 d.year ++ '-' :: padded 2 d.month ++ '-' :: padded 2 d.day

/-- The text of a time. -/
def Time.render (t : Time) : List Char :=
  let fraction := if t.nanosecond = 0 then [] else '.' :: trimZeros (padded 9 t.nanosecond)
  padded 2 t.hour ++ ':' :: padded 2 t.minute ++ ':' :: padded 2 t.second ++ fraction

/-- The text of an offset; one of no minutes is not negative. -/
def Offset.render : Offset → List Char
  | utc => ['Z']
  | minutes negative count =>
    (if negative ∧ count ≠ 0 then '-' else '+')
      :: (padded 2 (count / 60) ++ ':' :: padded 2 (count % 60))

/-- The text of a datetime. -/
def Datetime.render : Datetime → List Char
  | date d => d.render
  | time t => t.render
  | both d t offset? => d.render ++ 'T' :: t.render ++ (offset?.map Offset.render).getD []

/-! ## Reading -/

/-- Reads exactly `count` digits. -/
def digits? : (count : Nat) → (acc : Nat) → List Char → Option (Nat × List Char)
  | 0, acc, s => some (acc, s)
  | count + 1, acc, c :: s =>
    if c.isDigit then digits? count (acc * 10 + (c.toNat - 48)) s else none
  | _ + 1, _, [] => none

/-- Reads one of two characters. -/
def mark? (a b : Char) : List Char → Option (List Char)
  | c :: s => if c = a ∨ c = b then some s else none
  | [] => none

/-- Reads two digits that stand for a number in a range. -/
def pair? (low high : Nat) (s : List Char) : Option (Nat × List Char) := do
  let (n, s) ← digits? 2 0 s
  if low ≤ n ∧ n ≤ high then some (n, s) else none

/-- The number of days in a month. -/
def daysIn (year month : Nat) : Nat :=
  if month = 2 then
    if year % 4 = 0 ∧ (year % 100 ≠ 0 ∨ year % 400 = 0) then 29 else 28
  else if month ∈ [4, 6, 9, 11] then 30
  else 31

/-- Reads a date. -/
def Date.read? (s : List Char) : Option (Date × List Char) := do
  let (year, s) ← digits? 4 0 s
  let (month, s) ← mark? '-' '-' s >>= pair? 1 12
  let (day, s) ← mark? '-' '-' s >>= pair? 1 31
  if day ≤ daysIn year month then some (⟨year, month, day⟩, s) else none

/-- Reads a fraction of a second, if there is one; digits beyond the ninth do not count. -/
def fraction? (s : List Char) : Option (Nat × List Char) :=
  match s with
  | '.' :: t =>
    let digits := t.takeWhile Char.isDigit
    if digits.isEmpty then none
    else do
      let (n, _) ← digits? 9 0 (digits ++ List.replicate 9 '0')
      some (n, t.dropWhile Char.isDigit)
  | s => some (0, s)

/-- Reads a time of day. -/
def Time.read? (s : List Char) : Option (Time × List Char) := do
  let (hour, s) ← pair? 0 23 s
  let (minute, s) ← mark? ':' ':' s >>= pair? 0 59
  let (second, s) ← mark? ':' ':' s >>= pair? 0 60
  let (nanosecond, s) ← fraction? s
  some (⟨hour, minute, second, nanosecond⟩, s)

/-- Reads an offset. -/
def Offset.read? (s : List Char) : Option (Offset × List Char) :=
  match mark? 'Z' 'z' s with
  | some s => some (utc, s)
  | none =>
    match s with
    | c :: s =>
      if c = '+' ∨ c = '-' then do
        let (hours, s) ← pair? 0 23 s
        let (rest, s) ← mark? ':' ':' s >>= pair? 0 59
        some (minutes (c = '-') (hours * 60 + rest), s)
      else none
    | [] => none

/-- Reads the time that follows a date, after a `T` or a blank. -/
def Time.afterDate? : List Char → Option (Time × List Char)
  | c :: s => if c = 'T' ∨ c = 't' ∨ c = ' ' then Time.read? s else none
  | [] => none

/-- Reads what follows a date: perhaps a time, and then perhaps an offset. -/
def Datetime.afterDate (d : Date) (s : List Char) : Datetime × List Char :=
  match Time.afterDate? s with
  | none => (.date d, s)
  | some (t, s) =>
    match Offset.read? s with
    | some (offset, s) => (.both d t (some offset), s)
    | none => (.both d t none, s)

/-- Reads a datetime. -/
def Datetime.read? (s : List Char) : Option (Datetime × List Char) :=
  match Date.read? s with
  | some (d, s) => some (afterDate d s)
  | none => (Time.read? s).map fun (t, s) => (.time t, s)

end EventSandbox.Toml
