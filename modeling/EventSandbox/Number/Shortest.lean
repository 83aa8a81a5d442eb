import EventSandbox.Number.Double

/-!
# EventSandbox.Number.Shortest — the fewest digits that read back

A double is the nearest one to every real in an interval around it, the ends included if its
significand is even. The shortest text is found by trying 1, 2, … 17 digits: on each decimal grid
only the two neighbours of the number can lie in its interval and be nearest, and the first grid
with a neighbour in the interval wins. Of two neighbours the nearer is taken, of two equally near
ones the even.
-/

namespace EventSandbox

/-- A positive decimal number `digits * 10 ^ exponent`. -/
structure Decimal where
  digits : Nat
  exponent : Int
deriving DecidableEq, Repr

namespace Double

/-- The reals that round to a number, as multiples of a unit: the number is `mid * up / down`, and
the ends of the interval are `low * up / down` and `high * up / down`. -/
structure Interval where
  low : Nat
  mid : Nat
  high : Nat
  up : Nat
  down : Nat
  /-- Whether the ends round to the number too. -/
  closed : Bool
deriving Repr

/-- The interval of the reals that round to a number. Below a power of two the neighbour is half
as far away as above it. -/
def interval (x : Double) : Interval :=
  let m := x.significand
  let (up, down) := powerOfTwo (x.exponent - 2)
  let low := if m = exponentUnit ∧ 1 < x.exponentField then 4 * m - 1 else 4 * m - 2
  ⟨low, 4 * m, 4 * m + 2, up, down, m % 2 = 0⟩

/-- Whether the decimal `n * unit / scale` lies in the interval. -/
def Interval.contains (i : Interval) (n unit scale : Nat) : Bool :=
  let point := n * unit * i.down
  let low := i.low * i.up * scale
  let high := i.high * i.up * scale
  if i.closed then low ≤ point ∧ point ≤ high else low < point ∧ point < high

/-- The number of decimal digits of a positive natural. -/
def digitCount (n : Nat) : Nat := (Nat.toDigits 10 n).length

/-- The exponent of the first decimal digit of `num / den`. -/
def leadingExponent (num den : Nat) : Int :=
  if den ≤ num then (digitCount (num / den) : Int) - 1
  else -(digitCount ((den + num - 1) / num - 1) : Int)

/-- The point nearest to the interval's number on the grid of decimals whose last digit has the
given exponent, if it lies in the interval. -/
def Interval.onGrid? (i : Interval) (exponent : Int) : Option Decimal :=
  let unit := Nat.pow 10 exponent.toNat
  let scale := Nat.pow 10 (-exponent).toNat
  let num := i.mid * i.up * scale
  let den := i.down * unit
  let below := num / den
  let rest := num % den
  let belowIn := i.contains below unit scale && below != 0
  let aboveIn := i.contains (below + 1) unit scale
  let nearerBelow := 2 * rest < den || (2 * rest = den && below % 2 = 0)
  if belowIn && (nearerBelow || !aboveIn) then some ⟨below, exponent⟩
  else if aboveIn then some ⟨below + 1, exponent⟩
  else none

/-- The decimal without trailing zeros in its digits; `steps` bounds their number. -/
def stripZeros : (steps : Nat) → Decimal → Decimal
  | 0, d => d
  | steps + 1, d =>
    if d.digits % 10 = 0 ∧ d.digits ≠ 0 then stripZeros steps ⟨d.digits / 10, d.exponent + 1⟩ else d

/-- The shortest decimal that reads back as a positive number, the nearest of those. -/
def shortest (x : Double) : Decimal :=
  let i := x.interval
  let lead := leadingExponent (i.mid * i.up) i.down
  let found := (List.range 17).findSome? fun (n : Nat) => i.onGrid? (lead - n)
  stripZeros 20 (found.getD ⟨0, 0⟩)

/-! ## Text -/

/-- The decimal digits of a natural. -/
def digitsOf (n : Nat) : List Char := Nat.toDigits 10 n

/-- Plain notation: the point stands `shift` places after the first digit, and a number without
fraction ends in `.0`. -/
def plain (digits : List Char) (lead : Int) : List Char :=
  if lead < 0 then '0' :: '.' :: (List.replicate ((-lead).toNat - 1) '0' ++ digits)
  else
    let whole := lead.toNat + 1
    if digits.length ≤ whole then
      digits ++ List.replicate (whole - digits.length) '0' ++ ['.', '0']
    else digits.take whole ++ '.' :: digits.drop whole

/-- Exponent notation: one digit before the point, the sign always written, no padding. -/
def scientific (digits : List Char) (lead : Int) : List Char :=
  let fraction := digits.drop 1
  digits.take 1 ++ (if fraction.isEmpty then [] else '.' :: fraction)
    ++ 'e' :: (if lead < 0 then '-' else '+') :: digitsOf lead.natAbs

/-- The text of a double: the shortest digits that read back to it, in plain notation if its first
digit has an exponent from -5 to 15. -/
def render (x : Double) : List Char :=
  let body :=
    if x.isZero then ['0', '.', '0']
    else
      let d := x.shortest
      let digits := digitsOf d.digits
      let lead := d.exponent + digits.length - 1
      if -5 ≤ lead ∧ lead ≤ 15 then plain digits lead else scientific digits lead
  if x.negative then '-' :: body else body

end Double

end EventSandbox
