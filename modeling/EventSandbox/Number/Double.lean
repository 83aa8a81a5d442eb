/-!
# EventSandbox.Number.Double — finite binary64 numbers in exact arithmetic

A double is kept as its sign and the integer below it in its bit pattern, its *magnitude*. All
arithmetic goes through one function, `Double.nearest?`, which rounds an exact quotient of two
naturals to the nearest double, a tie going to the even pattern. Magnitudes are ordered as the
numbers they stand for, so a carry out of the fraction moves to the next exponent by itself.

Deliberate limit: infinities and NaN have no value here. An operation that would leave the range
answers `none`.
-/

namespace EventSandbox

/-- The weight of the exponent's lowest bit in a pattern: two to the 52. -/
def Double.exponentUnit : Nat := 0x10000000000000

/-- The weight of the sign in a pattern: two to the 63. -/
def Double.signUnit : Nat := 0x8000000000000000

/-- The magnitude of infinity: one more than the largest finite one. -/
def Double.magnitudeBound : Nat := 2047 * exponentUnit

/-- A finite binary64 number. -/
structure Double where
  negative : Bool
  /-- Exponent and fraction, as the low 63 bits of the pattern. -/
  magnitude : Nat
  finite : magnitude < Double.magnitudeBound
deriving DecidableEq, Repr

namespace Double

/-- Positive zero. -/
def zero : Double := ⟨false, 0, by decide⟩

instance : Inhabited Double := ⟨zero⟩

/-- The biased exponent. -/
def exponentField (x : Double) : Nat := x.magnitude / exponentUnit

/-- The integer `m` for which the number is `± m * 2 ^ exponent`. -/
def significand (x : Double) : Nat :=
  if x.exponentField = 0 then x.magnitude else x.magnitude % exponentUnit + exponentUnit

/-- The power of two that the significand is multiplied by. -/
def exponent (x : Double) : Int := (max x.exponentField 1 : Nat) - 1075

/-- A scale `2 ^ e` as a fraction of two naturals. -/
def powerOfTwo (e : Int) : Nat × Nat := (Nat.pow 2 e.toNat, Nat.pow 2 (-e).toNat)

/-- The absolute value as a fraction of two naturals. -/
def fraction (x : Double) : Nat × Nat :=
  let (up, down) := powerOfTwo x.exponent
  (x.significand * up, down)

/-- Both zeros. -/
def isZero (x : Double) : Bool := x.magnitude = 0

/-- The number with the other sign. -/
def neg (x : Double) : Double := { x with negative := !x.negative }

/-- Equality of numbers: as of patterns, but the two zeros are equal. -/
def same (x y : Double) : Bool :=
  x.magnitude = y.magnitude && (x.negative = y.negative || x.isZero)

/-! ## Bit patterns -/

/-- The 64-bit pattern. -/
def bits (x : Double) : Nat := (if x.negative then signUnit else 0) + x.magnitude

/-- The finite number with a bit pattern, if it has one. -/
def ofBits? (bits : Nat) : Option Double :=
  let magnitude := bits % signUnit
  if h : magnitude < magnitudeBound then some ⟨bits / signUnit % 2 = 1, magnitude, h⟩ else none

/-! ## Rounding -/

/-- A quotient rounded to the nearest natural, a tie to the even one. -/
def roundQuotient (num den : Nat) : Nat :=
  let q := num / den
  let r := num % den
  if 2 * r < den then q
  else if den < 2 * r then q + 1
  else q + q % 2

/-- The exponent at which `num / den` has 53 binary digits before the point, but never below the
smallest one. -/
def scaleOf (num den : Nat) : Int :=
  let k : Int := (Nat.log2 num : Int) - Nat.log2 den
  let (up, down) := powerOfTwo k
  max (if num * down < den * up then k - 53 else k - 52) (-1074)

/-- The magnitude nearest to `num / den`; it may be that of infinity or beyond. -/
def nearestMagnitude (num den : Nat) : Nat :=
  if num = 0 then 0
  else
    let e := scaleOf num den
    let (up, down) := powerOfTwo e
    (e + 1074).toNat * exponentUnit + roundQuotient (num * down) (den * up)

/-- The double nearest to `± num / den`, a tie going to the even pattern; `none` if that is
infinity. -/
def nearest? (negative : Bool) (num den : Nat) : Option Double :=
  let magnitude := nearestMagnitude num den
  if h : magnitude < magnitudeBound then some ⟨negative, magnitude, h⟩ else none

/-- The double nearest to a natural that is known to be in range. -/
def ofNat (n : Nat) : Double := (nearest? false n 1).getD zero

/-- The double nearest to an integer that is known to be in range. -/
def ofInt (n : Int) : Double := (nearest? (n < 0) n.natAbs 1).getD zero

/-- The double nearest to a power of ten up to `10 ^ 308`. -/
def powerOfTen (k : Nat) : Double := ofNat (Nat.pow 10 k)

/-- The product, rounded; `none` if it overflows. -/
def mul? (x y : Double) : Option Double :=
  let (a, b) := x.fraction
  let (c, d) := y.fraction
  nearest? (x.negative != y.negative) (a * c) (b * d)

/-- The quotient by a number that is not zero and not below one, rounded. -/
def div (x y : Double) : Double :=
  let (a, b) := x.fraction
  let (c, d) := y.fraction
  (nearest? (x.negative != y.negative) (a * d) (b * c)).getD zero

end Double

end EventSandbox
