import EventSandbox.Number.Shortest

/-!
# EventSandbox.Number.Decimal — the double nearest to a decimal text

A decimal text is a natural and a power of ten, both of any size. Numbers far outside the range of
doubles are told apart by their first digit alone, so no huge power is ever computed.
-/

namespace EventSandbox.Double

/-- Where the first digit of `digits * 10 ^ exponent` stands before the point. -/
def decimalPlace (digits : Nat) (exponent : Int) : Int := digitCount digits + exponent

/-- The double nearest to `± digits * 10 ^ exponent`; `none` if that is infinity. -/
def ofDecimal? (negative : Bool) (digits : Nat) (exponent : Int) : Option Double :=
  let place := decimalPlace digits exponent
  if digits = 0 ∨ place < -330 then nearest? negative 0 1
  else if 310 < place then none
  else nearest? negative (digits * Nat.pow 10 exponent.toNat) (Nat.pow 10 (-exponent).toNat)

end EventSandbox.Double
