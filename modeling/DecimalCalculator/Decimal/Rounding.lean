import DecimalCalculator.Decimal.Basic

/-!
# Rounding to the range and to a precision

A result that is too long is rounded once, to the nearest decimal at the lowest place it may have,
a half going to the even neighbour. Sums and products may have any number of digits and are only
brought into the range of exponents (`confine`); a quotient is rounded to a number of significant
digits as well (`round`).
-/
namespace DecimalCalculator.Decimal

/-- Drops the last `places` digits of a coefficient, rounding to the nearest and a half to even. A
coefficient with fewer digits than that is below half a unit. -/
def roundHalfEven (coefficient places : Nat) : Nat :=
  if Text.digitCount coefficient < places then
    0
  else
    let unit := Text.powerOfTen places
    let quotient := coefficient / unit
    let rest := coefficient % unit
    if unit < 2 * rest ∨ (2 * rest = unit ∧ quotient % 2 = 1) then quotient + 1 else quotient

/-- A coefficient and its exponent, rounded so that no digit stands below the place `low`. -/
def roundAt (low : Int) (coefficient : Nat) (exponent : Int) : Nat × Int :=
  if exponent < low then
    (roundHalfEven coefficient (low - exponent).toNat, low)
  else
    (coefficient, exponent)

/-- A zero, with its exponent moved into the range. -/
def confineZero (low : Int) (negative : Bool) (exponent : Int) : Decimal :=
  finite negative 0 (max low (min exponent maxExponent))

/-- A result of any number of digits, brought into the range of exponents. -/
def confine (negative : Bool) (coefficient : Nat) (exponent : Int) : Except Signal Decimal :=
  let low := tinyExponent maxPrecision
  if coefficient = 0 then
    .ok (confineZero low negative exponent)
  else if maxExponent < leading coefficient exponent then
    .error .overflow
  else
    let (c, e) := roundAt low coefficient exponent
    .ok (finite negative c e)

/-- A coefficient that rounding has made one digit too long is a power of ten, and loses its last
zero. -/
def carry (precision : Nat) (coefficient : Nat) (exponent : Int) : Nat × Int :=
  if precision < Text.digitCount coefficient then
    (coefficient / 10, exponent + 1)
  else
    (coefficient, exponent)

/-- A result rounded to at most `precision` digits and brought into the range of exponents. -/
def round (precision : Nat) (negative : Bool) (coefficient : Nat) (exponent : Int) :
    Except Signal Decimal :=
  let tiny := tinyExponent precision
  if coefficient = 0 then
    .ok (confineZero tiny negative exponent)
  else if maxExponent < leading coefficient exponent then
    .error .overflow
  else
    let low := max tiny (leading coefficient exponent - precision + 1)
    let (c, e) := roundAt low coefficient exponent
    let (c, e) := carry precision c e
    if maxExponent < leading c e then .error .overflow else .ok (finite negative c e)

end DecimalCalculator.Decimal
