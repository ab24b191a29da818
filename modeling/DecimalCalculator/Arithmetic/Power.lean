import DecimalCalculator.Arithmetic.Basic

/-!
# Factorials and powers

The factorial is the product of the integers from one to its operand. A power is computed by
squaring: the square of the base is taken once for every binary digit of the exponent, and
multiplied into the result where the digit is one. A negative exponent gives the reciprocal of the
positive power, which is the only step that rounds.
-/
namespace DecimalCalculator.Arithmetic

variable (memory : Memory)

/-- The product of the integers from one to `n`. -/
def product : Nat → Nat
  | 0 => 1
  | n + 1 => (n + 1) * product n

/-- The factorial of a whole number that is not negative. -/
def factorial (a : Decimal) : Except Failure Decimal := do
  requireWhole a
  requirePositive a
  let result := product (← integerPart memory a).toNat
  demand memory .factorial (Text.digitCount result)
  return Decimal.ofInt result

/-- Multiplies into `result` the power of `square` with the exponent `remaining`. -/
def squareAndMultiply (result square : Decimal) (remaining : Nat) : Except Failure Decimal :=
  if remaining = 0 then
    .ok result
  else do
    let result ← if remaining % 2 = 1 then mul memory result square else .ok result
    if remaining / 2 = 0 then
      .ok result
    else
      squareAndMultiply result (← mul memory square square) (remaining / 2)
termination_by remaining

/-- The power of a base that is not negative, with a whole exponent. A negative power is rounded to
`precision` digits. -/
def power (precision : Int) (base exponent : Decimal) : Except Failure Decimal := do
  requirePositive base
  requireWhole exponent
  let result ← squareAndMultiply memory Decimal.one base (← integerPart memory exponent).natAbs
  if exponent.isNegative && !exponent.isZero then
    if base.isZero then .error CalcError.divideByZero else div memory precision Decimal.one result
  else
    .ok result

end DecimalCalculator.Arithmetic
