import DecimalCalculator.Decimal.Rounding

/-!
# Arithmetic on decimals

Sums, differences and products are exact; their exponents follow from those of the operands, so
`1.00 + -1` is `0.00` and `1.50 * 2.0` is `3.000`. A quotient is rounded to a precision. When its
expansion ends, its exponent is as close to the difference of the exponents as the precision allows,
and the precision costs nothing.

What is not a number spreads through every operation, unless it is signaling. An infinity minus
itself, an infinity times zero and an infinity divided by an infinity have no result. Neither has an
operation whose digits do not fit into the memory: a sum brings its terms to one exponent first, and
a quotient is worked out to its precision, however short it turns out to be.
-/
namespace DecimalCalculator.Decimal

variable (memory : Memory)

/-- The result of an operation when an operand is not a number: the first such operand, unless one
of the operands is signaling. -/
def spread (a b : Decimal) : Except Signal Decimal :=
  if a.isSignaling || b.isSignaling then .error .invalidOperation
  else .ok (if a.isNaN then a else b)

/-- The number of digits of two coefficients at the lower of their exponents, that of the longer
one. -/
def alignedCount (c : Nat) (e : Int) (d : Nat) (f : Int) : Nat :=
  max (scaledCount c (e - min e f).toNat) (scaledCount d (f - min e f).toNat)

/-- The sum of two finite decimals. It has the lower of the two exponents, and a zero sum is
negative only when both terms are. -/
def addFinite (s : Bool) (c : Nat) (e : Int) (t : Bool) (d : Nat) (f : Int) :
    Except Signal Decimal := do
  demand memory .sum (alignedCount c e d f)
  let low := min e f
  let total := signed s (scale c (e - low).toNat) + signed t (scale d (f - low).toNat)
  confine (if total = 0 then s && t else total < 0) total.natAbs low

def add : Decimal → Decimal → Except Signal Decimal
  | nan s g p, b => spread (nan s g p) b
  | a, nan t h q => spread a (nan t h q)
  | infinity s, infinity t => if s = t then .ok (infinity s) else .error .invalidOperation
  | infinity s, finite _ _ _ => .ok (infinity s)
  | finite _ _ _, infinity t => .ok (infinity t)
  | finite s c e, finite t d f => addFinite memory s c e t d f

/-- The difference: the sum with the second operand negated, except that what is not a number keeps
its sign. -/
def sub : Decimal → Decimal → Except Signal Decimal
  | a, nan t h q => spread a (nan t h q)
  | a, b => add memory a b.neg

/-- The product. Its exponent is the sum of the exponents, and its sign is minus when the signs
differ. -/
def mul : Decimal → Decimal → Except Signal Decimal
  | nan s g p, b => spread (nan s g p) b
  | a, nan t h q => spread a (nan t h q)
  | infinity s, infinity t => .ok (infinity (s != t))
  | infinity s, finite t d _ => if d = 0 then .error .invalidOperation else .ok (infinity (s != t))
  | finite s c _, infinity t => if c = 0 then .error .invalidOperation else .ok (infinity (s != t))
  | finite s c e, finite t d f => do
    demand memory .product (Text.digitCount (c * d))
    confine (s != t) (c * d) (e + f)

/-- The quotient of two coefficients whose decimal expansion ends: a coefficient, and the least
number of places after the point that it needs. The expansion ends when the divisor in lowest terms
divides a power of ten; it then divides the one with as many zeros as its binary logarithm. -/
def finiteQuotient? (c d : Nat) : Option (Nat × Nat) :=
  let common := Nat.gcd c d
  let divisor := d / common
  let places := divisor.log2
  let unit := Text.powerOfTen places
  if unit % divisor = 0 then
    let (quotient, dropped) := Text.dropZeros places (c / common * (unit / divisor))
    some (quotient, places - dropped)
  else
    none

/-- A coefficient with more digits than `precision` for a quotient whose expansion does not end, and
how far its exponent lies below the difference of the exponents. Its last digit is other than 0 and
5, so that a later rounding sees that it is no half. -/
def longQuotient (precision c d : Nat) : Nat × Int :=
  let shift : Int := (Text.digitCount d : Int) - Text.digitCount c + precision + 1
  let quotient := c * Text.powerOfTen shift.toNat / (d * Text.powerOfTen (-shift).toNat)
  (if quotient % 5 = 0 then quotient + 1 else quotient, shift)

/-- Whether a leading digit with the given exponent can be had at full precision. -/
def isNormal (power : Int) : Bool :=
  minExponent ≤ power && power ≤ maxExponent

/-- The number of digits that a division by `d` takes at a precision. -/
def quotientCount (precision d : Nat) : Nat :=
  Text.digitCount d + precision + 1

/-- A precision that is enough for every quotient of `c` and `d` that ends. -/
def endingPrecision (c d : Nat) : Nat :=
  Text.digitCount c + 4 * Text.digitCount d

/-- The quotient of two finite decimals, the second of them not zero. Where the precision takes too
many digits, the division is tried at one that is enough if the quotient ends, and a result that
nothing had to be done to is taken. -/
def divFinite (precision : Nat) (s : Bool) (c : Nat) (e : Int) (t : Bool) (d : Nat) (f : Int) :
    Except Signal Decimal :=
  if c = 0 then
    round precision (s != t) 0 (e - f)
  else
    match finiteQuotient? c d with
    | some (quotient, places) =>
      let exponent := e - f - places
      if memory.fits .quotient (quotientCount precision d) ||
          isNormal (leading quotient exponent) &&
            memory.fits .quotient (quotientCount (endingPrecision c d) d) then
        round precision (s != t) quotient exponent
      else
        .error .outOfMemory
    | none =>
      if memory.fits .quotient (quotientCount precision d) then
        let (quotient, shift) := longQuotient precision c d
        round precision (s != t) quotient (e - f - shift)
      else
        .error .outOfMemory

/-- What is not a number, with no more than the last `precision` digits of its payload. -/
def cutPayload (precision : Nat) : Decimal → Decimal
  | nan negative signaling payload =>
    nan negative signaling
      (if precision < Text.digitCount payload then payload % Text.powerOfTen precision else payload)
  | d => d

/-- The quotient by a divisor that is not zero, rounded to `precision` digits. -/
def div (precision : Nat) : Decimal → Decimal → Except Signal Decimal
  | nan s g p, b => (spread (nan s g p) b).map (cutPayload precision)
  | a, nan t h q => (spread a (nan t h q)).map (cutPayload precision)
  | infinity _, infinity _ => .error .invalidOperation
  | infinity s, finite t _ _ => .ok (infinity (s != t))
  | finite s _ _, infinity t => .ok (finite (s != t) 0 (tinyExponent precision))
  | finite s c e, finite t d f => divFinite memory precision s c e t d f

end DecimalCalculator.Decimal
