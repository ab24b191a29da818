import DecimalCalculator.Memory
import DecimalCalculator.Text.Numeral

/-!
# Decimals

A decimal is a sign, a coefficient and an exponent: `-2.50` is the sign minus, the coefficient 250
and the exponent -2. The trailing zeros of the coefficient and the sign of zero belong to it, so
`2.5` and `2.50` are two decimals of one value. Beside the finite decimals there are the two
infinities and the values that are not a number.

The exponents that arithmetic may produce are bounded. A result whose leading digit would stand
beyond `maxExponent` overflows; a result is never written with a place below `tinyExponent`. An
exponent in this range may stand for more digits than any memory holds, so an operation that has to
write them out looks at their number first.
-/
namespace DecimalCalculator

/-- A decimal: finite, infinite or not a number, each with its sign. What is not a number may be
signaling, which makes every operation on it invalid, and has a payload, of which 0 stands for
none. -/
inductive Decimal where
  | finite (negative : Bool) (coefficient : Nat) (exponent : Int)
  | infinity (negative : Bool)
  | nan (negative signaling : Bool) (payload : Nat)
  deriving DecidableEq, Repr

namespace Decimal

/-- The largest exponent that a leading digit may have. -/
def maxExponent : Int := 999999999999999999

/-- The smallest exponent that the leading digit of a result at full precision may have. -/
def minExponent : Int := -999999999999999999

def maxPrecision : Nat := 999999999999999999

/-- The lowest place that a result of the given precision may have. -/
def tinyExponent (precision : Nat) : Int := minExponent - (precision - 1)

/-- Why an operation on decimals has no result. -/
inductive Signal where
  | malformed
  | invalidOperation
  | overflow
  | outOfMemory
  deriving DecidableEq, Repr

/-- Digits that are to be written out have to fit into the memory. -/
def demand (memory : Memory) (use : Memory.Use) (digits : Nat) : Except Signal Unit :=
  if memory.fits use digits then .ok () else .error .outOfMemory

def ofInt (n : Int) : Decimal := finite (n < 0) n.natAbs 0

def zero : Decimal := finite false 0 0

def one : Decimal := finite false 1 0

/-- The sign, which zeros, infinities and values that are not a number have too. -/
def isNegative : Decimal → Bool
  | finite negative _ _ => negative
  | infinity negative => negative
  | nan negative _ _ => negative

/-- Whether the decimal is a zero of either sign and any exponent. -/
def isZero : Decimal → Bool
  | finite _ coefficient _ => coefficient == 0
  | _ => false

def isFinite : Decimal → Bool
  | finite _ _ _ => true
  | _ => false

def isNaN : Decimal → Bool
  | nan _ _ _ => true
  | _ => false

def isSignaling : Decimal → Bool
  | nan _ signaling _ => signaling
  | _ => false

def neg : Decimal → Decimal
  | finite negative coefficient exponent => finite (!negative) coefficient exponent
  | infinity negative => infinity (!negative)
  | nan negative signaling payload => nan (!negative) signaling payload

def abs : Decimal → Decimal
  | finite _ coefficient exponent => finite false coefficient exponent
  | infinity _ => infinity false
  | nan _ signaling payload => nan false signaling payload

/-- The exponent of the leading digit of a finite decimal. -/
def leading (coefficient : Nat) (exponent : Int) : Int :=
  exponent + Text.digitCount coefficient - 1

def signed (negative : Bool) (coefficient : Nat) : Int :=
  if negative then -(coefficient : Int) else coefficient

/-- The coefficient moved up by `places`; zero stays zero whatever the number of places. -/
def scale (coefficient places : Nat) : Nat :=
  if coefficient = 0 then 0 else coefficient * Text.powerOfTen places

/-- The number of digits of a coefficient moved up by `places`. -/
def scaledCount (coefficient places : Nat) : Nat :=
  if coefficient = 0 then 1 else Text.digitCount coefficient + places

/-- Whether two decimals are the same number. Zeros are equal whatever their signs, and what is not
a number equals nothing, itself included. -/
def sameValue : Decimal → Decimal → Bool
  | finite s c e, finite t d f =>
    if c = 0 || d = 0 then
      c == d
    else
      s == t && leading c e == leading d f &&
        scale c (e - min e f).toNat == scale d (f - min e f).toNat
  | infinity s, infinity t => s == t
  | _, _ => false

end Decimal

end DecimalCalculator
