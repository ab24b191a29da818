import DecimalCalculator.Decimal.Basic

/-!
# Whole decimals and truncation

A decimal is whole when its value is an integer, whatever its spelling: `12`, `12.00` and `1.2E+1`
are whole. Truncation drops the fraction. Both look at the number of digits first, so that a very
low exponent costs nothing.
-/
namespace DecimalCalculator.Decimal

/-- Whether the value is an integer. The infinities count as whole; what is not a number does
not. -/
def isWhole : Decimal → Bool
  | finite _ c e =>
    c == 0 || 0 ≤ e || ((-e).toNat < Text.digitCount c && c % Text.powerOfTen (-e).toNat == 0)
  | infinity _ => true
  | nan _ _ _ => false

/-- The integer part of a magnitude. -/
def wholePart (c : Nat) (e : Int) : Nat :=
  if 0 ≤ e then scale c e.toNat
  else if Text.digitCount c ≤ (-e).toNat then 0
  else c / Text.powerOfTen (-e).toNat

end DecimalCalculator.Decimal
