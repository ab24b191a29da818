import DecimalCalculator.Arithmetic.Basic

/-!
# Narrowing to machine integers

A number is narrowed by dropping its fraction and then checking the range. A number whose leading
digit stands beyond the twentieth place before the point is refused at once; this concerns zeros
with a large exponent too.
-/
namespace DecimalCalculator.Arithmetic

/-- The integer part of a number, if it lies between two bounds. -/
def narrow (primitive : String) (low high : Int) (a : Decimal) : Except Failure Int :=
  match a with
  | .finite negative c e =>
    if 20 < Decimal.leading c e then
      .error (CalcError.notPrimitive primitive)
    else
      let n := Decimal.signed negative (Decimal.wholePart c e)
      if n < low ∨ high < n then .error (CalcError.notPrimitive primitive) else .ok n
  | _ => .error (CalcError.notPrimitive primitive)

def toSigned64 : Decimal → Except Failure Int :=
  narrow "i64" (-0x8000000000000000) 0x7FFFFFFFFFFFFFFF

def toUnsigned64 : Decimal → Except Failure Int :=
  narrow "usize" 0 0xFFFFFFFFFFFFFFFF

end DecimalCalculator.Arithmetic
