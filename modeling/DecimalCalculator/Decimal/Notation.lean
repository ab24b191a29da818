import DecimalCalculator.Decimal.Basic

/-!
# Writing decimals

There are two notations. The exact one shows coefficient and exponent, so that reading it back
gives the same decimal: it is positional while the exponent is not positive and the leading digit
stands at most six places after the point, and otherwise it has one digit before the point and a
power of ten. The plain one is for people: it is always positional, and a zero has no sign. It may
be too long for the memory, and then there is no text (`print`).
-/
namespace DecimalCalculator.Decimal

def signChars (negative : Bool) : List Char :=
  if negative then ['-'] else []

def exactMagnitude (coefficient : Nat) (exponent : Int) : List Char :=
  let ds := Text.digits coefficient
  let power := leading coefficient exponent
  if exponent ≤ 0 ∧ -6 ≤ power then
    Text.pointed ds (-exponent).toNat
  else
    Text.pointed ds (ds.length - 1) ++ 'E' :: (if power < 0 then '-' else '+') ::
      Text.digits power.natAbs

/-- The characters of what is not a number: a word, and the payload if there is one. -/
def nanChars (negative signaling : Bool) (payload : Nat) : List Char :=
  signChars negative ++ (if signaling then "sNaN" else "NaN").toList ++
    (if payload = 0 then [] else Text.digits payload)

def exactChars : Decimal → List Char
  | finite negative coefficient exponent =>
    signChars negative ++ exactMagnitude coefficient exponent
  | infinity negative => signChars negative ++ "Infinity".toList
  | nan negative signaling payload => nanChars negative signaling payload

def exact (d : Decimal) : String :=
  String.ofList d.exactChars

def plainMagnitude (coefficient : Nat) (exponent : Int) : List Char :=
  if exponent < 0 then
    Text.pointed (Text.digits coefficient) (-exponent).toNat
  else
    Text.digits (scale coefficient exponent.toNat)

def plainChars : Decimal → List Char
  | finite negative coefficient exponent =>
    signChars (negative && coefficient != 0) ++ plainMagnitude coefficient exponent
  | infinity negative => signChars negative ++ "Infinity".toList
  | nan negative signaling payload => nanChars negative signaling payload

def plain (d : Decimal) : String :=
  String.ofList d.plainChars

/-- The number of digits of the plain notation. All places after the point are written, and before
it those of a number other than zero. -/
def plainCount : Decimal → Nat
  | finite _ coefficient exponent =>
    max (scaledCount coefficient exponent.toNat) ((-exponent).toNat + 1)
  | infinity _ => 0
  | nan _ _ payload => Text.digitCount payload

def isPrintable (memory : Memory) (d : Decimal) : Bool :=
  memory.fits .text d.plainCount

def print (memory : Memory) (d : Decimal) : Except Signal String :=
  if d.isPrintable memory then .ok d.plain else .error .outOfMemory

end DecimalCalculator.Decimal
