import DecimalCalculator.Decimal.Basic
import DecimalCalculator.Text.Blank
import DecimalCalculator.Text.Digit

/-!
# Reading decimals

A decimal is written as an optional sign and then a numeral or a word. A numeral is a run of digits
with at most one point before, among or after them and at least one digit, and optionally an `e`
and a power of ten. The words are `inf`, `infinity`, `nan` and `snan` in any mixture of cases; the
last two may be followed by digits, the payload. Blanks around the text and underscores anywhere in
it are ignored, and digits of every script count.

Reading is exact: every digit goes into the coefficient. A numeral without a power of ten can always
be read; one with a power of ten must lie in the range of exponents.
-/
namespace DecimalCalculator.Decimal

/-- Splits an optional sign off; the flag says that it is minus. -/
def splitSign : List Char → Bool × List Char
  | '-' :: rest => (true, rest)
  | '+' :: rest => (false, rest)
  | cs => (false, cs)

/-- A finite decimal that was written with a power of ten. It must not need rounding to lie in the
range of exponents. -/
def inRange (negative : Bool) (coefficient : Nat) (exponent : Int) : Except Signal Decimal :=
  let top := if coefficient = 0 then exponent else leading coefficient exponent
  if tinyExponent maxPrecision ≤ exponent ∧ top ≤ maxExponent then
    .ok (finite negative coefficient exponent)
  else
    .error .invalidOperation

/-- The power of ten of a numeral, from what follows the `e`. -/
def power? (cs : List Char) : Option Int :=
  let (negative, ds) := splitSign cs
  if ds.isEmpty || !ds.all Char.isDigit then none
  else some (signed negative (Text.digitsValue ds))

/-- A numeral cut into the digits before the point, those after it, and the rest. -/
def splitNumeral (cs : List Char) : List Char × List Char × List Char :=
  let whole := cs.takeWhile Char.isDigit
  match cs.dropWhile Char.isDigit with
  | '.' :: rest => (whole, rest.takeWhile Char.isDigit, rest.dropWhile Char.isDigit)
  | rest => (whole, [], rest)

def readNumeral (negative : Bool) (cs : List Char) : Except Signal Decimal :=
  let (whole, fraction, rest) := splitNumeral cs
  let coefficient := Text.digitsValue (whole ++ fraction)
  if whole.isEmpty && fraction.isEmpty then
    .error .malformed
  else
    match rest with
    | [] => .ok (finite negative coefficient (-fraction.length))
    | mark :: more =>
      if mark == 'e' || mark == 'E' then
        match power? more with
        | some power => inRange negative coefficient (power - fraction.length)
        | none => .error .malformed
      else
        .error .malformed

/-- Reads what is not a number, without its sign and in small letters. -/
def nan? (negative : Bool) : List Char → Option Decimal
  | 'n' :: 'a' :: 'n' :: ds => payload false ds
  | 's' :: 'n' :: 'a' :: 'n' :: ds => payload true ds
  | _ => none
where
  /-- Reads the payload. -/
  payload (signaling : Bool) (ds : List Char) : Option Decimal :=
    if ds.all Char.isDigit then some (nan negative signaling (Text.digitsValue ds)) else none

/-- The text that is read: without the blanks around it and the underscores in it, and with the
digits of every script made plain. -/
def significantChars (cs : List Char) : List Char :=
  ((Text.trim cs).filter (· != '_')).map Text.plainDigit

def readChars (cs : List Char) : Except Signal Decimal :=
  let (negative, body) := splitSign (significantChars cs)
  let word := body.map Char.toLower
  if word == "inf".toList || word == "infinity".toList then
    .ok (infinity negative)
  else
    match nan? negative word with
    | some d => .ok d
    | none => readNumeral negative body

def read (s : String) : Except Signal Decimal :=
  readChars s.toList

end DecimalCalculator.Decimal
