import DecimalCalculator.Datum.Shape
import DecimalCalculator.Decimal.Notation
import DecimalCalculator.Text.Quoted

/-!
# Data of unknown shape

What reaches the calculator from outside is data of any shape until it has been checked: the
payload of a token, or the tree that a grammar produced. Messages show such data, so it has a
text: a text stands for itself, and inside other data it is quoted.
-/
namespace DecimalCalculator

/-- Data of any shape. Numbers written with a point or a power of ten are fractions, whatever their
value, and a fraction keeps the sign of zero. -/
inductive Datum where
  | null
  | bool (value : Bool)
  | integer (value : Int)
  | fraction (value : Decimal)
  | text (value : String)
  | list (items : List Datum)
  | record (fields : List (String × Datum))
  deriving Repr, Inhabited

namespace Datum

def shape : Datum → Shape
  | null => .null
  | bool _ => .bool
  | integer _ => .integer
  | fraction _ => .fraction
  | text _ => .text
  | list _ => .list
  | record _ => .record

/-- The digits `ds` with the point after the first of them, and the power of ten at the end; the
power has a sign and at least two digits. -/
def powerText (ds : List Char) (power : Int) : List Char :=
  let magnitude := Text.digits power.natAbs
  let places := ds.length - 1
  Text.pointed ds places ++ 'e' :: (if power < 0 then '-' else '+') ::
    (List.replicate (2 - magnitude.length) '0' ++ magnitude)

/-- The magnitude of a fraction, without zeros at the end that say nothing. It is positional with at
least one digit after the point, unless its first digit is more than sixteen places before the point
or more than four after it. -/
def fractionMagnitude (coefficient : Nat) (exponent : Int) : List Char :=
  if coefficient = 0 then
    "0.0".toList
  else
    let (significant, dropped) := Text.dropZeros (Text.digitCount coefficient) coefficient
    let ds := Text.digits significant
    let exponent := exponent + dropped
    let lead := ds.length + exponent
    if -4 < lead && lead ≤ 16 then
      if 0 ≤ exponent then
        ds ++ List.replicate exponent.toNat '0' ++ ['.', '0']
      else
        Text.pointed ds (-exponent).toNat
    else
      powerText ds (lead - 1)

def fractionText : Decimal → List Char
  | .finite negative coefficient exponent =>
    Decimal.signChars negative ++ fractionMagnitude coefficient exponent
  | .infinity negative => Decimal.signChars negative ++ "inf".toList
  | .nan _ _ _ => "nan".toList

mutual

/-- The text of a datum inside other data. -/
def quoted : Datum → String
  | null => "None"
  | bool true => "True"
  | bool false => "False"
  | integer n => String.ofList (Text.signedDigits n)
  | fraction value => String.ofList (fractionText value)
  | text s => Text.quoted s
  | list items => "[" ++ quotedItems items ++ "]"
  | record fields => "\x7b" ++ quotedFields fields ++ "\x7d"

/-- The texts of the items of a list, with commas between them. -/
def quotedItems : List Datum → String
  | [] => ""
  | [item] => quoted item
  | item :: items => quoted item ++ ", " ++ quotedItems items

/-- The texts of the fields of a record, each after its quoted name, with commas between them. -/
def quotedFields : List (String × Datum) → String
  | [] => ""
  | [(name, item)] => Text.quoted name ++ ": " ++ quoted item
  | (name, item) :: fields =>
    Text.quoted name ++ ": " ++ quoted item ++ ", " ++ quotedFields fields

end

/-- The text of a datum on its own: a text stands for itself. -/
def toText : Datum → String
  | text s => s
  | d => d.quoted

/-- Nothing, zero and the empty text, list and record count as absent. -/
def isPresent : Datum → Bool
  | null => false
  | bool value => value
  | integer value => value != 0
  | fraction value => !value.isZero
  | text value => value != ""
  | list items => !items.isEmpty
  | record fields => !fields.isEmpty

def field? (name : String) : Datum → Option Datum
  | record fields => fields.lookup name
  | _ => none

def isText (s : String) : Datum → Bool
  | text value => value == s
  | _ => false

def integer? : Datum → Option Int
  | integer value => some value
  | _ => none

end Datum

end DecimalCalculator
