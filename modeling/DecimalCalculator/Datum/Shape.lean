/-!
# Shapes of data

What a datum is apart from its content. Where data of one shape is wanted and another one is met,
the message names the shape that was met.
-/
namespace DecimalCalculator

/-- What a datum is apart from its content. -/
inductive Shape where
  | null
  | bool
  | integer
  | fraction
  | text
  | list
  | record
  deriving DecidableEq, Repr

def Shape.name : Shape → String
  | null => "NoneType"
  | bool => "bool"
  | integer => "int"
  | fraction => "float"
  | text => "str"
  | list => "list"
  | record => "dict"

end DecimalCalculator
