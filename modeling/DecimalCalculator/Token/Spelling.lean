import DecimalCalculator.Token.Basic

/-!
# Writing a token sequence

A sequence is written token by token with a space between two tokens, except after an opening
parenthesis, a called name or a complement sign, and before a closing parenthesis, a separator or a
factorial sign.
-/
namespace DecimalCalculator.Token

def clingsToNext : Token → Bool
  | symbol .parenOpen | symbol .not | call _ => true
  | _ => false

def clingsToPrevious : Token → Bool
  | symbol .parenClose | symbol .separator | symbol .factorial => true
  | _ => false

/-- What stands between two neighbouring tokens. -/
def spacing (before after : Token) : String :=
  if before.clingsToNext || after.clingsToPrevious then "" else " "

/-- The tokens after `before`, each with the space in front of it. -/
def spellingAfter (before : Token) : List Token → String
  | [] => ""
  | t :: rest => spacing before t ++ t.spelling ++ spellingAfter t rest

def spellings : List Token → String
  | [] => ""
  | t :: rest => t.spelling ++ spellingAfter t rest

def printAll (memory : Memory) (ts : List Token) : Except Decimal.Signal String :=
  if ts.all (isPrintable memory) then .ok (spellings ts) else .error .outOfMemory

end DecimalCalculator.Token
