import DecimalCalculator.Decimal.Notation
import DecimalCalculator.Text.Quoted
import DecimalCalculator.Token.Kind

/-!
# Tokens

A token is a symbol, a number, or a name in one of its three uses: the name of a function that is
called, a name that is assigned to (the equals sign belongs to the token), and a variable that is
read.

Two tokens are the same when their kinds and names are and their numbers have the same value
(`same`); equality of the type also tells spellings of one number apart.
-/
namespace DecimalCalculator

inductive Token where
  | symbol (symbol : Symbol)
  | number (value : Decimal)
  | call (name : String)
  | assign (name : String)
  | read (name : String)
  deriving DecidableEq, Repr

namespace Token

def kind : Token → TokenKind
  | symbol s => .symbol s
  | number _ => .number
  | call _ => .call
  | assign _ => .assign
  | read _ => .read

/-- Whether two tokens are the same up to the spelling of their numbers. A signaling value cannot be
compared. -/
def same : Token → Token → Except Decimal.Signal Bool
  | number a, number b =>
    if a.isSignaling || b.isSignaling then .error .invalidOperation else .ok (a.sameValue b)
  | a, b => .ok (a == b)

def spelling : Token → String
  | symbol s => s.spelling
  | number value => value.plain
  | call name => name
  | assign name => name ++ " ="
  | read name => name

def isPrintable (memory : Memory) : Token → Bool
  | number value => value.isPrintable memory
  | _ => true

def print (memory : Memory) (t : Token) : Except Decimal.Signal String :=
  if t.isPrintable memory then .ok t.spelling else .error .outOfMemory

/-- A token in messages: its kind, and what it carries in exact form. -/
def description : Token → String
  | symbol s => "Token<" ++ s.name ++ ">"
  | number value => "Token<NUM Decimal('" ++ value.exact ++ "')>"
  | call name => "Token<BLOCK_NAME " ++ Text.quoted name ++ ">"
  | assign name => "Token<VAR_ASSIGN " ++ Text.quoted name ++ ">"
  | read name => "Token<VAR_GET " ++ Text.quoted name ++ ">"

end Token

end DecimalCalculator
