import DecimalCalculator.Datum
import DecimalCalculator.Failure

/-!
# Lexemes

A source text is cut into leaves before tokens are made of them: numbers, names and operators, each
with its text and the place where it begins. Leaves may also come from outside, out of a tree that
some grammar produced; then the text is a datum that has yet to be checked, the place may be
missing, and there may be leaves of other kinds, which mean nothing and only keep their neighbours
apart.
-/
namespace DecimalCalculator

inductive LexemeKind where
  | number
  | name
  | operator
  | other
  deriving DecidableEq, Repr

structure Lexeme where
  kind : LexemeKind
  text : Datum
  position : Option Position
  deriving Repr

namespace Lexeme

def isOperator (text : String) (leaf : Lexeme) : Bool :=
  leaf.kind == .operator && leaf.text.isText text

end Lexeme

end DecimalCalculator
