import DecimalCalculator.Failure
import DecimalCalculator.Token.Stream

/-!
# Capturing a definition

The body of a definition is the tokens up to the parenthesis that closes the one before them. They
are not evaluated. A separator outside inner parentheses is refused, since a function takes its
arguments by position, and so is a body whose parentheses go deeper than a bound; the parenthesis
around the body counts as the first.
-/
namespace DecimalCalculator

def Token.openAfter (opened : Nat) : Token → Nat
  | .symbol .parenOpen => opened + 1
  | .symbol .parenClose => opened - 1
  | _ => opened

/-- The body that is captured with `opened` parentheses open, and the tokens after the parenthesis
that closes it, or after the token at which the capture fails. -/
def capture (maxDepth opened : Nat) :
    TokenStream → Except CalcError (List Token) × TokenStream
  | [] => (.error .unclosedParen, [])
  | t :: rest =>
    if t = .symbol .separator ∧ opened = 1 then
      (.error .separatorInDefinition, rest)
    else if t.openAfter opened = 0 then
      (.ok [], rest)
    else if maxDepth ≤ t.openAfter opened then
      (.error (.tooDeep .definition), rest)
    else
      let (body, after) := capture maxDepth (t.openAfter opened) rest
      (body.map (t :: ·), after)

end DecimalCalculator
