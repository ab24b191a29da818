import DecimalCalculator.Decimal.Notation
import DecimalCalculator.Text.Quoted

/-!
# Trace of an evaluation

An evaluation leaves a trace of the groups it enters and leaves, of its calls of user functions and
of the definitions it captures. Each event can be shown as a line.
-/
namespace DecimalCalculator

/-- A step of an evaluation that its trace shows. -/
inductive TraceEvent where
  | enterGroup (depth : Int)
  | leaveGroup (depth : Int)
  | call (name : String) (arguments : List Decimal) (depth : Int)
  | define (name : String) (tokens : Nat)
  deriving DecidableEq, Repr

namespace TraceEvent

/-- A count or a depth in a line of the trace. -/
def numberText (n : Int) : String := String.ofList (Text.signedDigits n)

/-- The arguments of a call in exact notation, quoted and in brackets. -/
def argumentsText (arguments : List Decimal) : String :=
  "[" ++ ", ".intercalate (arguments.map fun a => Text.quoted a.exact) ++ "]"

def text : TraceEvent → String
  | enterGroup depth => "[DBG] enter group depth " ++ numberText depth
  | leaveGroup depth => "[DBG] leave group depth " ++ numberText depth
  | call name arguments depth =>
    "[DBG] call " ++ name ++ " " ++ argumentsText arguments ++ " depth " ++ numberText depth
  | define name tokens => "[DBG] define " ++ name ++ " tokens " ++ numberText tokens

end TraceEvent

end DecimalCalculator
