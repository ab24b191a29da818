import DecimalCalculator.Evaluation.Context

/-!
# Operator chains

A chain `a op b op c` is evaluated in two passes. First its operands are evaluated from left to
right, each after the operator in front of it; then the operators are applied from right to left, so
that the chain means `a op (b op c)`. All operands are therefore evaluated before any operator is
applied, and a long chain nests nothing.
-/
namespace DecimalCalculator.Eval

variable {α : Type}

/-- The operators at the front with the operands after them, at most as many as `bound` has tokens.
Every operator takes a token, so the tokens to come are bound enough. -/
def operands (operators : List Symbol) (operand : Eval α) (bound : TokenStream) :
    Eval (List (Symbol × α)) :=
  match bound with
  | [] => pure []
  | _ :: bound => do
    match ← acceptOneOf operators with
    | none => pure []
    | some op =>
      let value ← operand
      let rest ← operands operators operand bound
      pure ((op, value) :: rest)

def allOperands (operators : List Symbol) (operand : Eval α) : Eval (List (Symbol × α)) := do
  operands operators operand (← get).tokens

/-- Applies the operators of a chain from right to left. -/
def foldBack (apply : Symbol → α → α → Except Failure α) : α → List (Symbol × α) → Except Failure α
  | first, [] => .ok first
  | first, (op, second) :: rest => do apply op first (← foldBack apply second rest)

def chain (operators : List Symbol) (apply : Symbol → α → α → Except Failure α)
    (operand : Eval α) : Eval α := do
  let first ← operand
  let rest ← allOperands operators operand
  ofExcept (foldBack apply first rest)

end DecimalCalculator.Eval
