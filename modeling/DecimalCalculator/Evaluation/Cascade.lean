import DecimalCalculator.Arithmetic.Operator
import DecimalCalculator.Arithmetic.Power
import DecimalCalculator.Evaluation.Capture
import DecimalCalculator.Evaluation.Chain
import DecimalCalculator.Evaluation.Settings

/-!
# Evaluating expressions

An expression is evaluated while its tokens are read. Six levels of binary operators, each a chain
over the next, stand above the factorial sign, the complement sign, the minus sign and the atoms.
An atom is a number, a variable, a group, a call, an assignment or a definition; the expression
inside a group, an argument, a body or an assignment is evaluated in the same way, so every level
takes that evaluation (`inner`) as an argument and `calculate` ties the knot. It recurses on the
number of expressions that may still be opened.

What is left after an expression must be nothing, except that inside a group or a body a closing
parenthesis or a separator is left for what encloses it.
-/
namespace DecimalCalculator.Eval

structure Level where
  operators : List Symbol
  family : OperatorFamily
  deriving DecidableEq, Repr

/-- The levels of binary operators, the weakest first. -/
def levels : List Level := [
  ⟨[.xor], .bitwise⟩,
  ⟨[.or], .bitwise⟩,
  ⟨[.and], .bitwise⟩,
  ⟨[.shiftLeft, .shiftRight], .shift⟩,
  ⟨[.add, .sub], .arithmetic⟩,
  ⟨[.mul, .div], .arithmetic⟩]

/-- The name that an argument is bound to in a body; the first argument has the number 1. -/
def positionalName (number : Nat) : String :=
  String.ofList ('$' :: Text.digits number)

/-- Binds arguments to their positional names, the first of them to the given number. -/
def bindFrom (number : Nat) (values : Bindings Decimal) : List Decimal → Bindings Decimal
  | [] => values
  | a :: rest => bindFrom (number + 1) (values.insert (positionalName number) a) rest

def unbind (values : Bindings Decimal) : Nat → Bindings Decimal
  | 0 => values
  | count + 1 => (unbind values count).erase (positionalName (count + 1))

def bindArguments (arguments : List Decimal) : Eval Unit := fun c =>
  .ok () {c with values := bindFrom 1 c.values arguments}

/-- Removes the first `count` positional names at the end of an evaluation, whichever it is. -/
def thenUnbind {α : Type} (count : Nat) (m : Eval α) : Eval α := fun c =>
  Outcome.mapContext (fun d => {d with values := unbind d.values count}) (m c)

def assign (name : String) (value : Decimal) : Eval Unit := fun c =>
  .ok () {c with values := c.values.insert name value}

def lookup (name : String) : Eval Decimal := fun c =>
  match c.values.get? name with
  | some value => .ok value c
  | none => .error (CalcError.unknownVariable name) c

def sole : List Decimal → Eval Decimal
  | [a] => pure a
  | arguments => fail (.wrongCount 1 arguments.length)

/-- Checks that nothing is left after an expression but what belongs to an enclosing construct. -/
def finish : Eval Unit := do
  match ← peek with
  | none => pure ()
  | some t =>
    if (← get).depth ≠ 0 ∧ (t = .symbol .parenClose ∨ t = .symbol .separator) then
      pure ()
    else
      discard next
      fail (.expectedEnd t)

section

variable (settings : Settings) (inner : Eval Decimal)

/-- Captures the definition of a function, after the parenthesis that opens its body. -/
def define (name : String) : Eval Unit := fun c =>
  match capture settings.maxDepth 1 c.tokens with
  | (.ok body, rest) =>
    .ok () ({c with tokens := rest, functions := c.functions.insert name body}.record
      (.define name body.length))
  | (.error error, rest) => .error error {c with tokens := rest}

/-- Evaluates the arguments after an opening parenthesis, and takes the closing one. -/
def arguments : Eval (List Decimal) := do
  let values ←
    if (← peek) = some (.symbol .parenClose) then
      pure []
    else
      inGroup do
        let first ← inner
        let rest ← allOperands [.separator] inner
        pure (first :: rest.map Prod.snd)
  match ← accept (.symbol .parenClose) with
  | some _ => pure values
  | none => fail .unclosedParen

/-- Calls a user function: its body is evaluated with the arguments bound. -/
def callBody (name : String) (body : List Token) (actuals : List Decimal) : Eval Decimal := do
  bindArguments actuals
  trace (.call name actuals ((← get).depth + 1))
  thenUnbind actuals.length (inBody body inner)

/-- Calls a function. The two functions of the calculator come before those of the user. -/
def call (name : String) (actuals : List Decimal) : Eval Decimal :=
  if name = "abs" then
    match actuals with
    | [a] => pure a.abs
    | _ => fail (.wrongCount 1 actuals.length)
  else if name = "pow" then
    match actuals with
    | [a, b] => ofExcept (Arithmetic.power settings.memory settings.precision a b)
    | _ => fail (.wrongCount 2 actuals.length)
  else do
    match (← get).functions.get? name with
    | some body => callBody inner name body actuals
    | none => fail (.unknownFunction name)

def atom : Eval Decimal := do
  match ← next with
  | some (.symbol .parenOpen) => sole (← arguments inner)
  | some (.call name) =>
    match ← accept (.symbol .parenOpen) with
    | some _ => call settings inner name (← arguments inner)
    | none => fail .invalidSyntax
  | some (.number value) => pure value
  | some (.assign name) =>
    match ← accept (.symbol .parenOpen) with
    | some _ => define settings name
    | none => assign name (← inner)
    pure Decimal.zero
  | some (.read name) => lookup name
  | _ => fail .invalidSyntax

/-- Evaluates an atom with the minus signs before it. -/
def primary : Eval Decimal := do
  let signs ← takeRun .sub
  let value ← atom settings inner
  pure (if signs % 2 = 1 then value.neg else value)

/-- Evaluates a primary with the complement signs before it. -/
def complemented : Eval Decimal := do
  let signs ← takeRun .not
  let value ← primary settings inner
  ofExcept (Arithmetic.complements signs value)

/-- Evaluates a complemented primary with the factorial sign after it, if there is one. -/
def operand : Eval Decimal := do
  let value ← complemented settings inner
  match ← accept (.symbol .factorial) with
  | some _ => ofExcept (Arithmetic.factorial settings.memory value)
  | none => pure value

def cascade : List Level → Eval Decimal
  | [] => operand settings inner
  | level :: rest =>
    chain level.operators
      (fun op => Arithmetic.apply settings.memory settings.precision level.family (.symbol op))
      (cascade rest)

/-- Evaluates an expression, whose nested expressions are evaluated by `inner`. -/
def expression : Eval Decimal := do
  if (settings.maxDepth : Int) ≤ (← get).depth then
    fail (.tooDeep .depth)
  else
    let value ← cascade settings inner levels
    finish
    pure value

end

/-- Evaluates an expression, with a bound on the expressions that are open at a time, this one
included. -/
def calculate (settings : Settings) : Nat → Eval Decimal
  | 0 => fail (.tooDeep .expressions)
  | bound + 1 => expression settings (calculate settings bound)

end DecimalCalculator.Eval

namespace DecimalCalculator

def evaluate (settings : Settings) (tokens : List Token) (values : Bindings Decimal)
    (functions : Bindings (List Token)) : Outcome Decimal :=
  Eval.calculate settings settings.expressionLimit (Context.start tokens values functions)

end DecimalCalculator
