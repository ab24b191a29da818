import DecimalCalculator.Bindings
import DecimalCalculator.Evaluation.Trace
import DecimalCalculator.Failure
import DecimalCalculator.Token.Stream

/-!
# Contexts and evaluations

A context is what an evaluation reads and changes: the tokens to come, the depth, the bindings of
variables and functions, and the trace so far. An evaluation takes a context to a value or a failure
and in both cases to a context, since what was done before a failure stays done.

A group raises the depth while it is evaluated. A function body is evaluated over its own tokens,
one level deeper and over the same bindings, and the caller goes on in its own tokens at its own
depth.
Only depth zero is the outermost level; a context that is made with a depth below it may also be
inside something.
-/
namespace DecimalCalculator

/-- What an evaluation reads and changes. The trace has its newest event first. -/
structure Context where
  depth : Int
  tokens : TokenStream
  values : Bindings Decimal
  functions : Bindings (List Token)
  trace : List TraceEvent
  deriving DecidableEq, Repr

namespace Context

def start (tokens : List Token) (values : Bindings Decimal)
    (functions : Bindings (List Token)) : Context :=
  ⟨0, tokens, values, functions, []⟩

/-- A context over its own tokens, one level deeper, with the same bindings. -/
def nested (c : Context) (tokens : List Token) : Context :=
  {c with depth := c.depth + 1, tokens := tokens}

def record (c : Context) (event : TraceEvent) : Context :=
  {c with trace := event :: c.trace}

def description (c : Context) : String :=
  "<Context depth=" ++ TraceEvent.numberText c.depth ++ " variables=" ++
    TraceEvent.numberText c.values.size ++ " functions=" ++
    TraceEvent.numberText c.functions.size ++ ">"

end Context

/-- A computation on a context that may fail and keeps the context when it does. -/
abbrev Eval (α : Type) := EStateM Failure Context α

/-- The end of an evaluation: a value or a failure, and the context that it left. -/
abbrev Outcome (α : Type) := EStateM.Result Failure Context α

namespace Outcome

variable {α : Type}

def result : Outcome α → Except Failure α
  | .ok a _ => .ok a
  | .error failure _ => .error failure

def context : Outcome α → Context
  | .ok _ c => c
  | .error _ c => c

def mapContext (f : Context → Context) : Outcome α → Outcome α
  | .ok a c => .ok a (f c)
  | .error failure c => .error failure (f c)

end Outcome

namespace Eval

variable {α : Type}

def fail (error : CalcError) : Eval α := fun c => .error error c

def ofExcept (result : Except Failure α) : Eval α := fun c =>
  match result with
  | .ok a => .ok a c
  | .error failure => .error failure c

def peek : Eval (Option Token) := fun c => .ok c.tokens.peek c

def next : Eval (Option Token) := fun c =>
  .ok c.tokens.next.1 {c with tokens := c.tokens.next.2}

def accept (kind : TokenKind) : Eval (Option Token) := fun c =>
  if c.tokens.peekKind = some kind then next c else .ok none c

def acceptOneOf (symbols : List Symbol) : Eval (Option Symbol) := fun c =>
  match c.tokens with
  | .symbol s :: rest => if s ∈ symbols then .ok (some s) {c with tokens := rest} else .ok none c
  | _ => .ok none c

def takeRun (symbol : Symbol) : Eval Nat := fun c =>
  .ok (c.tokens.takeWhile (· == .symbol symbol)).length
    {c with tokens := c.tokens.dropWhile (· == .symbol symbol)}

def trace (event : TraceEvent) : Eval Unit := fun c => .ok () (c.record event)

def deepen : Eval Unit := fun c => .ok () {c with depth := c.depth + 1}

/-- Comes back up by one level at the end of an evaluation, whichever it is, and traces that. -/
def thenLeave (m : Eval α) : Eval α := fun c =>
  Outcome.mapContext
    (fun d => {d with depth := d.depth - 1}.record (.leaveGroup (d.depth - 1))) (m c)

/-- Evaluates inside a group. The depth is one higher inside, and both ends are traced. -/
def inGroup (m : Eval α) : Eval α := do
  deepen
  trace (.enterGroup (← get).depth)
  thenLeave m

/-- Evaluates over the tokens of a function body, one level deeper. -/
def inBody (body : List Token) (m : Eval α) : Eval α := fun c =>
  Outcome.mapContext (fun d => {d with depth := c.depth, tokens := c.tokens})
    (m (c.nested body))

end Eval

end DecimalCalculator
