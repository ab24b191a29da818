import DecimalCalculator.Evaluation.Cascade
import DecimalCalculator.Proofs.Syntax.Expr

/-!
# What trees mean

The meaning of a syntax tree as a relation between the bindings before it, its value and the
bindings after it. Operands and arguments are evaluated from left to right and an operator is
applied after them, so whatever an operand assigns or defines is seen by those to its right. An
assignment and a definition have the value zero.

A call evaluates its arguments, looks the function up in the bindings that they left, and evaluates
the tree that the body spells with the arguments bound to the positional names, which are unbound
afterwards. Groups, arguments and bodies lie one level deeper than what contains them and must stay
below the bound on the depth.
-/
namespace DecimalCalculator

/-- The bindings that an expression reads and changes. -/
structure Store where
  values : Bindings Decimal
  functions : Bindings (List Token)

namespace Store

def assign (s : Store) (name : String) (value : Decimal) : Store :=
  {s with values := s.values.insert name value}

def define (s : Store) (name : String) (body : List Token) : Store :=
  {s with functions := s.functions.insert name body}

/-- The bindings with arguments bound to the positional names. -/
def enter (s : Store) (actuals : List Decimal) : Store :=
  {s with values := Eval.bindFrom 1 s.values actuals}

/-- The bindings without the first `count` positional names. -/
def leave (s : Store) (count : Nat) : Store :=
  {s with values := Eval.unbind s.values count}

end Store

mutual

/-- In the bindings `s` the tree has the value `a` and leaves the bindings `t`. -/
inductive Evaluates (settings : Settings) : Nat → Expr → Store → Decimal → Store → Prop
  | number {depth : Nat} {s : Store} (a : Decimal) : Evaluates settings depth (.number a) s a s
  | read {depth : Nat} {s : Store} {name : String} {a : Decimal} :
    s.values.get? name = some a → Evaluates settings depth (.read name) s a s
  | group {depth : Nat} {e : Expr} {s t : Store} {a : Decimal} :
    depth + 1 < settings.maxDepth → Evaluates settings (depth + 1) e s a t →
    Evaluates settings depth (.group e) s a t
  | abs {depth : Nat} {es : List Expr} {s t : Store} {a : Decimal} :
    EvaluatesAll settings depth es s [a] t → Evaluates settings depth (.call "abs" es) s a.abs t
  | pow {depth : Nat} {es : List Expr} {s t : Store} {a b r : Decimal} :
    EvaluatesAll settings depth es s [a, b] t →
    Arithmetic.power settings.memory settings.precision a b = .ok r →
    Evaluates settings depth (.call "pow" es) s r t
  | call {depth : Nat} {name : String} {es : List Expr} {s t u : Store} {actuals : List Decimal}
    {body : Expr} {a : Decimal} : name ≠ "abs" → name ≠ "pow" →
    EvaluatesAll settings depth es s actuals t → t.functions.get? name = some body.spelling →
    body.WellFormed settings.maxDepth → depth + 1 < settings.maxDepth →
    Evaluates settings (depth + 1) body (t.enter actuals) a u →
    Evaluates settings depth (.call name es) s a (u.leave actuals.length)
  | assign {depth : Nat} {e : Expr} {s t : Store} {a : Decimal} (name : String) :
    Evaluates settings depth e s a t →
    Evaluates settings depth (.assign name e) s Decimal.zero (t.assign name a)
  | define {depth : Nat} {s : Store} (name : String) (body : List Token) :
    Evaluates settings depth (.define name body) s Decimal.zero (s.define name body)
  | minus {depth : Nat} {e : Expr} {s t : Store} {a : Decimal} :
    Evaluates settings depth e s a t → Evaluates settings depth (.minus e) s a.neg t
  | complement {depth : Nat} {e : Expr} {s t : Store} {a r : Decimal} :
    Evaluates settings depth e s a t → Arithmetic.complement a = .ok r →
    Evaluates settings depth (.complement e) s r t
  | factorial {depth : Nat} {e : Expr} {s t : Store} {a r : Decimal} :
    Evaluates settings depth e s a t → Arithmetic.factorial settings.memory a = .ok r →
    Evaluates settings depth (.factorial e) s r t
  | binary {depth : Nat} {op : Symbol} {left right : Expr} {s t u : Store} {a b r : Decimal} :
    Evaluates settings depth left s a t → Evaluates settings depth right t b u →
    Arithmetic.apply settings.memory settings.precision op.family (.symbol op) a b = .ok r →
    Evaluates settings depth (.binary op left right) s r u

/-- The same for arguments, each evaluated one level deeper. -/
inductive EvaluatesAll (settings : Settings) :
    Nat → List Expr → Store → List Decimal → Store → Prop
  | nil {depth : Nat} {s : Store} : EvaluatesAll settings depth [] s [] s
  | cons {depth : Nat} {e : Expr} {es : List Expr} {s t u : Store} {a : Decimal}
    {actuals : List Decimal} : depth + 1 < settings.maxDepth →
    Evaluates settings (depth + 1) e s a t → EvaluatesAll settings depth es t actuals u →
    EvaluatesAll settings depth (e :: es) s (a :: actuals) u

end

end DecimalCalculator
