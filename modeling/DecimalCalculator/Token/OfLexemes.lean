import DecimalCalculator.Lexeme.Scan
import DecimalCalculator.Lexeme.Tree
import DecimalCalculator.Token.Payload

/-!
# Tokens of a source text

Leaves become tokens one by one, but what a name is used for shows in the leaf after it: before an
equals sign it is assigned to, before an opening parenthesis it is called, and otherwise it is read.
An equals sign makes no token of its own and may stand only after a name, which takes it.
-/
namespace DecimalCalculator.Token

/-- What a name is used for, from the leaf after it. -/
def useOfName (next : Option Lexeme) : TokenKind :=
  if next.any (·.isOperator "=") then .assign
  else if next.any (·.isOperator "(") then .call
  else .read

/-- The token of an operator leaf other than the equals sign. -/
def ofOperator (text : Datum) : Except Failure Token :=
  match text with
  | .text s =>
    match Symbol.ofSpelling? s with
    | some sign => .ok (.symbol sign)
    | none => .error (Fault.unknownKey text.quoted)
  | .list _ | .record _ => .error (Fault.notKey text.shape)
  | _ => .error (Fault.unknownKey text.quoted)

/-- The tokens of one leaf that is not taken by a name, of which there are at most one. -/
def ofLexeme (leaf : Lexeme) (next : Option Lexeme) : Except Failure (List Token) :=
  match leaf.kind with
  | .number => (ofPayload .number leaf.text).map ([·])
  | .name => (ofPayload (useOfName next) leaf.text).map ([·])
  | .other => .ok []
  | .operator =>
    if leaf.text.isText "=" then
      .error (CalcError.parse "Unexpected '=' without a name to assign" leaf.position)
    else
      (ofOperator leaf.text).map ([·])

/-- Whether a leaf of the given kind takes the leaf after it. -/
def takesNext (kind : LexemeKind) (next : Option Lexeme) : Bool :=
  kind == .name && useOfName next == .assign

/-- The tokens of a sequence of leaves; the flag says whether the leaf before them has taken the
first of them. -/
def ofLexemesAfter (taken : Bool) : List Lexeme → Except Failure (List Token)
  | [] => .ok []
  | leaf :: rest =>
    if taken then
      ofLexemesAfter false rest
    else do
      let first ← ofLexeme leaf rest.head?
      return first ++ (← ofLexemesAfter (takesNext leaf.kind rest.head?) rest)

def ofLexemes : List Lexeme → Except Failure (List Token) :=
  ofLexemesAfter false

def ofSource (source : String) : Except Failure (List Token) :=
  match Lexeme.scan source with
  | some leaves => ofLexemes leaves
  | none => .error (CalcError.parse "parse failed" none)

/-- The tokens of the leaves of a parse tree; the flag says whether the leaf before them has taken
the first of them. Every leaf that is not taken is checked when its turn comes, and the leaf after
it is looked at as well. -/
def ofLeavesAfter (taken : Bool) : List Datum → Except Failure (List Token)
  | [] => .ok []
  | leaf :: rest =>
    if taken then
      ofLeavesAfter false rest
    else do
      let text ← Lexeme.require "text" leaf
      let next ← Lexeme.operatorAhead rest
      let kind := Lexeme.kindOfTag (← Lexeme.require "tag" leaf)
      let first ← ofLexeme ⟨kind, text, Lexeme.positionOf leaf⟩ next
      return first ++ (← ofLeavesAfter (takesNext kind next) rest)

def ofLeaves : List Datum → Except Failure (List Token) :=
  ofLeavesAfter false

def ofParse (result : Datum) : Except Failure (List Token) := do
  ofLeaves (Lexeme.leaves (← Lexeme.treeOfParse result))

end DecimalCalculator.Token
