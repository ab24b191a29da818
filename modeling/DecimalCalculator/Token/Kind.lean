/-!
# Kinds of tokens

The kinds of tokens form a closed set. Fourteen of them are symbols, which carry nothing and have
one spelling each; the other four carry a number or a name.
-/
namespace DecimalCalculator

inductive Symbol where
  | xor | or | and
  | shiftLeft | shiftRight
  | add | sub | mul | div
  | factorial | not
  | parenOpen | parenClose
  | separator
  deriving DecidableEq, Repr

namespace Symbol

def all : List Symbol :=
  [xor, or, and, shiftLeft, shiftRight, add, sub, mul, div, factorial, not, parenOpen, parenClose,
    separator]

def spelling : Symbol → String
  | xor => "^"
  | or => "|"
  | and => "&"
  | shiftLeft => "<<"
  | shiftRight => ">>"
  | add => "+"
  | sub => "-"
  | mul => "*"
  | div => "/"
  | factorial => "!"
  | not => "~"
  | parenOpen => "("
  | parenClose => ")"
  | separator => ","

def ofSpelling? (s : String) : Option Symbol :=
  all.find? (·.spelling == s)

def name : Symbol → String
  | xor => "XOR"
  | or => "OR"
  | and => "AND"
  | shiftLeft => "SHIFT_LEFT"
  | shiftRight => "SHIFT_RIGHT"
  | add => "ADD"
  | sub => "SUB"
  | mul => "MUL"
  | div => "DIV"
  | factorial => "FACTORIAL"
  | not => "NOT"
  | parenOpen => "PAREN_OPEN"
  | parenClose => "PAREN_CLOSE"
  | separator => "SEPARATOR"

theorem ofSpelling?_spelling (s : Symbol) : ofSpelling? s.spelling = some s := by
  cases s <;> rfl

end Symbol

/-- A kind of tokens: a symbol, a number, or one of the three uses of a name. -/
inductive TokenKind where
  | symbol (symbol : Symbol)
  | number
  | call
  | assign
  | read
  deriving DecidableEq, Repr

namespace TokenKind

def all : List TokenKind :=
  Symbol.all.map symbol ++ [number, call, assign, read]

def name : TokenKind → String
  | symbol s => s.name
  | number => "NUM"
  | call => "BLOCK_NAME"
  | assign => "VAR_ASSIGN"
  | read => "VAR_GET"

def ofName? (s : String) : Option TokenKind :=
  all.find? (·.name == s)

end TokenKind

end DecimalCalculator
