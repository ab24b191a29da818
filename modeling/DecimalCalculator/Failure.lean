import DecimalCalculator.Datum.Shape
import DecimalCalculator.Token.Basic

/-!
# Failures

A calculation fails for one of a closed set of reasons, each with a name and a message. Apart from
these there are faults, which are no answer to an expression: limits of the arithmetic and of the
memory, and data or settings that make no sense. A line that ends in a fault is reported as an
internal error.

A message may show a number that is too long for the memory; then it cannot be printed.
-/
namespace DecimalCalculator

/-- The bound that a nesting went over: the depth of groups and bodies, the depth of parentheses in
a definition, or the number of expressions that are evaluated inside one another. -/
inductive NestingBound where
  | depth
  | definition
  | expressions
  deriving DecidableEq, Repr

/-- A place in a text as messages show it. -/
structure Position where
  line : String
  column : String
  deriving DecidableEq, Repr

/-- Why a calculation fails. -/
inductive CalcError where
  | unspecified
  | divideByZero
  | expectedEnd (found : Token)
  | incorrectArguments (expected got : String)
  | invalidSyntax
  | notPositive
  | notPrimitive (primitive : String)
  | notWhole
  | parse (message : String) (position : Option Position)
  | separatorInDefinition
  | tooDeep (bound : NestingBound)
  | unclosedParen
  | unknownFunction (name : String)
  | unknownVariable (name : String)
  deriving DecidableEq, Repr

namespace CalcError

def kind : CalcError → String
  | unspecified => "CalcError"
  | divideByZero => "DivideByZero"
  | expectedEnd _ => "ExpectedEOF"
  | incorrectArguments _ _ => "IncorrectArguments"
  | invalidSyntax => "InvalidSyntax"
  | notPositive => "NotAPositive"
  | notPrimitive _ => "NotAPrimitive"
  | notWhole => "NotAWhole"
  | parse _ _ => "ParseError"
  | separatorInDefinition => "SeparatorInDef"
  | tooDeep _ => "TooDeep"
  | unclosedParen => "UnclosedParen"
  | unknownFunction _ => "UnknownFunction"
  | unknownVariable _ => "UnknownVariable"

def description : CalcError → String
  | unspecified => "Calculation error"
  | divideByZero => "Cannot divide by zero"
  | expectedEnd _ => "Expected EOF"
  | incorrectArguments _ _ => "Incorrect amount of arguments"
  | invalidSyntax => "Invalid syntax"
  | notPositive => "You may only do this on positive numbers"
  | notPrimitive _ => "You may only do this on a specific primitive types"
  | notWhole => "You may only do this on whole numbers"
  | parse _ _ => "Parse error"
  | separatorInDefinition => "A function definition cannot have multiple arguments"
  | tooDeep _ => "Too many levels deep. This could be an issue with endless recursion."
  | unclosedParen => "Unclosed parenthesis"
  | unknownFunction _ => "Unknown function"
  | unknownVariable _ => "Unknown variable"

def integerText (n : Int) : String :=
  String.ofList (Text.signedDigits n)

/-- The error that a function of `expected` arguments was given `got` of them. -/
def wrongCount (expected got : Nat) : CalcError :=
  incorrectArguments (integerText expected) (integerText got)

def message : CalcError → String
  | expectedEnd found => "Expected EOF, found " ++ found.spelling
  | incorrectArguments expected got =>
    "Incorrect amount of arguments (Expected " ++ expected ++ ", got " ++ got ++ ")"
  | notPrimitive primitive => "Must fit in the range of an " ++ primitive ++ " primitive"
  | parse message none => message
  | parse message (some position) =>
    message ++ " (line " ++ position.line ++ ", col " ++ position.column ++ ")"
  | unknownFunction name =>
    "Unknown function \"" ++ name ++
      "\"\nHint: Cannot assume multiplication of variables because of ambiguity"
  | unknownVariable name => "Unknown variable \"" ++ name ++ "\""
  | e => e.description

def isPrintable (memory : Memory) : CalcError → Bool
  | expectedEnd found => found.isPrintable memory
  | _ => true

end CalcError

/-- A family of operators that are applied alike. -/
inductive OperatorFamily where
  | bitwise
  | shift
  | arithmetic
  deriving DecidableEq, Repr

/-- The name of a family in messages, with its article. -/
def OperatorFamily.title : OperatorFamily → String
  | bitwise => "a bitwise"
  | shift => "a shift"
  | arithmetic => "an arithmetic"

/-- What goes wrong without being an answer to an expression. Payloads and keys are given by their
text inside messages. -/
inductive Fault where
  | signal (signal : Decimal.Signal)
  | infiniteInteger
  | precisionLimit
  | precisionWidth
  | precisionSetting (got : Int)
  | depthSetting (got : Int)
  | invalidPayload (kind : TokenKind) (payload : String)
  | notNumeric (payload : String)
  | notNaming (kind : TokenKind) (payload : String)
  | unknownKey (key : String)
  | notKey (shape : Shape)
  | notRecord (shape : Shape)
  | lacksMember (shape : Shape) (member : String)
  | wrongFamily (family : OperatorFamily) (kind : TokenKind)
  | unsuitable (message : String)
  deriving DecidableEq, Repr

namespace Fault

def kind : Fault → String
  | signal .overflow => "Overflow"
  | signal .outOfMemory => "MemoryError"
  | signal _ => "InvalidOperation"
  | infiniteInteger | precisionWidth => "OverflowError"
  | precisionLimit | precisionSetting _ | depthSetting _ => "ValueError"
  | invalidPayload _ _ | notNumeric _ | notNaming _ _ | unsuitable _ => "ValueError"
  | unknownKey _ => "KeyError"
  | notKey _ | notRecord _ => "TypeError"
  | lacksMember _ _ => "AttributeError"
  | wrongFamily _ _ => "AssertionError"

def message : Fault → String
  | signal .malformed => "[<class 'decimal.ConversionSyntax'>]"
  | signal .invalidOperation => "[<class 'decimal.InvalidOperation'>]"
  | signal .overflow => "[<class 'decimal.Overflow'>]"
  | signal .outOfMemory => ""
  | infiniteInteger => "cannot convert Infinity to integer"
  | precisionLimit => "valid range for prec is [1, MAX_PREC]"
  | precisionWidth => "Python int too large to convert to C ssize_t"
  | precisionSetting got =>
    "division_precision must be positive, got " ++ CalcError.integerText got
  | depthSetting got => "max_depth must be between 1 and 255, got " ++ CalcError.integerText got
  | invalidPayload kind payload =>
    "Token " ++ kind.name ++ " has an invalid payload: " ++ payload
  | notNumeric payload => "Token NUM needs a Decimal, int or str payload, got " ++ payload
  | notNaming kind payload =>
    "Token " ++ kind.name ++ " needs a name payload, got " ++ payload
  | unknownKey key => key
  | notKey shape => "unhashable type: '" ++ shape.name ++ "'"
  | notRecord .text => "string indices must be integers, not 'str'"
  | notRecord .list => "list indices must be integers or slices, not str"
  | notRecord shape => "'" ++ shape.name ++ "' object is not subscriptable"
  | lacksMember shape member =>
    "'" ++ shape.name ++ "' object has no attribute '" ++ member ++ "'"
  | wrongFamily family kind =>
    "not " ++ family.title ++ " operator: TokenKind." ++ kind.name
  | unsuitable message => message

end Fault

/-- Why there is no result: a failed calculation or a fault. -/
inductive Failure where
  | calculation (error : CalcError)
  | fault (fault : Fault)
  deriving DecidableEq, Repr

namespace Failure

instance : Coe CalcError Failure := ⟨calculation⟩

instance : Coe Fault Failure := ⟨fault⟩

/-- A result of decimal arithmetic, whose signals are faults. -/
def ofSignal {α : Type} : Except Decimal.Signal α → Except Failure α
  | .ok a => .ok a
  | .error s => .error (Fault.signal s)

def kind : Failure → String
  | calculation e => e.kind
  | fault f => f.kind

def message : Failure → String
  | calculation e => e.message
  | fault f => f.message

def isPrintable (memory : Memory) : Failure → Bool
  | calculation e => e.isPrintable memory
  | fault _ => true

def print (memory : Memory) (failure : Failure) : Except Failure String :=
  if failure.isPrintable memory then .ok failure.message
  else .error (Fault.signal .outOfMemory)

/-- The message as the report of a line gives it: faults are internal errors and named there. -/
def report : Failure → String
  | calculation e => e.message
  | fault f =>
    if f.message = "" then "InternalError: " ++ f.kind
    else "InternalError: " ++ f.kind ++ ": " ++ f.message

end Failure

end DecimalCalculator
