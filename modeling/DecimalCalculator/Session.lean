import DecimalCalculator.Evaluation.Cascade
import DecimalCalculator.Text.Blank
import DecimalCalculator.Token.OfLexemes
import DecimalCalculator.Token.Spelling

/-!
# Sessions

A session evaluates lines one after another over bindings that outlive each of them. What a line
changed before it failed stays changed. Functions are defined by evaluating a definition, so the
same conditions hold for a body however it is given, and every defined function can be written down
as the line that defines it.
-/
namespace DecimalCalculator

structure Session where
  settings : Settings
  values : Bindings Decimal
  functions : Bindings (List Token)

/-- What a step of a session gives: a result, the session after it, and the trace of its evaluation
from the oldest event on. -/
structure Step (α : Type) where
  result : Except Failure α
  session : Session
  trace : List TraceEvent

inductive LineStatus where
  | success
  | error
  deriving DecidableEq, Repr

/-- The report of a line. A blank line succeeds without a value. -/
structure LineReport where
  status : LineStatus
  value : Option Decimal
  message : Option String
  failure : Option Failure
  deriving DecidableEq, Repr

namespace LineReport

/-- The report of a line that gave a result. The message of a failure is part of it. -/
def ofResult (memory : Memory) : Except Failure Decimal → Except Failure LineReport
  | .ok value => .ok ⟨.success, some value, none, none⟩
  | .error failure =>
    if failure.isPrintable memory then .ok ⟨.error, none, some failure.report, some failure⟩
    else .error (Fault.signal .outOfMemory)

def blank : LineReport := ⟨.success, none, none, none⟩

/-- The error of a report as it is shown: the kind of a failed calculation stands before the
message. A line that succeeded has no error. -/
def errorText (report : LineReport) : String :=
  match report.status with
  | .success => ""
  | .error =>
    let message := match report.message with
      | some message => if message = "" then "Unknown error" else message
      | none => "Unknown error"
    match report.failure with
    | some (.calculation error) => error.kind ++ ": " ++ message
    | _ => message

/-- The value of a report as it is shown, if that fits into the memory. -/
def printValue (memory : Memory) (report : LineReport) : Except Failure String :=
  match report.value with
  | some value => Failure.ofSignal (value.print memory)
  | none => .ok "none"

end LineReport

namespace Session

def new (settings : Settings) : Session := ⟨settings, .empty, .empty⟩

def evaluateTokens (session : Session) (tokens : List Token) : Step Decimal :=
  let outcome := DecimalCalculator.evaluate session.settings tokens session.values
    session.functions
  let c := Outcome.context outcome
  ⟨Outcome.result outcome, {session with values := c.values, functions := c.functions},
    c.trace.reverse⟩

def evaluate (session : Session) (source : String) : Step Decimal :=
  match Token.ofSource source with
  | .ok tokens => session.evaluateTokens tokens
  | .error failure => ⟨.error failure, session, []⟩

/-- Evaluates a line and reports on it. A blank line is not evaluated. There is no report only if
the message of a failure does not fit into the memory. -/
def handleLine (session : Session) (line : String) : Step LineReport :=
  if Text.isBlankLine line then
    ⟨.ok .blank, session, []⟩
  else
    let step := session.evaluate line
    ⟨LineReport.ofResult session.settings.memory step.result, step.session, step.trace⟩

def definition (name : String) (body : List Token) : List Token :=
  .assign name :: .symbol .parenOpen :: body ++ [.symbol .parenClose]

/-- Defines a function by the source text of its body. -/
def define (session : Session) (name body : String) : Step Unit :=
  match Token.ofSource body with
  | .ok tokens =>
    let step := session.evaluateTokens (definition name tokens)
    ⟨step.result.map fun _ => (), step.session, step.trace⟩
  | .error failure => ⟨.error failure, session, []⟩

/-- Removes the variable and the function of a name, and says whether there was one. -/
def forget (session : Session) (name : String) : Bool × Session :=
  (session.values.contains name || session.functions.contains name,
    {session with
      values := session.values.erase name
      functions := session.functions.erase name})

/-- Every function with the line that defines it, in the order of the names. -/
def functionsSource (session : Session) : List (String × String) :=
  session.functions.sorted.map fun (name, body) =>
    (name, name ++ " = (" ++ Token.spellings body ++ ")")

/-- Every function with the line that defines it, if all of them fit into the memory. -/
def printFunctions (session : Session) : Except Failure (List (String × String)) :=
  if session.functions.entries.all fun entry =>
      entry.2.all (Token.isPrintable session.settings.memory) then
    .ok session.functionsSource
  else
    .error (Fault.signal .outOfMemory)

end Session

end DecimalCalculator
