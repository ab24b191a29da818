import DecimalCalculator.Session
import DecimalCalculator.Text.Lines

/-!
# The console

The calculator is used in two ways. Without a file it reads lines from the keyboard: it shows a
prompt, evaluates the line, shows the value or the error and goes on, until the line is `exit` or
the input ends or is interrupted. With a file it evaluates the lines of the file and stops at the
first error, which it reports with the number of the line. Values go to the standard output and
errors to the standard error. A script that failed has an exit code. A value is written out only
after its line has been dealt with, so one that does not fit into the memory breaks a run of either
kind off, with an exit code as well: this failure is not reported on as that of a line, but ends the
run.
-/
namespace DecimalCalculator.Console

/-- What a run writes, its exit code if it does not end normally, and the failure that has broken
it off, if one has. -/
structure Output where
  stdout : String
  stderr : String
  exitCode : Option Nat
  brokenBy : Option Failure
  deriving DecidableEq, Repr

def banner : String := "smath REPL v0.1\nType 'exit' or press Ctrl+D to quit.\n"

def prompt : String := ">> "

/-- What is shown when the input ends or is interrupted. -/
def farewell : String := "\nExiting.\n"

/-- The trace of an evaluation as it goes to the standard error, if it is wanted. -/
def traceText (traced : Bool) (trace : List TraceEvent) : String :=
  if traced then String.join (trace.map fun event => event.text ++ "\n") else ""

/-- What a line comes to and the text that is shown of it, the value or the error. -/
def shown (memory : Memory) (result : Except Failure LineReport) :
    Except Failure (LineStatus × String) := do
  let report ← result
  match report.status with
  | .success => return (.success, ← report.printValue memory)
  | .error => return (.error, report.errorText)

/-- What the console does with a typed line: it stops, or it writes something and goes on, or it
breaks off because the result cannot be shown. -/
inductive Reply where
  | leave
  | proceed (stdout stderr : String) (session : Session)
  | breakOff (stderr : String) (failure : Failure)

/-- Deals with a typed line. Blanks around it do not count. -/
def reply (traced : Bool) (session : Session) (line : String) : Reply :=
  let line := String.ofList (Text.trim line.toList)
  if line = "" then
    .proceed "" "" session
  else if line = "exit" then
    .leave
  else
    let step := session.handleLine line
    let trace := traceText traced step.trace
    match shown session.settings.memory step.result with
    | .error failure => .breakOff trace failure
    | .ok (.success, text) => .proceed (text ++ "\n") trace step.session
    | .ok (.error, text) => .proceed "" (trace ++ text ++ "\n") step.session

/-- What an interactive run writes for the lines that are typed. -/
def typed (traced : Bool) (session : Session) : List String → Output
  | [] => ⟨prompt ++ farewell, "", none, none⟩
  | line :: lines =>
    match reply traced session line with
    | .leave => ⟨prompt, "", none, none⟩
    | .breakOff stderr failure => ⟨prompt, stderr, some 1, some failure⟩
    | .proceed stdout stderr session =>
      let rest := typed traced session lines
      {rest with stdout := prompt ++ stdout ++ rest.stdout, stderr := stderr ++ rest.stderr}

def interactive (machine : Machine) (traced : Bool) (input : String) : Output :=
  let run := typed traced (.new (.standard machine)) (Text.typedLines input)
  {run with stdout := banner ++ run.stdout}

/-- The report on the line of a script that failed. -/
def lineError (number : Nat) (text : String) : String :=
  "Error on line " ++ String.ofList (Text.digits number) ++ ": " ++ text ++ "\n"

/-- What a run over the lines of a script writes; the first line has the given number. -/
def scripted (traced : Bool) (session : Session) (number : Nat) : List String → Output
  | [] => ⟨"", "", none, none⟩
  | line :: lines =>
    if Text.isBlankLine line then
      scripted traced session (number + 1) lines
    else
      let step := session.handleLine line
      let trace := traceText traced step.trace
      match shown session.settings.memory step.result with
      | .error failure => ⟨"", trace, some 1, some failure⟩
      | .ok (.success, text) =>
        let rest := scripted traced step.session (number + 1) lines
        {rest with
          stdout := text ++ "\n" ++ rest.stdout
          stderr := trace ++ rest.stderr}
      | .ok (.error, text) => ⟨"", trace ++ lineError number text, some 1, none⟩

def script (machine : Machine) (traced : Bool) (source : String) : Output :=
  scripted traced (.new (.standard machine)) 1 (Text.scriptLines source)

def missingFile (path : String) : Output :=
  ⟨"", "Error: file not found: " ++ path ++ "\n", some 1, none⟩

/-- The file that the arguments name. The first argument counts, unless it begins with a dash. -/
def scriptPath? : List String → Option String
  | path :: _ => if path.toList.head? = some '-' then none else some path
  | [] => none

/-- A run over a file, given what it holds if it exists. -/
def file (machine : Machine) (traced : Bool) (path : String) (content : Option String) : Output :=
  match content with
  | some source => script machine traced source
  | none => missingFile path

end DecimalCalculator.Console
