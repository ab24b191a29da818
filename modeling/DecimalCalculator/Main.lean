import DecimalCalculator.Console

/-!
# The command line

Runs a script when the first argument names one, and an interactive session otherwise. The trace of
every evaluation goes to the standard error when the environment variable SMATH_DEBUG is set.
-/
namespace DecimalCalculator.Console

/-- Reads and answers lines until the console leaves or the input ends, and gives the exit code. -/
partial def converse (traced : Bool) (session : Session) : IO UInt32 := do
  let stdout ← IO.getStdout
  stdout.putStr prompt
  stdout.flush
  let line ← (← IO.getStdin).getLine
  if line.isEmpty then
    stdout.putStr farewell
    return 0
  else
    match reply traced session line with
    | .leave => return 0
    | .breakOff err failure =>
      (← IO.getStderr).putStr (err ++ failure.kind ++ "\n")
      return 1
    | .proceed out err session =>
      stdout.putStr out
      (← IO.getStderr).putStr err
      converse traced session

def contentOf (path : String) : IO (Option String) := do
  try
    return some (← IO.FS.readFile path)
  catch _ =>
    return none

end DecimalCalculator.Console

open DecimalCalculator

def main (arguments : List String) : IO UInt32 := do
  let traced := (← IO.getEnv "SMATH_DEBUG").any (!·.isEmpty)
  match Console.scriptPath? arguments with
  | some path =>
    let run := Console.file .default traced path (← Console.contentOf path)
    IO.print run.stdout
    IO.eprint run.stderr
    if let some failure := run.brokenBy then
      IO.eprintln failure.kind
    return UInt32.ofNat (run.exitCode.getD 0)
  | none =>
    IO.print Console.banner
    Console.converse traced (.new .default)
