import MonkeyLanguage.Host.CommandLine

/-!
# The program

Reads what the command line asks for, and writes what `CommandLine.run` gives.
-/

namespace MonkeyLanguage

def readSettings : IO Settings := do
  return ⟨← IO.getEnv "MONKEY_DEBUG_PY_TRACE", ← IO.getEnv "MONKEY_RECURSION_LIMIT",
    ← IO.getEnv "MONKEY_PROMPT"⟩

/-- What there is under a path. -/
def readFile (path : String) : IO CommandLine.File := do
  try
    return (String.fromUTF8? (← IO.FS.readBinFile path)).elim .undecodable .text
  catch e =>
    match e with
    | .permissionDenied .. | .hardwareFault .. => return .unreadable e.toString
    | _ => return .missing

/-- The machine of the process, where the limit counts evaluations. -/
def nativeMachine : Machine :=
  .roomy fun limit => limit.getD 1000

def runCommandLine (arguments : List String) : IO UInt32 := do
  let mut stdin := ""
  let mut file := .missing
  if let .request request := CommandLine.decideFrom .initial arguments then
    match request.input with
    | none | some "-" => stdin ← (← IO.getStdin).readToEnd
    | some path => file ← readFile path
  let found := file
  let result := CommandLine.run nativeMachine (← readSettings) arguments stdin fun _ => found
  (← IO.getStdout).putStr result.stdout
  (← IO.getStderr).putStr result.stderr
  return result.ending.code.toUInt32

end MonkeyLanguage

def main (arguments : List String) : IO UInt32 :=
  MonkeyLanguage.runCommandLine arguments
