import StackMachine.CommandLine

/-!
# The program

Reads the file named on the command line and prints as the run goes on.
-/

namespace StackMachine.CommandLine

def printLines (lines : List String) : IO Unit :=
  lines.forM IO.println

def printErrors (lines : List String) : IO Unit :=
  lines.forM IO.eprintln

def readFailure : IO.Error → ReadFailure
  | .noFileOrDirectory .. => .notFound
  | .permissionDenied .. => .permissionDenied
  | .inappropriateType _ 20 _ => .notADirectory
  | .inappropriateType _ 21 _ => .isADirectory
  | e => .other (toString e)

def readContent (path : String) : IO Content := do
  try
    return .ok (← IO.FS.readBinFile path)
  catch e =>
    return .error (readFailure e)

/-- Steps the machine to its end, with the warnings printed when they arise. -/
partial def runToEnd (m : Machine) (s : State) : IO (State × Status) := do
  let o := m.step s
  printErrors (warningLines o.events)
  match o.status with
  | .running => runToEnd m o.state
  | status => return (o.state, status)

def executeFile (path : String) : IO Nat := do
  IO.println (loadingLine path)
  match program path (← readContent path) with
  | .error line =>
    IO.eprintln line
    return inputFailure
  | .ok p =>
    IO.println runningLine
    match ← runToEnd (machine p) .initial with
    | (_, .faulted f) =>
      IO.eprintln (faultLine f)
      return runtimeFailure
    | (s, _) =>
      printLines (stackLines s.stack.bottomUp)
      return success

end StackMachine.CommandLine

open StackMachine.CommandLine in
def main (arguments : List String) : IO UInt32 := do
  match Command.ofArguments arguments with
  | .help =>
    printErrors usage
    return .ofNat success
  | .misuse =>
    printErrors usage
    return .ofNat inputFailure
  | .execute path => return .ofNat (← executeFile path)
