import StackMachine.Listing.Reader
import StackMachine.Machine.Step

/-!
# The command line

The command takes the name of a file with a listing, runs the program from its first datum under the
standard limits, and shows the stack that is left. What it prints and how it exits is a function of its
arguments, of the content of the file and of the end of the run.
-/

namespace StackMachine.CommandLine

inductive Command where
  | help
  | misuse
  | execute (path : String)
deriving DecidableEq, Repr

def Command.ofArguments : List String → Command
  | [argument] => if argument = "--help" ∨ argument = "-h" then .help else .execute argument
  | _ => .misuse

def usage : List String :=
  ["Usage: calcvm <bytecode-file>",
    "",
    "Loads a compiled calculator bytecode file, runs it, and prints",
    "the final operand stack."]

def success : Nat := 0

/-- The exit code for a wrong use, a file that cannot be read, and a text that is no listing. -/
def inputFailure : Nat := 1

def runtimeFailure : Nat := 3

/-- What a command prints, in lines, and how it exits. -/
structure Transcript where
  code : Nat
  output : List String
  errors : List String
deriving DecidableEq, Repr

/-- Why a file has no text. -/
inductive ReadFailure where
  | notFound
  | permissionDenied
  | notADirectory
  | isADirectory
  | notUtf8
  | other (reason : String)
deriving DecidableEq, Repr

def ReadFailure.message : ReadFailure → String
  | .notFound => "No such file or directory (os error 2)"
  | .permissionDenied => "Permission denied (os error 13)"
  | .notADirectory => "Not a directory (os error 20)"
  | .isADirectory => "Is a directory (os error 21)"
  | .notUtf8 => "stream did not contain valid UTF-8"
  | .other reason => reason

def loadingLine (path : String) : String := s!"Loading from {path}..."

def runningLine : String := "Running code..."

/-- What stands in a file. -/
abbrev Content := Except ReadFailure ByteArray

def text (content : Content) : Except ReadFailure String := do
  match String.fromUTF8? (← content) with
  | some text => .ok text
  | none => .error .notUtf8

/-- The program in a file, or the line that tells why there is none. -/
def program (path : String) (content : Content) : Except String Program :=
  match text content with
  | .error e => .error s!"error: cannot read '{path}': {e.message}"
  | .ok text => match Program.ofListing Program.maxSize text with
    | .error e => .error s!"error: {path}: {e.message}"
    | .ok p => .ok p

/-- A number right-aligned to three columns. -/
def alignedIndex (i : Nat) : String :=
  let digits := toString i
  String.ofList (List.replicate (3 - digits.length) ' ') ++ digits

/-- One line for each datum, the bottom of the stack first. -/
def stackLines (stack : List Datum) : List String :=
  stack.zipIdx.map fun (d, i) => s!"{alignedIndex i} | {d.render}"

def warningLines (events : List Event) : List String :=
  (events.filter (·.level == .warn)).map fun e => s!"WARN {e.render}"

def faultLine (f : Fault) : String := s!"runtime error: {f.message}"

/-- The machine that runs a program given to the command. -/
def machine (p : Program) : Machine := ⟨p, .standard⟩

/-- The transcript of a run that came to an end. There is none of a run that did not. -/
def finished (path : String) (warnings : List String) (s : State) : Status → Option Transcript
  | .running => none
  | .halted =>
    some ⟨success, loadingLine path :: runningLine :: stackLines s.stack.bottomUp, warnings⟩
  | .faulted f => some ⟨runtimeFailure, [loadingLine path, runningLine], warnings ++ [faultLine f]⟩

/-- The transcript of executing the file at `path`, if the run ends within `budget` steps. -/
def execute (budget : Nat) (path : String) (content : Content) : Option Transcript :=
  match program path content with
  | .error line => some ⟨inputFailure, [loadingLine path], [line]⟩
  | .ok p =>
    let (warnings, s, status) :=
      (machine p).observe (fun lines o => lines ++ warningLines o.events) budget [] .initial
    finished path warnings s status

/-- The transcript of the whole command, where `read` gives the content of a file. -/
def transcript (budget : Nat) (read : String → Content) (arguments : List String) :
    Option Transcript :=
  match Command.ofArguments arguments with
  | .help => some ⟨success, [], usage⟩
  | .misuse => some ⟨inputFailure, [], usage⟩
  | .execute path => execute budget path (read path)

end StackMachine.CommandLine
