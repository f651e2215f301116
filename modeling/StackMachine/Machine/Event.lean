import StackMachine.Program

/-!
# Events

What is reported on the way from a listing to the end of a run. Every event has a level, a message and
some particulars.
-/

namespace StackMachine

inductive Event where
  /-- A listing was read. -/
  | loaded (data instructions : Nat)
  /-- An instruction is about to be carried out. -/
  | execute (address : Nat) (op : Opcode) (height : Nat)
  /-- The deprecated instruction was met for the first time. -/
  | deprecated (address : Nat)
  | call (address arguments depth : Nat)
  | tailCall (address arguments : Nat)
  | ret (returnAddress depth : Nat)
deriving DecidableEq, Repr

namespace Event

inductive Level where
  | trace
  | debug
  | warn
deriving DecidableEq, Repr

def Level.name : Level → String
  | .trace => "trace"
  | .debug => "debug"
  | .warn => "warn"

def level : Event → Level
  | .execute .. => .trace
  | .deprecated _ => .warn
  | .loaded .. | .call .. | .tailCall .. | .ret .. => .debug

def message : Event → String
  | .loaded .. => "loaded program"
  | .execute .. => "execute"
  | .deprecated _ =>
    s!"{Opcode.emptyArray.mnemonic} is deprecated, compile with {Opcode.emptyList.mnemonic}"
  | .call .. => "call"
  | .tailCall .. => "tail call"
  | .ret .. => "return"

/-- The particulars of an event, by name. -/
def details : Event → List (String × String)
  | .loaded data instructions =>
    [("datums", toString data), ("instructions", toString instructions)]
  | .execute address op height =>
    [("ip", toString address), ("opcode", op.mnemonic), ("stack", toString height)]
  | .deprecated address => [("ip", toString address)]
  | .call address arguments depth =>
    [("address", toString address), ("argc", toString arguments), ("depth", toString depth)]
  | .tailCall address arguments =>
    [("address", toString address), ("argc", toString arguments)]
  | .ret returnAddress depth =>
    [("return_address", toString returnAddress), ("depth", toString depth)]

/-- One line: the message and then the particulars. -/
def render (e : Event) : String :=
  e.details.foldl (fun line (name, value) => s!"{line} {name}={value}") e.message

end Event

/-- What is reported when a program has been read. -/
def Program.loadedEvent (p : Program) : Event :=
  .loaded p.size p.instructionCount

end StackMachine
