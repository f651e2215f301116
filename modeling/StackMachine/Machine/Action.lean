import StackMachine.Machine.State
import StackMachine.Trap

/-!
# Actions

An instruction is a sequence of small actions on the state: reading an operand that follows it in the
program, taking a datum off the stack, putting one on it. A trap ends the sequence and leaves what the
actions before it did.
-/

namespace StackMachine

/-- An action on the state. A trap keeps the state it was met in. -/
abbrev Action := EStateM Trap State

namespace Machine

variable (m : Machine)

def push (d : Datum) : Action Unit := fun s =>
  if s.stack.height < m.limits.stackCapacity then .ok () { s with stack := s.stack.push d }
  else .error (.stackOverflow m.limits.stackCapacity) s

def pop : Action Datum := fun s =>
  match s.stack.pop? with
  | some (d, rest) => .ok d { s with stack := rest }
  | none => .error .stackUnderflow s

def top : Action Datum := fun s =>
  match s.stack.top? with
  | some d => .ok d s
  | none => .error .stackUnderflow s

/-- The arguments of a call, the last one pushed first. The datum below them has to be there too. -/
def popArguments (count : Nat) : Action (List Datum) := fun s =>
  if count < s.stack.height then .ok (s.stack.take count) { s with stack := s.stack.drop count }
  else .error .stackUnderflow s

/-- The datum that the instruction pointer is at, as an operand. -/
def operand : Action Datum := fun s =>
  match m.program.get? s.ip with
  | some d => .ok d { s with ip := s.ip + 1 }
  | none => .error .missingOperand s

def asInteger (d : Datum) : Action Int64 :=
  match d.asInteger with
  | .ok n => pure n
  | .error e => throw (.typeMismatch e)

/-- An operand that is an address, a count or an index. -/
def index : Action Nat := do
  let n ← asInteger (← m.operand)
  if 0 ≤ n.toInt then pure n.toInt.toNat else throw (.invalidOperand n)

/-- The result of a computation that can trap. -/
def computed {α : Type} : Except Trap α → Action α
  | .ok a => pure a
  | .error t => throw t

def found : Except LookupError Datum → Action Datum
  | .ok d => pure d
  | .error e => throw (.lookup e)

def jump (address : Nat) : Action Unit :=
  modify fun s => { s with ip := address }

end Machine

end StackMachine
