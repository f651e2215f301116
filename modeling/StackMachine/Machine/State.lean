import StackMachine.Program
import StackMachine.Stack
import StackMachine.Store

/-!
# Machines and their states

A machine is a program and the limits under which it runs. Its state is everything that changes from
one instruction to the next. The first frame of a store is the global one: the scope in which a program
starts.
-/

namespace StackMachine

structure Limits where
  /-- The number of data that the operand stack can hold. -/
  stackCapacity : Nat
  /-- The number of calls that can be under way at a time. -/
  maxCallDepth : Nat
  /-- Assignments reach the slots below this index. -/
  maxSlots : Nat
deriving DecidableEq, Repr

def Limits.standard : Limits := ⟨4096, 1024, 65536⟩

/-- What a call keeps for its return. -/
structure CallFrame where
  returnAddress : Nat
  scope : FrameId
deriving DecidableEq, Repr

structure Machine where
  program : Program
  limits : Limits

structure State where
  /-- The address of the next datum to be read. -/
  ip : Nat
  stack : Stack Datum
  calls : Stack CallFrame
  scope : FrameId
  store : Store
  halted : Bool
  /-- Whether the deprecated instruction has been reported. -/
  warned : Bool
deriving Repr

/-- The global frame. -/
def globalScope : FrameId := 0

namespace State

/-- The state in which a program starts, with nothing but an empty global frame. -/
def initial : State :=
  { ip := 0
    stack := .empty
    calls := .empty
    scope := globalScope
    store := Store.empty.addRoot
    halted := false
    warned := false }

def callDepth (s : State) : Nat := s.calls.height

/-- Ends the use of a state: the stack, bottom first, and the frames with the global one emptied, so
that no function kept there holds on to it. -/
def finish (s : State) : List Datum × Store :=
  (s.stack.bottomUp, s.store.clear globalScope)

end State

end StackMachine
