import StackMachine.Machine.Action
import StackMachine.Machine.Event

/-!
# Calls and returns

A call finds the number of its arguments behind it, the arguments on the stack and the function below
them. All that can go wrong is found out before a frame, the scope or the calls are touched. A return
finds its value on the stack and puts it back there, into the room that it left.
-/

namespace StackMachine.Machine

variable (m : Machine)

/-- The slots of a call: one for each parameter, the last one of a variadic function for the list of the
arguments beyond. -/
def bindArguments (sig : Program.Signature) (arguments : List Datum) : Except Trap (List Datum) :=
  if sig.variadic then
    let fixed := sig.parameters - 1
    if arguments.length < fixed then .error (.tooFewArguments fixed arguments.length)
    else .ok (arguments.take fixed ++ [.list (arguments.drop fixed)])
  else if arguments.length = sig.parameters then .ok arguments
  else .error (.argumentCount sig.parameters arguments.length)

/-- The frame of a call. A function that is called without slots to fill runs in a transparent one. -/
def activation (f : Closure) (slots : List Datum) : Frame :=
  ⟨(slots.map some).toArray, some f.scope, slots.isEmpty⟩

def callee : Action Closure := do
  match ← pop with
  | .function f => pure f
  | d => throw (.notCallable d.tag)

/-- Goes on in the body of a function, in a new frame. -/
def enter (f : Closure) (slots : List Datum) : Action Unit := modify fun s =>
  { s with
    ip := f.address + Program.headerSize
    scope := s.store.size
    store := s.store.add (activation f slots) }

/-- Keeps the place and the scope of the caller, if there is room for one more call. -/
def saveCaller : Action Unit := fun s =>
  if s.callDepth < m.limits.maxCallDepth then
    .ok () { s with calls := s.calls.push ⟨s.ip, s.scope⟩ }
  else .error (.callDepthExceeded m.limits.maxCallDepth) s

/-- A tail call takes over the place of its caller, if there is one. -/
def call (kind : CallKind) : Action Event := do
  let count ← m.index
  let arguments ← popArguments count
  let f ← callee
  let some sig := m.program.signature? f.address | throw (.malformedHeader f.address)
  let slots ← computed (bindArguments sig arguments)
  if kind = .tail ∧ (← get).callDepth ≠ 0 then
    enter f slots
    pure (.tailCall f.address count)
  else
    m.saveCaller
    enter f slots
    pure (.call f.address count (← get).callDepth)

def resume : Action CallFrame := fun s =>
  match s.calls.pop? with
  | some (caller, rest) =>
    .ok caller { s with ip := caller.returnAddress, scope := caller.scope, calls := rest }
  | none => .error .returnOutsideCall s

def ret : Action Event := do
  let v ← pop
  let caller ← resume
  m.push v
  pure (.ret caller.returnAddress (← get).callDepth)

end StackMachine.Machine
