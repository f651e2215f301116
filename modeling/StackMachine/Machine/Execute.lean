import StackMachine.Arithmetic
import StackMachine.Machine.Call

/-!
# Carrying out an instruction

What each opcode does, as a sequence of actions. Operands are read first, then data are taken off the
stack, and results are put on it last.
-/

namespace StackMachine.Machine

variable (m : Machine)

/-! ### Operators -/

def binary (op : BinaryOp) : Action Unit := do
  let right ← pop
  let left ← pop
  m.push (← computed (op.apply left right))

def unary (f : Datum → Except Trap Datum) : Action Unit := do
  m.push (← computed (f (← pop)))

def comparison (c : Comparison) : Action Unit := do
  let right ← pop
  let left ← pop
  m.push (.ofBool (← computed (c.apply (.compare c) left right)))

/-- Below its two operands a link of a chain finds whether all links before it hold. It leaves the same
for itself, and its right operand on top for the next link. -/
def chainLink (c : Comparison) : Action Unit := do
  let right ← pop
  let left ← pop
  let holds ← computed (c.apply (.chain c) left right)
  let before ← pop
  m.push (.ofBool (before.truthy && holds))
  m.push right

/-! ### Variables -/

/-- The address of a slot, which has to be below the limit. -/
def slotIndex (n : Int64) : Action Nat :=
  if 0 ≤ n.toInt ∧ n.toInt < m.limits.maxSlots then pure n.toInt.toNat
  else throw (.invalidSlotAddress n)

def assign : Action Unit := do
  let i ← m.slotIndex (← asInteger (← pop))
  let v ← pop
  modify fun s => { s with store := s.store.set s.scope i v }

/-- The operand behind the index names the variable and has no other use. -/
def accessGlobal : Action Unit := do
  let i ← m.index
  let _ ← m.operand
  m.push (← found ((← get).store.get globalScope i))

def accessLocal : Action Unit := do
  let i ← m.index
  let s ← get
  m.push (← found (s.store.get s.scope i))

def accessLevel : Action Unit := do
  let level ← m.index
  let i ← m.index
  let s ← get
  m.push (← found (s.store.getAt s.scope level i))

def unload : Action Unit := do
  let i ← m.index
  modify fun s => { s with store := s.store.unset globalScope i }

/-! ### All instructions -/

/-- Carries out an instruction whose address the instruction pointer has passed. Calls and returns are
reported. -/
def execute (op : Opcode) : Action (Option Event) := do
  match op with
  | .nothing => pure ()
  | .halt => modify fun s => { s with halted := true }
  | .constant => m.push (← m.operand)
  | .binary op => m.binary op
  | .not => m.unary fun d => .ok (.ofBool !d.truthy)
  | .negate => m.unary negate
  | .factorial => m.unary factorial
  | .compare c => m.comparison c
  | .chain c => m.chainLink c
  | .call kind => return some (← m.call kind)
  | .ret => return some (← m.ret)
  | .function =>
    let address ← m.index
    m.push (.function ⟨address, (← get).scope⟩)
  | .jump => jump (← m.index)
  | .jumpIf condition =>
    let target ← m.index
    if (← pop).truthy = condition then jump target
  | .duplicate => m.push (← top)
  | .discard => let _ ← pop
  | .swap =>
    let right ← pop
    let left ← pop
    m.push right
    m.push left
  | .assignment => m.assign
  | .accessGlobal => m.accessGlobal
  | .accessLocal => m.accessLocal
  | .accessSemi => m.accessLevel
  | .unload => m.unload
  | .emptyArray | .emptyList => m.push (.list [])
  | .reserved r => throw (.unsupported r)
  return none

end StackMachine.Machine
