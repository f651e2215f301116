import StackMachine.Store

/-!
# Traps and faults

A trap is why an instruction cannot be carried out. A fault is a trap and the place where it happened.
Traps fall into a few classes, which the text of a fault begins with.
-/

namespace StackMachine

inductive Trap where
  | outsideProgram (address size : Nat)
  | notAnInstruction (found : Tag)
  | unknownOpcode (id : UInt32)
  | unsupported (r : Reserved)
  | missingOperand
  | invalidOperand (value : Int64)
  | malformedHeader (address : Nat)
  /-- The two operands of an operator are not numbers. -/
  | binaryOperands (op : Opcode) (left right : Tag)
  /-- The one operand of an operator is not a number that it takes. -/
  | unaryOperand (op : Opcode) (operand : Tag)
  | notCallable (found : Tag)
  | argumentCount (expected given : Nat)
  | tooFewArguments (least given : Nat)
  | typeMismatch (e : TypeMismatch)
  | stackUnderflow
  | stackOverflow (capacity : Nat)
  | callDepthExceeded (limit : Nat)
  | returnOutsideCall
  | invalidSlotAddress (value : Int64)
  | divisionByZero
  | integerOverflow (op : Opcode)
  | negativeFactorial (value : Int64)
  | lookup (e : LookupError)
deriving DecidableEq, Repr

inductive TrapClass where
  | invalidProgram
  | operatorType
  | typeMismatch
  | execution
  | domain
  | unresolvedSlot
  | uninitializedSlot
deriving DecidableEq, Repr

def TrapClass.name : TrapClass → String
  | .invalidProgram => "invalid program"
  | .operatorType => "operator type error"
  | .typeMismatch => "type mismatch"
  | .execution => "execution fault"
  | .domain => "domain error"
  | .unresolvedSlot => "unresolved slot"
  | .uninitializedSlot => "uninitialized slot"

def unknownOpcodeMessage (id : UInt32) : String :=
  s!"unknown opcode id {id.toNat}"

namespace Trap

def message : Trap → String
  | .outsideProgram address size =>
    s!"instruction pointer {address} is outside the program (length {size})"
  | .notAnInstruction found => s!"expected an instruction, found {found.name}"
  | .unknownOpcode id => unknownOpcodeMessage id
  | .unsupported r => s!"unsupported opcode {r.mnemonic}"
  | .missingOperand => "missing immediate operand"
  | .invalidOperand value => s!"invalid immediate operand {value.toInt}"
  | .malformedHeader address => s!"malformed function header at address {address}"
  | .binaryOperands op left right =>
    s!"{op.mnemonic} is not defined for {left.name} and {right.name}"
  | .unaryOperand op operand => s!"{op.mnemonic} is not defined for {operand.name}"
  | .notCallable found => s!"cannot call a value of type {found.name}"
  | .argumentCount expected given => s!"function takes {expected} arguments, {given} given"
  | .tooFewArguments least given => s!"function takes at least {least} arguments, {given} given"
  | .typeMismatch e => e.message
  | .stackUnderflow => "stack underflow"
  | .stackOverflow capacity => s!"stack overflow (capacity {capacity})"
  | .callDepthExceeded limit => s!"call depth exceeded limit {limit}"
  | .returnOutsideCall => "RETURN outside of a function call"
  | .invalidSlotAddress value => s!"invalid slot address {value.toInt}"
  | .divisionByZero => "division by zero"
  | .integerOverflow op => s!"integer overflow in {op.mnemonic}"
  | .negativeFactorial value => s!"factorial of negative number {value.toInt}"
  | .lookup e => e.message

def classOf : Trap → TrapClass
  | .outsideProgram .. | .notAnInstruction _ | .unknownOpcode _ | .unsupported _ | .missingOperand
  | .invalidOperand _ | .malformedHeader _ => .invalidProgram
  | .binaryOperands .. | .unaryOperand .. | .notCallable _ | .argumentCount .. | .tooFewArguments .. =>
    .operatorType
  | .typeMismatch _ => .typeMismatch
  | .stackUnderflow | .stackOverflow _ | .callDepthExceeded _ | .returnOutsideCall
  | .invalidSlotAddress _ => .execution
  | .divisionByZero | .integerOverflow _ | .negativeFactorial _ => .domain
  | .lookup (.unresolved _) => .unresolvedSlot
  | .lookup (.uninitialized _) => .uninitializedSlot

end Trap

/-- A trap, the address that was to be executed, and the instruction there, if it holds one. -/
structure Fault where
  trap : Trap
  address : Nat
  instruction : Option Instruction
deriving DecidableEq, Repr

/-- An instruction by its mnemonic, or by its id if it has none. -/
def Instruction.title (i : Instruction) : String :=
  match i.opcode? with
  | some op => op.mnemonic
  | none => s!"opcode {i.id.toNat}"

def Fault.message (f : Fault) : String :=
  let place := match f.instruction with
    | none => ""
    | some i => s!" ({i.title}, {i.file} line {i.line.toNat})"
  s!"{f.trap.classOf.name}: {f.trap.message} at address {f.address}" ++ place

end StackMachine
