import StackMachine.Binary64.Remainder
import StackMachine.Integer
import StackMachine.Trap

/-!
# Operators

Two integers are computed with as integers, and a result that does not fit is a trap. If one operand is
a real, the other is taken as a real too. All other operands are refused, whatever the operator would
make of their values.
-/

namespace StackMachine

/-- The operands of an operator on two numbers, brought to one kind. -/
inductive Operands where
  | integers (a b : Int64)
  | reals (x y : Float)
deriving DecidableEq, Repr

def Operands.of? : Datum → Datum → Option Operands
  | .integer a, .integer b => some (.integers a b)
  | left, right =>
    match left.toReal, right.toReal with
    | .ok x, .ok y => some (.reals x y)
    | _, _ => none

def numericOperands (op : Opcode) (left right : Datum) : Except Trap Operands :=
  match Operands.of? left right with
  | some operands => .ok operands
  | none => .error (.binaryOperands op left.tag right.tag)

/-- An integer result, or the trap of an operator whose result does not fit. -/
def fitting (op : Opcode) : Option Int64 → Except Trap Datum
  | some n => .ok (.integer n)
  | none => .error (.integerOverflow op)

namespace BinaryOp

def onIntegers (op : BinaryOp) (a b : Int64) : Except Trap Datum :=
  match op with
  | .add => fitting (.binary op) (Integer.ofInt? (a.toInt + b.toInt))
  | .sub => fitting (.binary op) (Integer.ofInt? (a.toInt - b.toInt))
  | .mul => fitting (.binary op) (Integer.ofInt? (a.toInt * b.toInt))
  | .div =>
    if b = 0 then .error .divisionByZero
    else fitting (.binary op) (Integer.ofInt? (a.toInt.tdiv b.toInt))
  | .mod =>
    if b = 0 then .error .divisionByZero
    else fitting (.binary op) (Integer.ofInt? (a.toInt.tmod b.toInt))
  | .pow =>
    if 0 ≤ b.toInt then fitting (.binary op) (Integer.pow? a b.toInt.toNat)
    else if a = 0 then .error .divisionByZero
    else .ok (.real (Binary64.ofInt a.toInt ^ Binary64.ofInt b.toInt))
  | .and => .ok (.ofBool (a != 0 && b != 0))
  | .or => .ok (.ofBool (a != 0 || b != 0))

def onReals (op : BinaryOp) (x y : Float) : Except Trap Datum :=
  match op with
  | .add => .ok (.real (x + y))
  | .sub => .ok (.real (x - y))
  | .mul => .ok (.real (x * y))
  | .div => if y == 0 then .error .divisionByZero else .ok (.real (x / y))
  | .mod => if y == 0 then .error .divisionByZero else .ok (.real (Binary64.remainder x y))
  | .pow => .ok (.real (x ^ y))
  | .and => .ok (.real (if x != 0 && y != 0 then 1 else 0))
  | .or => .ok (.real (if x != 0 || y != 0 then 1 else 0))

def apply (op : BinaryOp) (left right : Datum) : Except Trap Datum := do
  match ← numericOperands (.binary op) left right with
  | .integers a b => op.onIntegers a b
  | .reals x y => op.onReals x y

end BinaryOp

/-- The order of two reals: none if one of them is not a number, and equal for the two zeros. -/
def realOrdering (x y : Float) : Option Ordering :=
  if x < y then some .lt
  else if x == y then some .eq
  else if y < x then some .gt
  else none

def Operands.ordering : Operands → Option Ordering
  | .integers a b => some (compare a.toInt b.toInt)
  | .reals x y => realOrdering x y

namespace Comparison

def holds (c : Comparison) (order : Option Ordering) : Bool :=
  match c with
  | .less => order == some .lt
  | .more => order == some .gt
  | .lessEq => order == some .lt || order == some .eq
  | .moreEq => order == some .gt || order == some .eq
  | .equal => order == some .eq
  | .notEqual => order != some .eq

/-- Compares two data on behalf of the instruction `op`. -/
def apply (c : Comparison) (op : Opcode) (left right : Datum) : Except Trap Bool := do
  let operands ← numericOperands op left right
  .ok (c.holds operands.ordering)

end Comparison

def negate : Datum → Except Trap Datum
  | .integer n => fitting .negate (Integer.ofInt? (-n.toInt))
  | .real x => .ok (.real (-x))
  | d => .error (.unaryOperand .negate d.tag)

def factorial : Datum → Except Trap Datum
  | .integer n =>
    if n.toInt < 0 then .error (.negativeFactorial n)
    else fitting .factorial (Integer.factorial? n.toInt.toNat)
  | d => .error (.unaryOperand .factorial d.tag)

end StackMachine
