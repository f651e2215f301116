import StackMachine.Arithmetic

/-!
# How operators end

An operator makes a number out of numbers or ends in one of the traps of arithmetic, whatever its
operands are.
-/

namespace StackMachine

def Trap.IsArithmetic : Trap → Prop
  | .binaryOperands .. | .unaryOperand .. | .divisionByZero | .integerOverflow _
  | .negativeFactorial _ => True
  | _ => False

/-- A datum that names no frame and has no other datum inside it. -/
def Datum.IsPlain : Datum → Prop
  | .integer _ | .real _ | .list [] => True
  | _ => False

/-- A plain datum, or a trap of arithmetic. -/
inductive Computes : Except Trap Datum → Prop
  | ok {d : Datum} : d.IsPlain → Computes (.ok d)
  | error {e : Trap} : e.IsArithmetic → Computes (.error e)

theorem Computes.ite {c : Prop} [Decidable c] {x y : Except Trap Datum} (hx : Computes x)
    (hy : Computes y) : Computes (if c then x else y) := by
  split
  · exact hx
  · exact hy

theorem computes_ofBool (b : Bool) : Computes (.ok (.ofBool b)) := .ok trivial

theorem computes_fitting (op : Opcode) (n : Option Int64) : Computes (fitting op n) := by
  cases n with
  | some n => exact .ok trivial
  | none => exact .error trivial

namespace BinaryOp

theorem computes_onIntegers (op : BinaryOp) (a b : Int64) : Computes (op.onIntegers a b) := by
  cases op with
  | add | sub | mul => exact computes_fitting _ _
  | div | mod => exact .ite (.error trivial) (computes_fitting _ _)
  | pow => exact .ite (computes_fitting _ _) (.ite (.error trivial) (.ok trivial))
  | and | or => exact computes_ofBool _

theorem computes_onReals (op : BinaryOp) (x y : Float) : Computes (op.onReals x y) := by
  cases op with
  | add | sub | mul | pow | and | or => exact .ok trivial
  | div | mod => exact .ite (.error trivial) (.ok trivial)

theorem computes_apply (op : BinaryOp) (left right : Datum) : Computes (op.apply left right) := by
  unfold apply numericOperands
  cases Operands.of? left right with
  | none => exact .error trivial
  | some operands =>
    cases operands with
    | integers a b => exact op.computes_onIntegers a b
    | reals x y => exact op.computes_onReals x y

end BinaryOp

theorem Comparison.isArithmetic_of_apply {c : Comparison} {op : Opcode} {left right : Datum} {e : Trap}
    (h : c.apply op left right = .error e) : e.IsArithmetic := by
  unfold apply numericOperands at h
  cases ho : Operands.of? left right with
  | none =>
    rw [ho] at h
    cases h
    trivial
  | some operands =>
    rw [ho] at h
    cases h

theorem computes_negate (d : Datum) : Computes (negate d) := by
  cases d with
  | integer n => exact computes_fitting _ _
  | real x => exact .ok trivial
  | null | instruction | function | list | scope => exact .error trivial

theorem computes_factorial (d : Datum) : Computes (factorial d) := by
  cases d with
  | integer n => exact .ite (.error trivial) (computes_fitting _ _)
  | null | real | instruction | function | list | scope => exact .error trivial

end StackMachine
