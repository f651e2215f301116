import StackMachine.Arithmetic
import StackMachine.Proofs.Binary64.Zero

/-!
# What the operators take

An operator on two operands takes numbers (`Numbers`). Two integers stay what they are, and otherwise both are
brought to reals (`Operands.of`). A number is zero, and true, just if the real that it is brought to is. What a
comparison makes of two numbers depends on their order alone (`Comparison.apply_of_numbers`).
-/

namespace StackMachine

variable {left right d : Datum} {x : Float}

def Numbers (left right : Datum) : Prop :=
  left.tag.isNumeric = true ∧ right.tag.isNumeric = true

def Datum.IsZero (d : Datum) : Prop := d = .integer 0 ∨ d = .real 0 ∨ d = .real (-0)

/-! ### Numbers as reals -/

theorem isNumeric_of_toReal (h : d.toReal = .ok x) : d.tag.isNumeric = true := by
  cases d with
  | integer | real => rfl
  | null | instruction | function | list | scope => cases h

theorem exists_toReal (h : d.tag.isNumeric = true) : ∃ x, d.toReal = .ok x := by
  cases d with
  | integer n => exact ⟨_, rfl⟩
  | real x => exact ⟨x, rfl⟩
  | null | instruction | function | list | scope => cases h

theorem toReal_integer_beq_zero_iff {n : Int64} : (Binary64.ofInt n.toInt == 0) = true ↔ n = 0 := by
  rw [Binary64.ofInt_beq_zero_iff]
  exact Int64.toInt_inj (y := 0)

theorem beq_zero_iff_isZero (h : d.toReal = .ok x) : (x == 0) = true ↔ d.IsZero := by
  unfold Datum.IsZero
  cases d with
  | integer n =>
    cases h
    rw [toReal_integer_beq_zero_iff]
    simp
  | real y =>
    cases h
    rw [Binary64.beq_zero_iff]
    simp
  | null | instruction | function | list | scope => cases h

theorem truthy_eq_bne_zero (h : d.toReal = .ok x) : d.truthy = (x != 0) := by
  cases d with
  | integer n =>
    cases h
    have hzero : (n == 0) = (Binary64.ofInt n.toInt == 0) := by
      rw [Bool.eq_iff_iff, toReal_integer_beq_zero_iff, beq_iff_eq]
    rw [Datum.truthy, bne, bne, hzero]
  | real y =>
    cases h
    rfl
  | null | instruction | function | list | scope => cases h

/-! ### Two operands -/

/-- What two operands are brought to. -/
inductive Operands.Of : Datum → Datum → Option Operands → Prop
  | integers (a b : Int64) : Of (.integer a) (.integer b) (some (.integers a b))
  | reals {left right : Datum} {x y : Float} : ¬(left.tag = .integer ∧ right.tag = .integer) →
    left.toReal = .ok x → right.toReal = .ok y → Of left right (some (.reals x y))
  | refused {left right : Datum} : ¬Numbers left right → Of left right none

theorem Operands.of (left right : Datum) : Operands.Of left right (Operands.of? left right) := by
  unfold Operands.of?
  split
  · exact .integers _ _
  next hnot =>
  have hintegers : ¬(left.tag = .integer ∧ right.tag = .integer) := by
    rintro ⟨hleft, hright⟩
    cases left with
    | integer a =>
      cases right with
      | integer b => exact hnot a b rfl rfl
      | null | real | instruction | function | list | scope => cases hright
    | null | real | instruction | function | list | scope => cases hleft
  split
  · next hleft hright => exact .reals hintegers hleft hright
  · next hnone =>
    refine .refused fun h => ?_
    obtain ⟨x, hx⟩ := exists_toReal h.1
    obtain ⟨y, hy⟩ := exists_toReal h.2
    exact hnone x y hx hy

/-! ### Comparisons -/

/-- The order by which two operands are compared, none if they have no order. -/
def ordering? (left right : Datum) : Option Ordering := (Operands.of? left right).bind Operands.ordering

namespace Comparison

theorem apply_of_numbers (h : Numbers left right) (c : Comparison) (op : Opcode) :
    c.apply op left right = .ok (c.holds (ordering? left right)) := by
  have hof := Operands.of left right
  unfold apply numericOperands ordering?
  generalize Operands.of? left right = operands at hof ⊢
  cases hof with
  | refused hnot => exact absurd h hnot
  | integers | reals => rfl

theorem apply_of_not_numbers (h : ¬Numbers left right) (c : Comparison) (op : Opcode) :
    c.apply op left right = .error (.binaryOperands op left.tag right.tag) := by
  have hof := Operands.of left right
  unfold apply numericOperands
  generalize Operands.of? left right = operands at hof ⊢
  cases hof with
  | refused => rfl
  | integers a b => exact absurd ⟨rfl, rfl⟩ h
  | reals _ hleft hright => exact absurd ⟨isNumeric_of_toReal hleft, isNumeric_of_toReal hright⟩ h

end Comparison

end StackMachine
