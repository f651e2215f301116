import StackMachine.Proofs.Arithmetic.Integers
import StackMachine.Proofs.Arithmetic.Operands

/-!
# Which operands an operator refuses

Operands that are no numbers are refused before anything else. On numbers an operator can divide by zero, or
on two integers have a result that does not fit, and otherwise gives a number whose kind the operands
determine (`BinaryOp.Ending`). The main result is `binary_operators_classified`.
-/

namespace StackMachine

namespace BinaryOp

/-- The operator would divide the left operand, or one, by zero. -/
def DividesByZero (op : BinaryOp) (left right : Datum) : Prop :=
  (op = .div ∨ op = .mod) ∧ right.IsZero ∨
    op = .pow ∧ left = .integer 0 ∧ ∃ n : Int64, right = .integer n ∧ n.toInt < 0

/-- The result is an integer if it fits, and need not fit. -/
def MayOverflow (op : BinaryOp) (left right : Datum) : Prop :=
  ∃ a b : Int64, left = .integer a ∧ right = .integer b ∧
    (op = .add ∨ op = .sub ∨ op = .mul ∨ op = .div ∨ op = .pow ∧ 0 ≤ b.toInt)

def GivesInteger (op : BinaryOp) (left right : Datum) : Prop :=
  ∃ a b : Int64, left = .integer a ∧ right = .integer b ∧ ¬(op = .pow ∧ b.toInt < 0)

/-- A truth value as a number of the kind that the operands call for. -/
def truthValue (left right : Datum) (b : Bool) : Datum :=
  if left.tag = .integer ∧ right.tag = .integer then .integer (if b then 1 else 0)
  else .real (if b then 1 else 0)

/-- All that an operator can end in, and on which operands. -/
inductive Ending (op : BinaryOp) (left right : Datum) : Except Trap Datum → Prop
  | refused : ¬Numbers left right →
    Ending op left right (.error (.binaryOperands (.binary op) left.tag right.tag))
  | divisionByZero : Numbers left right → op.DividesByZero left right →
    Ending op left right (.error .divisionByZero)
  | overflow : Numbers left right → ¬op.DividesByZero left right → op.MayOverflow left right →
    Ending op left right (.error (.integerOverflow (.binary op)))
  | integer (n : Int64) : Numbers left right → ¬op.DividesByZero left right → op.GivesInteger left right →
    Ending op left right (.ok (.integer n))
  | real (x : Float) : Numbers left right → ¬op.DividesByZero left right → ¬op.GivesInteger left right →
    Ending op left right (.ok (.real x))

variable {op : BinaryOp} {left right : Datum} {a b : Int64} {x y : Float}

/-! ### Two integers -/

theorem dividesByZero_integers_iff : op.DividesByZero (.integer a) (.integer b) ↔
    (op = .div ∨ op = .mod) ∧ b = 0 ∨ op = .pow ∧ a = 0 ∧ b.toInt < 0 := by
  simp [DividesByZero, Datum.IsZero]

theorem mayOverflow_integers_iff : op.MayOverflow (.integer a) (.integer b) ↔
    op = .add ∨ op = .sub ∨ op = .mul ∨ op = .div ∨ op = .pow ∧ 0 ≤ b.toInt := by
  simp [MayOverflow]

theorem givesInteger_integers_iff :
    op.GivesInteger (.integer a) (.integer b) ↔ ¬(op = .pow ∧ b.toInt < 0) := by
  simp [GivesInteger]

theorem ending_fitting (hzero : ¬op.DividesByZero (.integer a) (.integer b))
    (hover : op.MayOverflow (.integer a) (.integer b)) (hinteger : op.GivesInteger (.integer a) (.integer b))
    (result : Option Int64) : op.Ending (.integer a) (.integer b) (fitting (.binary op) result) := by
  cases result with
  | none => exact .overflow ⟨rfl, rfl⟩ hzero hover
  | some n => exact .integer n ⟨rfl, rfl⟩ hzero hinteger

theorem ending_onIntegers (op : BinaryOp) (a b : Int64) :
    op.Ending (.integer a) (.integer b) (op.onIntegers a b) := by
  cases op with
  | add | sub | mul =>
    refine ending_fitting ?_ ?_ ?_ _
    · simp [dividesByZero_integers_iff]
    · simp [mayOverflow_integers_iff]
    · simp [givesInteger_integers_iff]
  | div =>
    by_cases hb : b = 0
    · rw [onIntegers, if_pos hb]
      exact .divisionByZero ⟨rfl, rfl⟩ (dividesByZero_integers_iff.2 (.inl ⟨.inl rfl, hb⟩))
    · rw [onIntegers, if_neg hb]
      refine ending_fitting ?_ ?_ ?_ _
      · simp [dividesByZero_integers_iff, hb]
      · simp [mayOverflow_integers_iff]
      · simp [givesInteger_integers_iff]
  | mod =>
    by_cases hb : b = 0
    · rw [onIntegers, if_pos hb]
      exact .divisionByZero ⟨rfl, rfl⟩ (dividesByZero_integers_iff.2 (.inl ⟨.inr rfl, hb⟩))
    · -- every remainder fits
      have hmod : mod.onIntegers a b = .ok (.integer (a % b)) := apply_mod a hb
      rw [hmod]
      refine .integer _ ⟨rfl, rfl⟩ ?_ ?_
      · simp [dividesByZero_integers_iff, hb]
      · simp [givesInteger_integers_iff]
  | pow =>
    by_cases hb : 0 ≤ b.toInt
    · rw [onIntegers, if_pos hb]
      refine ending_fitting ?_ ?_ ?_ _
      · simp [dividesByZero_integers_iff, hb]
      · simp [mayOverflow_integers_iff, hb]
      · simp [givesInteger_integers_iff, hb]
    have hneg : b.toInt < 0 := Int.not_le.1 hb
    by_cases ha : a = 0
    · rw [onIntegers, if_neg hb, if_pos ha]
      exact .divisionByZero ⟨rfl, rfl⟩ (dividesByZero_integers_iff.2 (.inr ⟨rfl, ha, hneg⟩))
    · rw [onIntegers, if_neg hb, if_neg ha]
      refine .real _ ⟨rfl, rfl⟩ ?_ ?_
      · simp [dividesByZero_integers_iff, ha]
      · simp [givesInteger_integers_iff, hneg]
  | and | or =>
    refine .integer _ ⟨rfl, rfl⟩ ?_ ?_
    · simp [dividesByZero_integers_iff]
    · simp [givesInteger_integers_iff]

/-! ### Reals -/

theorem not_givesInteger (hreal : ¬(left.tag = .integer ∧ right.tag = .integer)) :
    ¬op.GivesInteger left right := by
  rintro ⟨a, b, rfl, rfl, -⟩
  exact hreal ⟨rfl, rfl⟩

theorem dividesByZero_reals_iff (hreal : ¬(left.tag = .integer ∧ right.tag = .integer)) :
    op.DividesByZero left right ↔ (op = .div ∨ op = .mod) ∧ right.IsZero := by
  unfold DividesByZero
  constructor
  · rintro (h | ⟨-, rfl, n, rfl, -⟩)
    · exact h
    · exact absurd ⟨rfl, rfl⟩ hreal
  · exact .inl

theorem ending_onReals (op : BinaryOp) (hreal : ¬(left.tag = .integer ∧ right.tag = .integer))
    (hleft : left.toReal = .ok x) (hright : right.toReal = .ok y) :
    op.Ending left right (op.onReals x y) := by
  have hnumbers : Numbers left right := ⟨isNumeric_of_toReal hleft, isNumeric_of_toReal hright⟩
  have hinteger : ¬op.GivesInteger left right := not_givesInteger hreal
  have hzero := beq_zero_iff_isZero hright
  cases op with
  | add | sub | mul | pow | and | or =>
    refine .real _ hnumbers ?_ hinteger
    simp [dividesByZero_reals_iff hreal]
  | div | mod =>
    by_cases hy : (y == 0) = true
    · rw [onReals, if_pos hy]
      refine .divisionByZero hnumbers ((dividesByZero_reals_iff hreal).2 ⟨?_, hzero.1 hy⟩)
      simp
    · rw [onReals, if_neg hy]
      refine .real _ hnumbers ?_ hinteger
      simp [dividesByZero_reals_iff hreal, mt hzero.2 hy]

/-! ### All operands -/

theorem ending_apply (op : BinaryOp) (left right : Datum) : op.Ending left right (op.apply left right) := by
  have hof := Operands.of left right
  unfold apply numericOperands
  generalize Operands.of? left right = operands at hof ⊢
  cases hof with
  | refused h => exact .refused h
  | integers a b => exact op.ending_onIntegers a b
  | reals hreal hleft hright => exact op.ending_onReals hreal hleft hright

theorem apply_logical (h : Numbers left right) :
    and.apply left right = .ok (truthValue left right (left.truthy && right.truthy)) ∧
    or.apply left right = .ok (truthValue left right (left.truthy || right.truthy)) := by
  have hof := Operands.of left right
  unfold apply numericOperands truthValue
  generalize Operands.of? left right = operands at hof ⊢
  cases hof with
  | refused hnot => exact absurd h hnot
  | integers a b => exact ⟨rfl, rfl⟩
  | reals hreal hleft hright =>
    rw [if_neg hreal, if_neg hreal, truthy_eq_bne_zero hleft, truthy_eq_bne_zero hright]
    exact ⟨rfl, rfl⟩

/-- What can come out of an operator on two numbers. -/
structure Classified (op : BinaryOp) (left right : Datum) (r : Except Trap Datum) : Prop where
  divisionByZero : r = .error .divisionByZero ↔ op.DividesByZero left right
  otherwise : ∀ e, r = .error e → e ≠ .divisionByZero →
    e = .integerOverflow (.binary op) ∧ op.MayOverflow left right
  kind : ∀ d, r = .ok d →
    d.tag = .integer ∧ op.GivesInteger left right ∨ d.tag = .real ∧ ¬op.GivesInteger left right

theorem Ending.classified {r : Except Trap Datum} (h : op.Ending left right r)
    (hnumbers : Numbers left right) : op.Classified left right r := by
  cases h with
  | refused hnot => exact absurd hnumbers hnot
  | divisionByZero _ hzero => exact ⟨by simp [hzero], by simp, by simp⟩
  | overflow _ hzero hover => exact ⟨by simp [hzero], by simp [hover], by simp⟩
  | integer n _ hzero hinteger => exact ⟨by simp [hzero], by simp, by simp [Datum.tag, hinteger]⟩
  | real x _ hzero hinteger => exact ⟨by simp [hzero], by simp, by simp [Datum.tag, hinteger]⟩

theorem Ending.refused_iff {r : Except Trap Datum} (h : op.Ending left right r) :
    r = .error (.binaryOperands (.binary op) left.tag right.tag) ↔ ¬Numbers left right := by
  cases h with
  | refused hnot => simp [hnot]
  | divisionByZero hnumbers _ => simp [hnumbers]
  | overflow hnumbers _ _ => simp [hnumbers]
  | integer n hnumbers _ _ => simp [hnumbers]
  | real x hnumbers _ _ => simp [hnumbers]

end BinaryOp

theorem truthy_of_isNaN {x : Float} (h : x.isNaN = true) : (Datum.real x).truthy = true := by
  rw [Float.isNaN_eq_decide_eq_nan, decide_eq_true_eq] at h
  rw [h]
  decide +kernel

/-- An operator refuses operands that are not both numbers, and names itself and their kinds. On two
numbers it divides by zero or not as they tell. If it does not, all that can go wrong is that an integer
does not fit, and else they determine the kind of the result. -/
theorem binary_operators_classified (op : BinaryOp) (left right : Datum) :
    (op.apply left right = .error (.binaryOperands (.binary op) left.tag right.tag) ↔ ¬Numbers left right) ∧
    (Numbers left right →
      op.Classified left right (op.apply left right) ∧
      BinaryOp.and.apply left right =
        .ok (BinaryOp.truthValue left right (left.truthy && right.truthy)) ∧
      BinaryOp.or.apply left right =
        .ok (BinaryOp.truthValue left right (left.truthy || right.truthy))) ∧
    ∀ x : Float, x.isNaN = true → (Datum.real x).truthy = true := by
  have hending := op.ending_apply left right
  refine ⟨hending.refused_iff, ?_, fun _ => truthy_of_isNaN⟩
  intro hnumbers
  exact ⟨hending.classified hnumbers, BinaryOp.apply_logical hnumbers⟩

end StackMachine
