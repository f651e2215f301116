import StackMachine.Proofs.Arithmetic.Operands
import StackMachine.Proofs.Binary64.Order

/-!
# How the comparisons go together

Two numbers are compared by their order (`ordering?`), of which there is none if one of them is not a number in
the sense of binary64 (`ordering?_eq_none_iff`). The six verdicts on one order are consistent with each other
(`coherent_holds`). Exchanged operands have the reversed order (`ordering?_swap`), of which the mirror image of a
comparison says what the comparison says of the order itself (`holds_mirror`). The main result is
`comparisons_consistent`.
-/

namespace StackMachine

variable {left right : Datum}

def Datum.IsNaN (d : Datum) : Prop := ∃ x : Float, d = .real x ∧ x.isNaN = true

/-! ### The order of two operands -/

theorem ordering?_swap (left right : Datum) :
    (ordering? left right).map Ordering.swap = ordering? right left := by
  have hof := Operands.of left right
  have hfo := Operands.of right left
  unfold ordering?
  generalize Operands.of? left right = operands at hof ⊢
  generalize Operands.of? right left = exchanged at hfo ⊢
  cases hof with
  | integers a b =>
    cases hfo with
    | integers => exact congrArg some (Int.compare_swap a.toInt b.toInt)
    | reals hreal => exact absurd ⟨rfl, rfl⟩ hreal
    | refused hnot => exact absurd ⟨rfl, rfl⟩ hnot
  | @reals _ _ x y hreal hleft hright =>
    cases hfo with
    | integers => exact absurd ⟨rfl, rfl⟩ hreal
    | reals _ hright' hleft' =>
      cases hleft.symm.trans hleft'
      cases hright.symm.trans hright'
      exact realOrdering_swap x y
    | refused hnot => exact absurd ⟨isNumeric_of_toReal hright, isNumeric_of_toReal hleft⟩ hnot
  | refused hnot =>
    cases hfo with
    | integers => exact absurd ⟨rfl, rfl⟩ hnot
    | reals _ hright hleft => exact absurd ⟨isNumeric_of_toReal hleft, isNumeric_of_toReal hright⟩ hnot
    | refused => rfl

theorem isNaN_of_toReal {d : Datum} {x : Float} (h : d.toReal = .ok x) : x.isNaN = true ↔ d.IsNaN := by
  unfold Datum.IsNaN
  cases d with
  | integer n =>
    cases h
    rw [Binary64.isNaN_ofInt]
    simp
  | real y =>
    cases h
    simp
  | null | instruction | function | list | scope => cases h

theorem ordering?_eq_none_iff (h : Numbers left right) :
    ordering? left right = none ↔ left.IsNaN ∨ right.IsNaN := by
  have hof := Operands.of left right
  unfold ordering?
  generalize Operands.of? left right = operands at hof ⊢
  cases hof with
  | refused hnot => exact absurd h hnot
  | integers a b => simp [Operands.ordering, Datum.IsNaN]
  | reals _ hleft hright =>
    rw [← isNaN_of_toReal hleft, ← isNaN_of_toReal hright]
    exact realOrdering_eq_none_iff

namespace Comparison

/-- The comparison of the exchanged operands. -/
def mirror : Comparison → Comparison
  | .less => .more
  | .more => .less
  | .lessEq => .moreEq
  | .moreEq => .lessEq
  | .equal => .equal
  | .notEqual => .notEqual

/-- What a comparison is of integers. -/
def Relates : Comparison → Int → Int → Prop
  | .less, m, n => m < n
  | .more, m, n => n < m
  | .lessEq, m, n => m ≤ n
  | .moreEq, m, n => n ≤ m
  | .equal, m, n => m = n
  | .notEqual, m, n => m ≠ n

instance (c : Comparison) (m n : Int) : Decidable (c.Relates m n) :=
  match c with
  | .less => inferInstanceAs (Decidable (m < n))
  | .more => inferInstanceAs (Decidable (n < m))
  | .lessEq => inferInstanceAs (Decidable (m ≤ n))
  | .moreEq => inferInstanceAs (Decidable (n ≤ m))
  | .equal => inferInstanceAs (Decidable (m = n))
  | .notEqual => inferInstanceAs (Decidable (m ≠ n))

/-- The comparisons of which one holds of two numbers that have an order. -/
def deciding : List Comparison := [.less, .equal, .more]

/-- The verdicts of all comparisons on two numbers agree with each other. -/
structure Coherent (verdict : Comparison → Bool) (unordered : Prop) : Prop where
  notEqual : verdict .notEqual = !verdict .equal
  lessEq : verdict .lessEq = (verdict .less || verdict .equal)
  moreEq : verdict .moreEq = (verdict .more || verdict .equal)
  at_most_one : ∀ c ∈ deciding, ∀ d ∈ deciding, verdict c = true → verdict d = true → c = d
  of_ordered : ¬unordered → ∃! c, c ∈ deciding ∧ verdict c = true
  of_unordered : unordered → ∀ c, verdict c = true ↔ c = .notEqual

theorem holds_mirror (c : Comparison) (order : Option Ordering) :
    c.mirror.holds (order.map Ordering.swap) = c.holds order := by
  rcases order with _ | _ | _ | _ <;> cases c <;> rfl

/-- The comparison that tells an order from the two others. -/
def ofOrdering : Ordering → Comparison
  | .lt => .less
  | .eq => .equal
  | .gt => .more

theorem ofOrdering_mem_deciding (o : Ordering) : ofOrdering o ∈ deciding := by
  cases o <;> decide

theorem holds_iff_of_mem_deciding {c : Comparison} (hc : c ∈ deciding) (order : Option Ordering) :
    c.holds order = true ↔ order.map ofOrdering = some c := by
  revert c
  rcases order with _ | _ | _ | _ <;> decide

theorem coherent_holds (order : Option Ordering) : Coherent (·.holds order) (order = none) where
  notEqual := rfl
  lessEq := rfl
  moreEq := rfl
  at_most_one c hc d hd hholdsc hholdsd := by
    have hsame := ((holds_iff_of_mem_deciding hc order).1 hholdsc).symm.trans
      ((holds_iff_of_mem_deciding hd order).1 hholdsd)
    exact Option.some.inj hsame
  of_ordered h := by
    obtain ⟨o, rfl⟩ := Option.ne_none_iff_exists'.1 h
    have hmem := ofOrdering_mem_deciding o
    refine ⟨ofOrdering o, ⟨hmem, (holds_iff_of_mem_deciding hmem _).2 rfl⟩, ?_⟩
    rintro c ⟨hc, hholds⟩
    exact (Option.some.inj ((holds_iff_of_mem_deciding hc _).1 hholds)).symm
  of_unordered h c := by
    subst h
    cases c <;> decide

theorem holds_integers_iff (c : Comparison) (m n : Int) :
    c.holds (some (compare m n)) = true ↔ c.Relates m n := by
  cases c with
  | less => simp [holds, Relates, Int.compare_eq_lt]
  | more => simp [holds, Relates, Int.compare_eq_gt]
  | lessEq =>
    simp only [holds, Relates, Bool.or_eq_true, beq_iff_eq, Option.some.injEq, Int.compare_eq_lt,
      Int.compare_eq_eq]
    omega
  | moreEq =>
    simp only [holds, Relates, Bool.or_eq_true, beq_iff_eq, Option.some.injEq, Int.compare_eq_gt,
      Int.compare_eq_eq]
    omega
  | equal => simp [holds, Relates]
  | notEqual => simp [holds, Relates]

end Comparison

/-! ### All operands -/

open Comparison (Coherent)

/-- On two numbers every comparison has a verdict, the same for its plain and for its chained instruction,
and the six verdicts agree with each other. Two integers are compared as integers, without rounding. -/
theorem comparisons_consistent (left right : Datum) :
    (Numbers left right → ∃ verdict : Comparison → Bool,
      (∀ c : Comparison,
        c.apply (.compare c) left right = .ok (verdict c) ∧
        c.apply (.chain c) left right = .ok (verdict c) ∧
        c.mirror.apply (.compare c.mirror) right left = .ok (verdict c) ∧
        c.mirror.apply (.chain c.mirror) right left = .ok (verdict c)) ∧
      Coherent verdict (left.IsNaN ∨ right.IsNaN) ∧
      ∀ a b : Int64, left = .integer a → right = .integer b →
        ∀ c : Comparison, verdict c = true ↔ c.Relates a.toInt b.toInt) ∧
    (¬Numbers left right → ∀ c : Comparison,
      c.apply (.compare c) left right = .error (.binaryOperands (.compare c) left.tag right.tag) ∧
      c.apply (.chain c) left right = .error (.binaryOperands (.chain c) left.tag right.tag)) := by
  constructor
  · intro hnumbers
    refine ⟨(·.holds (ordering? left right)), fun c => ?_, ?_, ?_⟩
    · have hplain := fun op => c.apply_of_numbers hnumbers op
      have hmirror : ∀ op, c.mirror.apply op right left = .ok (c.holds (ordering? left right)) := by
        intro op
        rw [c.mirror.apply_of_numbers hnumbers.symm, ← ordering?_swap, c.holds_mirror]
      exact ⟨hplain _, hplain _, hmirror _, hmirror _⟩
    · rw [← ordering?_eq_none_iff hnumbers]
      exact Comparison.coherent_holds _
    · rintro a b rfl rfl c
      exact c.holds_integers_iff a.toInt b.toInt
  · intro hnot c
    exact ⟨c.apply_of_not_numbers hnot _, c.apply_of_not_numbers hnot _⟩

/-- Two integers that round to one real are told apart, and what is not a number is equal to nothing. -/
theorem comparisons_consistent_beyondPrecision :
    (Binary64.ofInt 9007199254740992 == Binary64.ofInt 9007199254740993) = true ∧
    Comparison.less.apply (.chain .less) (.integer 9007199254740992) (.integer 9007199254740993) = .ok true ∧
    Comparison.equal.apply (.compare .equal) (.real Float.nan) (.integer 3) = .ok false ∧
    Comparison.more.apply (.compare .more) .null (.integer 3) =
      .error (.binaryOperands (.compare .more) .null .integer) := by
  obtain ⟨large, happly, -, hexact⟩ :=
    (comparisons_consistent (.integer 9007199254740992) (.integer 9007199254740993)).1 ⟨rfl, rfl⟩
  obtain ⟨strange, happly', hcoherent, -⟩ :=
    (comparisons_consistent (.real Float.nan) (.integer 3)).1 ⟨rfl, rfl⟩
  have hless : large .less = true := (hexact _ _ rfl rfl .less).2 (by decide)
  have hequal : strange .equal = false := by
    have hnan : (Datum.real Float.nan).IsNaN := ⟨_, rfl, by decide +kernel⟩
    have hnot := (hcoherent.of_unordered (.inl hnan) .equal).not.2 (by decide)
    exact Bool.eq_false_iff.2 hnot
  refine ⟨by decide +kernel, ?_, ?_, ?_⟩
  · rw [(happly .less).2.1, hless]
  · rw [(happly' .equal).1, hequal]
  · exact ((comparisons_consistent .null (.integer 3)).2 (fun h => nomatch h.1) .more).1

end StackMachine
