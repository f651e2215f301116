import StackMachine.Arithmetic
import StackMachine.Proofs.Binary64.Zero

/-!
# The order of binary64 numbers

The order of two reals is that of their unpacked forms (`realOrdering_eq_compare`). Exchanging the two reverses
it (`realOrdering_swap`), and there is none just if one of them is not a number (`realOrdering_eq_none_iff`).
An integer rounds to a number (`Binary64.isNaN_ofInt`).
-/

namespace StackMachine

open Float.Model (UnpackedFloat)
open Float.Model.UnpackedFloat (Sign)

variable {x y : Float}

namespace Binary64

/-! ### Unpacked numbers -/

theorem compare_sign_swap (s t : Sign) : (compare s t).swap = compare t s := by
  cases s <;> cases t <;> rfl

theorem compare_lexicographic_swap (m n : Nat) (q r : Int) :
    ((compare q r).then (compare m n)).swap = (compare r q).then (compare n m) := by
  rw [Ordering.swap_then, Int.compare_swap, Nat.compare_swap]

theorem unpacked_compare_swap (a b : UnpackedFloat) : (a.compare b).map Ordering.swap = b.compare a := by
  cases a with
  | notANumber => cases b <;> rfl
  | infinity s =>
    cases b with
    | infinity t => exact congrArg some (compare_sign_swap s t)
    | notANumber => rfl
    | zero | finite => cases s <;> rfl
  | zero s =>
    cases b with
    | infinity t | finite t => cases t <;> rfl
    | notANumber | zero => rfl
  | finite s m q =>
    cases b with
    | notANumber => rfl
    | infinity t => cases t <;> rfl
    | zero => cases s <;> rfl
    | finite t n r =>
      -- numbers of one sign go by the exponents, then by the mantissas
      have hswap := compare_lexicographic_swap m n q r
      cases s with
      | positive =>
        cases t with
        | positive => exact congrArg some hswap
        | negative => rfl
      | negative =>
        cases t with
        | positive => rfl
        | negative => exact congrArg (some ·.swap) hswap

theorem unpacked_compare_eq_none_iff {a b : UnpackedFloat} :
    a.compare b = none ↔ a = .notANumber ∨ b = .notANumber := by
  cases a with
  | notANumber => cases b <;> simp [UnpackedFloat.compare]
  | infinity s => cases s <;> cases b <;> simp [UnpackedFloat.compare]
  | zero s =>
    cases b with
    | infinity t | finite t => cases t <;> simp [UnpackedFloat.compare]
    | notANumber | zero => simp [UnpackedFloat.compare]
  | finite s =>
    cases b with
    | infinity t | finite t => cases s <;> cases t <;> simp [UnpackedFloat.compare]
    | notANumber | zero => cases s <;> simp [UnpackedFloat.compare]

/-! ### Integers -/

theorem isNaN_ofInt (z : Int) : (ofInt z).isNaN = false := by
  by_contra h
  rw [Bool.not_eq_false, Float.isNaN_eq_decide_eq_nan, decide_eq_true_eq] at h
  have hmagnitude : magnitude (ofInt z) ≤ infinity := by
    rw [ofInt, magnitude_ofMagnitude (nearest_le_infinity _ _)]
    exact nearest_le_infinity _ _
  have hnan : infinity < magnitude Float.nan := by decide +kernel
  rw [h] at hmagnitude
  omega

end Binary64

/-! ### Reals -/

theorem lt_iff_compare : x < y ↔ x.toModel.unpack.compare y.toModel.unpack = some .lt := by
  show Float.lt x y = true ↔ _
  rw [Float.lt, decide_eq_true_eq]
  show UnpackedFloat.lt _ _ = true ↔ _
  rw [UnpackedFloat.lt, beq_iff_eq]

theorem beq_iff_compare : (x == y) = true ↔ x.toModel.unpack.compare y.toModel.unpack = some .eq := by
  show UnpackedFloat.beq _ _ = true ↔ _
  rw [UnpackedFloat.beq, beq_iff_eq]

theorem gt_iff_compare : y < x ↔ x.toModel.unpack.compare y.toModel.unpack = some .gt := by
  rw [lt_iff_compare, ← Binary64.unpacked_compare_swap, Option.map_eq_some_iff]
  constructor
  · rintro ⟨o, ho, hswap⟩
    rw [ho, Ordering.swap_eq_iff_eq_swap.1 hswap]
    rfl
  · exact fun h => ⟨_, h, rfl⟩

theorem realOrdering_eq_compare (x y : Float) :
    realOrdering x y = x.toModel.unpack.compare y.toModel.unpack := by
  have hlt := lt_iff_compare (x := x) (y := y)
  have heq := beq_iff_compare (x := x) (y := y)
  have hgt := gt_iff_compare (x := x) (y := y)
  unfold realOrdering
  generalize x.toModel.unpack.compare y.toModel.unpack = order at hlt heq hgt ⊢
  rcases order with _ | _ | _ | _ <;> simp [hlt, heq, hgt]

theorem realOrdering_swap (x y : Float) : (realOrdering x y).map Ordering.swap = realOrdering y x := by
  rw [realOrdering_eq_compare, realOrdering_eq_compare, Binary64.unpacked_compare_swap]

theorem realOrdering_eq_none_iff : realOrdering x y = none ↔ x.isNaN = true ∨ y.isNaN = true := by
  rw [realOrdering_eq_compare, Binary64.unpacked_compare_eq_none_iff]
  exact or_congr UnpackedFloat.isNaN_iff.symm UnpackedFloat.isNaN_iff.symm

end StackMachine
