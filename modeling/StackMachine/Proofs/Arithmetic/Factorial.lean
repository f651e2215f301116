import Mathlib.Data.Nat.Factorial.Basic
import StackMachine.Arithmetic

/-!
# The factorial is exact and stops early

The factorial of an integer is the mathematical one if that fits in 64 bits, and a trap if it does not
(`factorial_exact`). The last to fit is that of `20` (`factorial_lt_iff`): a product that has become too
large stays so under all the factors to come. So it is given up there and then, and no integer, however
large, takes more than 20 multiplications (`productCounted_factorial`).
-/

namespace StackMachine

-- powers are those of the core library, whatever else is imported
attribute [local instance (high)] instPowNat

namespace Integer

variable {k n : Nat}

theorem factorial_lt_iff : n.factorial < 2 ^ (63 : Nat) ↔ n ≤ 20 := by
  constructor
  · intro hfits
    by_contra hn
    have hle : Nat.factorial 21 ≤ n.factorial := Nat.factorial_le (Nat.lt_of_not_le hn)
    have hlarge : 2 ^ (63 : Nat) ≤ Nat.factorial 21 := by decide
    omega
  · intro hn
    have hle : n.factorial ≤ Nat.factorial 20 := Nat.factorial_le hn
    have hsmall : Nat.factorial 20 < 2 ^ (63 : Nat) := by decide
    omega

/-! ### Multiplications -/

/-- `productFrom`, and the number of multiplications made for it. -/
def productCounted (acc k n : Nat) : Option Nat × Nat :=
  if n < k then (some acc, 0)
  else if acc * k < 2 ^ (63 : Nat) then
    (productCounted (acc * k) (k + 1) n).map id (· + 1)
  else (none, 1)
termination_by n + 1 - k

theorem productCounted_fst (acc k n : Nat) : (productCounted acc k n).1 = productFrom acc k n := by
  fun_induction productFrom acc k n with
  | case1 acc k hlast => rw [productCounted, if_pos hlast]
  | case2 acc k hlast hfits ih =>
    rw [productCounted, if_neg hlast, if_pos hfits, Prod.map_fst, id, ih]
  | case3 acc k hlast hfits => rw [productCounted, if_neg hlast, if_neg hfits]

/-- From the factorial of `k` on, one multiplication is made for each factor up to `n` or `21`: the
factorial of `21` is the first product that does not fit. -/
theorem productCounted_factorial (hkn : k ≤ n) (hk : k ≤ 20) :
    productCounted k.factorial (k + 1) n =
      (if n ≤ 20 then some n.factorial else none, min n 21 - k) := by
  induction hd : n - k generalizing k with
  | zero =>
    obtain rfl : k = n := by omega
    rw [productCounted, if_pos (Nat.lt_succ_self k), if_pos hk, Nat.min_eq_left (by omega), Nat.sub_self]
  | succ d ih =>
    have hnext : k.factorial * (k + 1) = (k + 1).factorial := Nat.mul_comm _ _
    rw [productCounted, if_neg (by omega), hnext]
    by_cases hfits : k + 1 ≤ 20
    · rw [if_pos (factorial_lt_iff.2 hfits), ih (by omega) hfits (by omega), Prod.map_apply, id,
        Prod.mk.injEq]
      exact ⟨rfl, by omega⟩
    · rw [if_neg (mt factorial_lt_iff.1 hfits), if_neg (by omega), Prod.mk.injEq]
      exact ⟨rfl, by omega⟩

theorem productCounted_one (n : Nat) :
    productCounted 1 2 n = (if n ≤ 20 then some n.factorial else none, min n 21 - 1) := by
  cases n with
  | zero => rw [productCounted]; rfl
  | succ n => exact productCounted_factorial (k := 1) (Nat.le_add_left 1 n) (by decide)

/-! ### Results -/

theorem factorial?_eq_ofInt? (n : Nat) : factorial? n = ofInt? n.factorial := by
  unfold factorial?
  rw [← productCounted_fst, productCounted_one]
  split
  · next hn =>
    have hfits := factorial_lt_iff.2 hn
    have hin : InRange n.factorial := by
      unfold InRange
      omega
    have hexact : (Int64.ofNat n.factorial).toInt = n.factorial := Int64.toInt_ofNat_of_lt hfits
    exact (ofInt?_eq_some_iff.2 hexact).symm
  · next hn =>
    have hout : ¬InRange n.factorial := by
      have hlarge := mt factorial_lt_iff.1 hn
      unfold InRange
      omega
    exact (ofInt?_eq_none_iff.2 hout).symm

end Integer

/-- A negative integer has no factorial. The factorial of any other is exact if it fits, and a trap if it does
not. Either way it takes at most 20 multiplications. -/
theorem factorial_exact (n : Int64) :
    (n.toInt < 0 → factorial (.integer n) = .error (.negativeFactorial n)) ∧
    (0 ≤ n.toInt →
      (Integer.InRange n.toInt.toNat.factorial → ∃ m : Int64,
        m.toInt = n.toInt.toNat.factorial ∧ factorial (.integer n) = .ok (.integer m)) ∧
      (¬Integer.InRange n.toInt.toNat.factorial →
        factorial (.integer n) = .error (.integerOverflow .factorial)) ∧
      ∃ multiplications ≤ 20, Integer.productCounted 1 2 n.toInt.toNat =
        (Integer.productFrom 1 2 n.toInt.toNat, multiplications)) := by
  refine ⟨fun hneg => if_pos hneg, fun hn => ?_⟩
  have hresult : factorial (.integer n) =
      fitting .factorial (Integer.ofInt? n.toInt.toNat.factorial) := by
    rw [factorial, if_neg (Int.not_lt.2 hn), Integer.factorial?_eq_ofInt?]
  refine ⟨fun hin => ?_, fun hout => ?_, ?_⟩
  · cases hm : Integer.ofInt? n.toInt.toNat.factorial with
    | none => exact absurd hin (Integer.ofInt?_eq_none_iff.1 hm)
    | some m => exact ⟨m, Integer.ofInt?_eq_some_iff.1 hm, by rw [hresult, hm]; rfl⟩
  · rw [hresult, Integer.ofInt?_eq_none_iff.2 hout]
    rfl
  · have hcount := Integer.productCounted_one n.toInt.toNat
    refine ⟨(Integer.productCounted 1 2 n.toInt.toNat).2, ?_, ?_⟩
    · rw [hcount]
      exact Nat.sub_le_of_le_add (Nat.min_le_right _ _)
    · rw [← Integer.productCounted_fst]

/-- The last factorial that fits, the first that does not, and the largest integer there is. -/
theorem factorial_exact_largest :
    factorial (.integer 20) = .ok (.integer 2432902008176640000) ∧
    factorial (.integer 21) = .error (.integerOverflow .factorial) ∧
    factorial (.integer Int64.minValue) = .error (.negativeFactorial Int64.minValue) ∧
    ∃ multiplications ≤ 20, Integer.productCounted 1 2 Int64.maxValue.toInt.toNat =
      (Integer.productFrom 1 2 Int64.maxValue.toInt.toNat, multiplications) := by
  obtain ⟨m, hm, hfits⟩ := ((factorial_exact 20).2 (by decide)).1 (by decide)
  obtain rfl : m = 2432902008176640000 := Int64.toInt_inj.1 (hm.trans rfl)
  exact ⟨hfits, ((factorial_exact 21).2 (by decide)).2.1 (by decide),
    (factorial_exact Int64.minValue).1 (by decide), ((factorial_exact Int64.maxValue).2 (by decide)).2.2⟩

end StackMachine
