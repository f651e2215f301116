import StackMachine.Binary64.Nearest
import StackMachine.Proofs.Binary64.Bits

/-!
# Rounding what needs none

A fraction that is equal to `m * 2 ^ q`, where this is a finite magnitude, is rounded to that one
(`nearest_eq_encode`).
-/

namespace StackMachine.Binary64

variable {num den m : Nat} {p q : Int}

theorem two_pow_toNat (q : Int) : (2 : ℚ) ^ (-q).toNat = 2 ^ q.toNat * 2 ^ (-q) := by
  rw [← zpow_natCast, ← zpow_natCast, ← zpow_add₀ (by norm_num)]
  congr 1
  omega

theorem scale_eq (num den : Nat) (q : Int) :
    ((scale num den q).1 : ℚ) / (scale num den q).2 = num / den * 2 ^ (-q) := by
  simp only [scale, Nat.cast_mul, Nat.cast_pow, Nat.cast_ofNat]
  rw [two_pow_toNat q]
  field_simp

theorem scale_pos (hden : 0 < den) (q : Int) : 0 < (scale num den q).2 :=
  Nat.mul_pos hden (Nat.two_pow_pos _)

theorem scale_lt_iff (num : Nat) (hden : 0 < den) (q : Int) :
    (scale num den q).1 < (scale num den q).2 * 2 ^ 52 ↔ (num : ℚ) / den < 2 ^ (q + 52) := by
  have hpos : (0 : ℚ) < (scale num den q).2 := by exact_mod_cast scale_pos hden q
  calc (scale num den q).1 < (scale num den q).2 * 2 ^ 52
      ↔ ((scale num den q).1 : ℚ) < 2 ^ 52 * (scale num den q).2 := by
        rw [mul_comm]
        exact_mod_cast Iff.rfl
    _ ↔ (num : ℚ) / den * 2 ^ (-q) < 2 ^ 52 := by rw [← div_lt_iff₀ hpos, scale_eq]
    _ ↔ (num : ℚ) / den < 2 ^ (q + 52) := by
        rw [zpow_neg, ← div_eq_mul_inv, div_lt_iff₀ (by positivity), zpow_add₀ (by norm_num), mul_comm]
        rfl

theorem two_pow_log2_le (hnum : num ≠ 0) : (2 : ℚ) ^ (num.log2 : Int) ≤ num := by
  rw [zpow_natCast]
  exact_mod_cast Nat.log2_self_le hnum

theorem lt_two_pow_log2 (num : Nat) : (num : ℚ) < 2 ^ (num.log2 + 1 : Int) := by
  have h : num < 2 ^ (num.log2 + 1) := Nat.lt_log2_self
  exact_mod_cast h

/-- The logarithms of both parts of a fraction leave two values for that of the fraction. -/
theorem log2_div (hnum : num ≠ 0) (hden : 0 < den) (hle : (2 : ℚ) ^ p ≤ num / den)
    (hlt : (num : ℚ) / den < 2 ^ (p + 1)) :
    p = num.log2 - den.log2 ∨ p = num.log2 - den.log2 - 1 := by
  have hden' : (0 : ℚ) < den := by exact_mod_cast hden
  have hupper : (2 : ℚ) ^ p < 2 ^ ((num.log2 + 1 : Int) - den.log2) := by
    rw [zpow_sub₀ (by norm_num)]
    refine hle.trans_lt ?_
    exact div_lt_div₀ (lt_two_pow_log2 num) (two_pow_log2_le hden.ne') (by positivity) (by positivity)
  have hlower : (2 : ℚ) ^ ((num.log2 : Int) - (den.log2 + 1)) < 2 ^ (p + 1) := by
    rw [zpow_sub₀ (by norm_num)]
    refine lt_of_le_of_lt ?_ hlt
    exact div_le_div₀ (by positivity) (two_pow_log2_le hnum) hden' (lt_two_pow_log2 den).le
  have h1 := (zpow_lt_zpow_iff_right₀ (by norm_num : (1 : ℚ) < 2)).1 hupper
  have h2 := (zpow_lt_zpow_iff_right₀ (by norm_num : (1 : ℚ) < 2)).1 hlower
  omega

theorem exponent_eq (hnum : num ≠ 0) (hden : 0 < den) (hle : (2 : ℚ) ^ p ≤ num / den)
    (hlt : (num : ℚ) / den < 2 ^ (p + 1)) : exponent num den = max (-1074) (p - 52) := by
  have htest := scale_lt_iff num hden (num.log2 - den.log2 - 52)
  rw [sub_add_cancel] at htest
  unfold exponent
  dsimp only
  rcases log2_div hnum hden hle hlt with h | h
  · have hge : ¬(num : ℚ) / den < 2 ^ ((num.log2 : Int) - den.log2) := not_lt.2 (h ▸ hle)
    rw [if_neg (htest.not.2 hge)]
    omega
  · have hbelow : (num : ℚ) / den < 2 ^ ((num.log2 : Int) - den.log2) := by
      rw [h, sub_add_cancel] at hlt
      exact hlt
    rw [if_pos (htest.2 hbelow)]
    omega

theorem num_ne_zero (hm : m ≠ 0) (hv : (num : ℚ) / den = m * 2 ^ q) : num ≠ 0 := by
  rintro rfl
  have hpos : (0 : ℚ) < m * 2 ^ q := mul_pos (by exact_mod_cast Nat.pos_of_ne_zero hm) (by positivity)
  rw [Nat.cast_zero, zero_div] at hv
  exact hpos.ne hv

theorem Canonical.exponent_eq (h : Canonical m q) (hm : m ≠ 0) (hden : 0 < den)
    (hv : (num : ℚ) / den = m * 2 ^ q) : exponent num den = q := by
  have hle : (2 : ℚ) ^ (m.log2 + q) ≤ num / den := by
    rw [hv, zpow_add₀ (by norm_num)]
    exact mul_le_mul_of_nonneg_right (two_pow_log2_le hm) (by positivity)
  have hlt : (num : ℚ) / den < 2 ^ (m.log2 + q + 1) := by
    rw [hv, add_right_comm, zpow_add₀ (by norm_num)]
    exact mul_lt_mul_of_pos_right (lt_two_pow_log2 m) (by positivity)
  rw [Binary64.exponent_eq (num_ne_zero hm hv) hden hle hlt]
  have hlog : m.log2 < 53 := (Nat.log2_lt hm).2 h.lt
  have hq := h.le
  rcases h.normal_or_least with hnormal | hleast
  · have := (Nat.le_log2 hm).2 hnormal
    omega
  · omega

theorem roundHalfEven_mul (k : Nat) (hden : 0 < den) : roundHalfEven (k * den) den = k := by
  have hlt : compare (2 * (k * den % den)) den = .lt := by
    rw [Nat.mul_mod_left]
    exact Nat.compare_eq_lt.2 hden
  unfold roundHalfEven
  rw [hlt]
  exact Nat.mul_div_cancel k hden

/-- A number with a magnitude of its own is rounded to itself. -/
theorem nearest_eq_encode (h : Canonical m q) (hm : m ≠ 0) (hden : 0 < den)
    (hv : (num : ℚ) / den = m * 2 ^ q) : nearest num den = min infinity (encode m q) := by
  have hscaled : (scale num den q).1 = m * (scale num den q).2 := by
    have hpos : (0 : ℚ) < (scale num den q).2 := by exact_mod_cast scale_pos hden q
    have hratio := scale_eq num den q
    rw [hv, mul_assoc, ← zpow_add₀ (by norm_num), add_neg_cancel, zpow_zero, mul_one,
      div_eq_iff hpos.ne'] at hratio
    exact_mod_cast hratio
  unfold nearest
  rw [if_neg (num_ne_zero hm hv), h.exponent_eq hm hden hv]
  dsimp only
  rw [hscaled, roundHalfEven_mul m (scale_pos hden q)]

end StackMachine.Binary64
