import StackMachine.Binary64.Nearest
import StackMachine.Proofs.Binary64.Bits

/-!
# Zero

There are two zeros, and they compare equal (`beq_zero_iff`). No integer but `0` is rounded to one of them
(`ofInt_beq_zero_iff`).
-/

namespace StackMachine.Binary64

theorem beq_zero_iff {x : Float} : (x == 0) = true ↔ x = 0 ∨ x = -0 := by
  have hzero : (0 : Float) ≠ Float.nan := by decide +kernel
  have hneg : (-0 : Float) ≠ Float.nan := by decide +kernel
  rw [Float.beq_iff_ne_nan_and_eq]
  constructor
  · rintro ⟨-, -, h | h | h⟩
    · exact .inl h
    · exact .inl h.1
    · exact .inr h.1
  · rintro (rfl | rfl)
    · exact ⟨hzero, hzero, .inl rfl⟩
    · exact ⟨hneg, hzero, .inr (.inr ⟨rfl, rfl⟩)⟩

theorem magnitude_eq_zero {x : Float} (h : (x == 0) = true) : magnitude x = 0 := by
  obtain rfl | rfl := beq_zero_iff.1 h
  · decide +kernel
  · decide +kernel

theorem le_exponent_one (num : Nat) : -53 ≤ exponent num 1 := by
  have hlog : Nat.log2 1 = 0 := rfl
  unfold exponent
  dsimp only
  rw [hlog]
  split <;> omega

theorem nearest_one_ne_zero {num : Nat} (h : num ≠ 0) : nearest num 1 ≠ 0 := by
  have hexponent := le_exponent_one num
  unfold nearest encode infinity
  rw [if_neg h]
  dsimp only
  omega

theorem nearest_le_infinity (num den : Nat) : nearest num den ≤ infinity := by
  unfold nearest
  split
  · exact Nat.zero_le _
  · exact Nat.min_le_left _ _

theorem ofInt_beq_zero_iff {z : Int} : (ofInt z == 0) = true ↔ z = 0 := by
  constructor
  · intro h
    have hmagnitude := magnitude_eq_zero h
    rw [ofInt, magnitude_ofMagnitude (nearest_le_infinity _ _)] at hmagnitude
    by_contra hz
    exact nearest_one_ne_zero (Int.natAbs_ne_zero.2 hz) hmagnitude
  · rintro rfl
    decide +kernel

end StackMachine.Binary64
