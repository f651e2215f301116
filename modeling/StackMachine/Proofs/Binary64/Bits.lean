import Mathlib
import StackMachine.Binary64.Basic

/-!
# Bit patterns

A sign and a magnitude make up a number, and all patterns that stand for no number are one. The mantissa
and the exponent of a magnitude give it back, and are in a certain range (`Canonical`).
-/

namespace StackMachine.Binary64

open Float.Model (Format)
open Float.Model.UnpackedFloat (isNaNBits pack_unpack packedNaN unpackExponent unpackMantissa)

theorem ofMagnitude_magnitude (x : Float) : ofMagnitude (negative x) (magnitude x) = x := by
  have hlt : x.toBits.toNat < 2 ^ 64 := x.toBits.toNat_lt
  have hbits : magnitude x + (if negative x then 2 ^ 63 else 0) = x.toBits.toNat := by
    unfold magnitude negative
    by_cases h : 2 ^ 63 ≤ x.toBits.toNat
    · rw [if_pos (decide_eq_true h)]
      omega
    · rw [if_neg (by simpa using h)]
      omega
  rw [ofMagnitude, hbits, UInt64.ofNat_toNat, Float.ofBits_toBits]

theorem toBits_nan : (0 / 0 : Float).toBits.toBitVec = packedNaN Format.binary64 := by
  decide +kernel

theorem toNat_unpackExponent (b : BitVec Format.binary64.numBits) :
    (unpackExponent b).toNat = b.toNat / 2 ^ 52 % 2 ^ 11 := by
  simp [unpackExponent, Nat.shiftRight_eq_div_pow]

theorem toNat_unpackMantissa (b : BitVec Format.binary64.numBits) :
    (unpackMantissa b).toNat = b.toNat % 2 ^ 52 := by
  simp [unpackMantissa]

theorem eq_nan_of_infinity_lt {x : Float} (h : infinity < magnitude x) : x = 0 / 0 := by
  have hlt : x.toBits.toNat < 2 ^ 64 := x.toBits.toNat_lt
  rw [magnitude, infinity] at h
  have hexponent := toNat_unpackExponent x.toBits.toBitVec
  have hmantissa := toNat_unpackMantissa x.toBits.toBitVec
  refine Float.toBits_inj.1 (UInt64.toBitVec_inj.1 (.trans ?_ toBits_nan.symm))
  refine x.toModel.valid.eq_packedNaN (BitVec.eq_of_toNat_eq (hexponent.trans ?_)) fun h0 => ?_
  · show x.toBits.toNat / 2 ^ 52 % 2 ^ 11 = 2047
    omega
  · rw [show @unpackMantissa Format.binary64 x.toBits.toBitVec = 0#_ from h0] at hmantissa
    have hzero : 0 = x.toBits.toNat % 2 ^ 52 := hmantissa
    omega

theorem toBits_ofBits {b : UInt64} (hb : b.toNat % 2 ^ 63 ≤ infinity) : (Float.ofBits b).toBits = b := by
  rw [infinity] at hb
  have hnumber : ¬@isNaNBits Format.binary64 b.toBitVec = true := by
    intro hnan
    obtain ⟨hexponent, hmantissa⟩ := of_decide_eq_true hnan
    have hones : b.toNat / 2 ^ 52 % 2 ^ 11 = 2047 :=
      (toNat_unpackExponent b.toBitVec).symm.trans (congrArg BitVec.toNat hexponent)
    refine hmantissa (BitVec.eq_of_toNat_eq ((toNat_unpackMantissa b.toBitVec).trans ?_))
    show b.toNat % 2 ^ 52 = 0
    omega
  have hpacked := @pack_unpack Format.binary64 b.toBitVec
  rw [if_neg hnumber] at hpacked
  exact UInt64.toBitVec_inj.1 hpacked

theorem magnitude_ofMagnitude {k : Nat} (hk : k ≤ infinity) (sign : Bool) :
    magnitude (ofMagnitude sign k) = k := by
  have hlt : k < 2 ^ 63 := by
    rw [infinity] at hk
    omega
  have hbits : (UInt64.ofNat (k + if sign then 2 ^ 63 else 0)).toNat = k + if sign then 2 ^ 63 else 0 := by
    refine UInt64.toNat_ofNat_of_lt' ?_
    cases sign <;> simp [UInt64.size] <;> omega
  have hmod : (k + if sign then 2 ^ 63 else 0) % 2 ^ 63 = k := by
    cases sign <;> simp <;> omega
  rw [magnitude, ofMagnitude, toBits_ofBits, hbits, hmod]
  rw [hbits, hmod]
  exact hk

/-- The mantissas and exponents of magnitudes: all exponents but the least have mantissas of 53 bits. -/
structure Canonical (m : Nat) (q : Int) : Prop where
  lt : m < 2 ^ 53
  le : -1074 ≤ q
  normal_or_least : 2 ^ 52 ≤ m ∨ q = -1074

theorem canonical_decode (k : Nat) : Canonical (decode k).1 (decode k).2 := by
  unfold decode
  by_cases h : k < 2 ^ 52
  · rw [if_pos h]
    exact ⟨by omega, by omega, .inr rfl⟩
  · rw [if_neg h]
    exact ⟨by omega, by omega, .inl (by omega)⟩

theorem encode_decode (k : Nat) : encode (decode k).1 (decode k).2 = k := by
  unfold decode encode
  by_cases h : k < 2 ^ 52
  · rw [if_pos h]
    omega
  · rw [if_neg h]
    omega

end StackMachine.Binary64
