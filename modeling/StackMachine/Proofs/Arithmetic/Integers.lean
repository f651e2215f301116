import Mathlib.Algebra.Order.Ring.Int
import StackMachine.Arithmetic

/-!
# Operators on integers are exact

An operator on two integers gives the mathematical result if it fits in 64 bits and a trap if it does not
(`BinaryOp.Gives`, `integer_operators_exact`). Only the quotient of the least integer and `-1` is too large,
and no remainder is.

A power can be found by squaring, given up at the first product that does not fit (`squaring?`). That misses
no power that does fit: a product which is left out of range stays there under all that is still to be
multiplied (`not_inRange_mul`), and a square out of range is above `2 ^ 63`, which is no square, so that no
later product is the least integer (`not_inRange_mul_square`).
-/

namespace StackMachine

-- powers are those of the core library, whatever else is imported
attribute [local instance (high)] instPowNat

namespace Integer

variable {a acc base : Int64} {x y z : Int} {n k : Nat}

/-! ### Out of range -/

theorem not_inRange_of_lt (h : 2 ^ (63 : Nat) < z.natAbs) : ¬InRange z := by
  unfold InRange
  omega

theorem le_natAbs_of_not_inRange (h : ¬InRange z) : 2 ^ (63 : Nat) ≤ z.natAbs := by
  unfold InRange at h
  omega

theorem ofInt?_toInt (a : Int64) : ofInt? a.toInt = some a := ofInt?_eq_some_iff.2 rfl

theorem not_inRange_mul (h : ¬InRange x) (hy : 1 ≤ y) : ¬InRange (x * y) := by
  unfold InRange at *
  rcases Int.le_total 0 x with hx | hx
  · have hle : x * 1 ≤ x * y := Int.mul_le_mul_of_nonneg_left hy hx
    omega
  · have hle : x * y ≤ x * 1 := Int.mul_le_mul_of_nonpos_left hx hy
    omega

/-- The squares next to `2 ^ 63` are those of `3037000499` and its successor. -/
theorem lt_natAbs_mul_self (h : ¬InRange (x * x)) : 2 ^ (63 : Nat) < (x * x).natAbs := by
  have hle := le_natAbs_of_not_inRange h
  rw [Int.natAbs_mul] at hle ⊢
  rcases Nat.lt_or_ge x.natAbs 3037000500 with hx | hx
  · have hsquare := Nat.mul_le_mul (Nat.le_of_lt_succ hx) (Nat.le_of_lt_succ hx)
    omega
  · have hsquare := Nat.mul_le_mul hx hx
    omega

/-- A square out of range does not come back, whatever it and its powers are multiplied by. -/
theorem not_inRange_mul_square (h : ¬InRange (y * y)) (hx : x ≠ 0) (hn : 0 < n) :
    ¬InRange (x * (y * y) ^ n) := by
  refine not_inRange_of_lt ?_
  calc
    2 ^ (63 : Nat) < (y * y).natAbs := lt_natAbs_mul_self h
    _ = (y * y).natAbs ^ 1 := (Nat.pow_one _).symm
    _ ≤ (y * y).natAbs ^ n := Nat.pow_le_pow_right (Nat.zero_lt_of_lt (lt_natAbs_mul_self h)) hn
    _ ≤ x.natAbs * (y * y).natAbs ^ n := Nat.le_mul_of_pos_left _ (Int.natAbs_pos.2 hx)
    _ = (x * (y * y) ^ n).natAbs := by rw [Int.natAbs_mul x, Int.natAbs_pow]

theorem not_inRange_pow (hz : 2 ≤ z.natAbs) (hn : 64 ≤ n) : ¬InRange (z ^ n) := by
  refine not_inRange_of_lt ?_
  rw [Int.natAbs_pow]
  calc
    2 ^ (63 : Nat) < 2 ^ (64 : Nat) := by decide
    _ ≤ 2 ^ n := Nat.pow_le_pow_right (by decide) hn
    _ ≤ z.natAbs ^ n := Nat.pow_le_pow_left hz n

/-! ### Powers -/

theorem neg_one_pow (n : Nat) : (-1 : Int) ^ n = if n % 2 = 0 then 1 else -1 := by
  induction n with
  | zero => rfl
  | succ n ih =>
    rw [Int.pow_succ, ih]
    rcases Nat.mod_two_eq_zero_or_one n with h | h <;> simp [h, Nat.add_mod]

/-- The powers of `0`, `1` and `-1` depend on the parity of a positive exponent alone. -/
theorem pow_eq_pow (hz : z.natAbs ≤ 1) (hn : 0 < n) (hk : 0 < k) (h : n % 2 = k % 2) : z ^ n = z ^ k := by
  have hsmall : z = 0 ∨ z = 1 ∨ z = -1 := by omega
  rcases hsmall with rfl | rfl | rfl
  · rw [Int.zero_pow (Nat.ne_of_gt hn), Int.zero_pow (Nat.ne_of_gt hk)]
  · rw [Int.one_pow, Int.one_pow]
  · rw [neg_one_pow, neg_one_pow, h]

/-- The exponent that stands in for a large one gives the same power, or one that does not fit either. -/
theorem pow?_eq_ofInt? (a : Int64) (n : Nat) : pow? a n = ofInt? (a.toInt ^ n) := by
  unfold pow?
  split
  · rfl
  · next hn =>
    rcases Nat.lt_or_ge 1 a.toInt.natAbs with ha | ha
    · have hstand := not_inRange_pow (n := 64 + n % 2) ha (Nat.le_add_right _ _)
      have hexact := not_inRange_pow (n := n) ha (by omega)
      rw [ofInt?_eq_none_iff.2 hstand, ofInt?_eq_none_iff.2 hexact]
    · rw [pow_eq_pow ha (n := 64 + n % 2) (k := n) (by omega) (by omega) (by omega)]

/-! ### Powers by squaring -/

def mul? (a b : Int64) : Option Int64 := ofInt? (a.toInt * b.toInt)

/-- `acc * base ^ n`, given up at the first product that does not fit. The last square, which would not be
used, is not formed. -/
def squaring? (acc base : Int64) (n : Nat) : Option Int64 :=
  if n = 0 then some acc
  else if n = 1 then mul? acc base
  else (if n % 2 = 1 then mul? acc base else some acc).bind fun acc =>
    (mul? base base).bind fun base => squaring? acc base (n / 2)
termination_by n
decreasing_by omega

/-- `a ^ n` by squaring. An exponent of more than 32 bits is left to three bases, as no other power fits. -/
def power? (a : Int64) (n : Nat) : Option Int64 :=
  if n < 2 ^ (32 : Nat) then squaring? 1 a n
  else if a = 0 ∨ a = 1 then some a
  else if a = -1 then some (if n % 2 = 0 then 1 else -1)
  else none

theorem mul?_of_odd (acc base : Int64) (n : Nat) :
    (if n % 2 = 1 then mul? acc base else some acc) = ofInt? (acc.toInt * base.toInt ^ (n % 2)) := by
  rcases Nat.mod_two_eq_zero_or_one n with hn | hn
  · rw [hn, Int.pow_zero, Int.mul_one, ofInt?_toInt]
    rfl
  · rw [hn, Int.pow_succ, Int.pow_zero, Int.one_mul]
    rfl

theorem mul_pow_split (x y : Int) (n : Nat) : x * y ^ n = x * y ^ (n % 2) * (y * y) ^ (n / 2) := by
  have hsquare : y * y = y ^ 2 := by rw [Int.pow_succ, Int.pow_succ, Int.pow_zero, Int.one_mul]
  rw [hsquare, ← Int.pow_mul, Int.mul_assoc, ← Int.pow_add, Nat.mod_add_div]

theorem ne_zero_of_not_inRange (h : ¬InRange (acc.toInt * base.toInt ^ (n % 2))) : base.toInt ≠ 0 := by
  intro hzero
  rw [hzero] at h
  rcases Nat.mod_two_eq_zero_or_one n with hn | hn
  · rw [hn, Int.pow_zero, Int.mul_one] at h
    exact h (inRange_toInt acc)
  · rw [hn, Int.pow_succ, Int.mul_zero, Int.mul_zero] at h
    exact h (by decide)

/-- A factor that is zero could bring a product back into range. There is none unless the base is zero, and
then nothing gets out of range. -/
def Effective (acc base : Int64) : Prop := base.toInt = 0 ∨ acc.toInt ≠ 0

theorem Effective.mul_pow_ne_zero (h : Effective acc base) (hbase : base.toInt ≠ 0) (k : Nat) :
    acc.toInt * base.toInt ^ k ≠ 0 :=
  mul_ne_zero (h.resolve_left hbase) (pow_ne_zero k hbase)

theorem Effective.next {acc' base' : Int64} (h : Effective acc base)
    (hacc : acc'.toInt = acc.toInt * base.toInt ^ k) (hbase : base'.toInt = base.toInt * base.toInt) :
    Effective acc' base' := by
  unfold Effective
  rw [hacc, hbase, mul_self_eq_zero]
  rcases eq_or_ne base.toInt 0 with hzero | hzero
  · exact .inl hzero
  · exact .inr (h.mul_pow_ne_zero hzero k)

theorem squaring?_eq_ofInt? (h : Effective acc base) :
    squaring? acc base n = ofInt? (acc.toInt * base.toInt ^ n) := by
  induction n using Nat.strongRecOn generalizing acc base with
  | _ n ih =>
    rw [squaring?]
    by_cases h0 : n = 0
    · rw [if_pos h0, h0, Int.pow_zero, Int.mul_one, ofInt?_toInt]
    by_cases h1 : n = 1
    · rw [if_neg h0, if_pos h1, h1, mul?, Int.pow_succ, Int.pow_zero, Int.one_mul]
    rw [if_neg h0, if_neg h1, mul?_of_odd, mul_pow_split acc.toInt base.toInt n]
    cases hacc : ofInt? (acc.toInt * base.toInt ^ (n % 2)) with
    | none =>
      have hout := ofInt?_eq_none_iff.1 hacc
      have hpos : 1 ≤ (base.toInt * base.toInt) ^ (n / 2) :=
        Int.pow_pos (mul_self_pos.2 (ne_zero_of_not_inRange hout))
      exact (ofInt?_eq_none_iff.2 (not_inRange_mul hout hpos)).symm
    | some acc' =>
      have hacc' := ofInt?_eq_some_iff.1 hacc
      show (mul? base base).bind _ = _
      cases hsquare : mul? base base with
      | none =>
        have hout := ofInt?_eq_none_iff.1 hsquare
        have hzero : base.toInt ≠ 0 := by
          intro hzero
          rw [hzero] at hout
          exact hout (by decide)
        have hne := h.mul_pow_ne_zero hzero (n % 2)
        exact (ofInt?_eq_none_iff.2 (not_inRange_mul_square hout hne (by omega))).symm
      | some base' =>
        have hbase' := ofInt?_eq_some_iff.1 hsquare
        rw [← hacc', ← hbase']
        exact ih (n / 2) (by omega) (h.next hacc' hbase')

/-- A power by squaring is the power. -/
theorem power?_eq_ofInt? (a : Int64) (n : Nat) : power? a n = ofInt? (a.toInt ^ n) := by
  have hcases : ∀ b : Int64, a ≠ b → a.toInt ≠ b.toInt := fun b hb h => hb (Int64.toInt_inj.1 h)
  unfold power?
  split
  · have hone : Effective 1 a := .inr (by decide)
    rw [squaring?_eq_ofInt? hone, show (1 : Int64).toInt = 1 from rfl, Int.one_mul]
  · next hn =>
    have hpos : n ≠ 0 := by omega
    split
    · next h =>
      rcases h with rfl | rfl
      · rw [show (0 : Int64).toInt = 0 from rfl, Int.zero_pow hpos]
        rfl
      · rw [show (1 : Int64).toInt = 1 from rfl, Int.one_pow]
        rfl
    · next h =>
      split
      · next hneg =>
        subst hneg
        rw [show (-1 : Int64).toInt = -1 from rfl, neg_one_pow]
        split <;> rfl
      · next hneg =>
        have h0 : a.toInt ≠ 0 := hcases 0 fun ha => h (.inl ha)
        have h1 : a.toInt ≠ 1 := hcases 1 fun ha => h (.inr ha)
        have h2 : a.toInt ≠ -1 := hcases (-1) hneg
        exact (ofInt?_eq_none_iff.2 (not_inRange_pow (by omega) (by omega))).symm

end Integer

/-! ### Operators -/

namespace BinaryOp

open Integer

/-- On two integers the operator gives the integer `z` if it fits, and else the trap of a result that does
not. -/
structure Gives (op : BinaryOp) (a b : Int64) (z : Int) : Prop where
  result : InRange z → ∃ n : Int64, n.toInt = z ∧ op.apply (.integer a) (.integer b) = .ok (.integer n)
  overflow : ¬InRange z → op.apply (.integer a) (.integer b) = .error (.integerOverflow (.binary op))

variable {op : BinaryOp} {a b : Int64} {z : Int}

theorem gives_of_fitting (h : op.onIntegers a b = fitting (.binary op) (ofInt? z)) : op.Gives a b z := by
  have happly : op.apply (.integer a) (.integer b) = fitting (.binary op) (ofInt? z) := h
  rw [← happly] at h
  constructor
  · intro hz
    cases hn : ofInt? z with
    | none => exact absurd hz (ofInt?_eq_none_iff.1 hn)
    | some n => exact ⟨n, ofInt?_eq_some_iff.1 hn, by rw [happly, hn]; rfl⟩
  · intro hz
    rw [happly, ofInt?_eq_none_iff.2 hz]
    rfl

theorem gives_div (a : Int64) (hb : b ≠ 0) : div.Gives a b (a.toInt.tdiv b.toInt) :=
  gives_of_fitting (if_neg hb)

theorem onIntegers_pow (a : Int64) (hb : 0 ≤ b.toInt) :
    pow.onIntegers a b = fitting (.binary .pow) (ofInt? (a.toInt ^ b.toInt.toNat)) := by
  rw [onIntegers, if_pos hb, pow?_eq_ofInt?]

/-- Only the divisor `-1` leaves a quotient as large as the least integer, with the other sign. -/
theorem inRange_tdiv_iff (a : Int64) (hb : b ≠ 0) :
    InRange (a.toInt.tdiv b.toInt) ↔ ¬(a = Int64.minValue ∧ b = -1) := by
  constructor
  · rintro hin ⟨rfl, rfl⟩
    exact absurd hin (by decide)
  · intro hne
    have ha := inRange_toInt a
    have hb0 : b.toInt ≠ 0 := fun h => hb (Int64.toInt_inj.1 h)
    have hsize := Int.natAbs_tdiv a.toInt b.toInt
    unfold InRange at ha ⊢
    by_cases hone : b.toInt.natAbs = 1
    · rcases (by omega : b.toInt = 1 ∨ b.toInt = -1) with h | h
      · rw [h, Int.tdiv_one]
        exact ha
      · have hleast : a.toInt ≠ -2 ^ (63 : Nat) := fun hleast =>
          hne ⟨Int64.toInt_inj.1 hleast, Int64.toInt_inj.1 h⟩
        rw [h, Int.tdiv_neg, Int.tdiv_one]
        omega
    · have hhalf : a.toInt.natAbs / b.toInt.natAbs ≤ a.toInt.natAbs / 2 :=
        Nat.div_le_div_left (by omega) (by decide)
      change _ = a.toInt.natAbs / b.toInt.natAbs at hsize
      omega

/-- The remainder goes with the truncated quotient. -/
structure Remainder (a b r : Int) : Prop where
  lt : r.natAbs < b.natAbs
  sign : r = 0 ∨ r.sign = a.sign
  eq : a = a.tdiv b * b + r

theorem remainder_mod (a : Int64) (hb : b ≠ 0) : Remainder a.toInt b.toInt (a % b).toInt where
  lt := by
    have hb0 : b.toInt ≠ 0 := fun h => hb (Int64.toInt_inj.1 h)
    rw [Int64.toInt_mod, Int.natAbs_tmod]
    exact Nat.mod_lt _ (Int.natAbs_pos.2 hb0)
  sign := by
    rw [Int64.toInt_mod, ← Int.sign_eq_zero_iff_zero, Int.sign_tmod]
    split
    · exact .inl rfl
    · exact .inr rfl
  eq := by rw [Int64.toInt_mod, Int.tdiv_mul_add_tmod]

theorem apply_mod (a : Int64) (hb : b ≠ 0) :
    mod.apply (.integer a) (.integer b) = .ok (.integer (a % b)) := by
  have hr : ofInt? (a.toInt.tmod b.toInt) = some (a % b) := ofInt?_eq_some_iff.2 (Int64.toInt_mod a b)
  show mod.onIntegers a b = _
  rw [onIntegers, if_neg hb, hr]
  rfl

end BinaryOp

/-- On two integers the operators give the mathematical result where it fits, and tell of an overflow where
it does not. A power comes out as by squaring, whatever the exponent. -/
theorem integer_operators_exact (a b : Int64) :
    BinaryOp.add.Gives a b (a.toInt + b.toInt) ∧
    BinaryOp.sub.Gives a b (a.toInt - b.toInt) ∧
    BinaryOp.mul.Gives a b (a.toInt * b.toInt) ∧
    (b ≠ 0 →
      BinaryOp.div.Gives a b (a.toInt.tdiv b.toInt) ∧
      (Integer.InRange (a.toInt.tdiv b.toInt) ↔ ¬(a = Int64.minValue ∧ b = -1)) ∧
      ∃ r : Int64, BinaryOp.mod.apply (.integer a) (.integer b) = .ok (.integer r) ∧
        BinaryOp.Remainder a.toInt b.toInt r.toInt) ∧
    (0 ≤ b.toInt →
      BinaryOp.pow.Gives a b (a.toInt ^ b.toInt.toNat) ∧
      BinaryOp.pow.apply (.integer a) (.integer b) =
        fitting (.binary .pow) (Integer.power? a b.toInt.toNat)) := by
  refine ⟨BinaryOp.gives_of_fitting rfl, BinaryOp.gives_of_fitting rfl, BinaryOp.gives_of_fitting rfl, ?_, ?_⟩
  · intro hb
    exact ⟨BinaryOp.gives_div a hb, BinaryOp.inRange_tdiv_iff a hb, a % b, BinaryOp.apply_mod a hb,
      BinaryOp.remainder_mod a hb⟩
  · intro hb
    have hpow := BinaryOp.onIntegers_pow a hb
    refine ⟨BinaryOp.gives_of_fitting hpow, ?_⟩
    rw [Integer.power?_eq_ofInt?]
    exact hpow

/-- The least integer divided by `-1` does not fit, leaves no remainder, and is a power of `-2`. -/
theorem integer_operators_exact_least :
    BinaryOp.div.apply (.integer Int64.minValue) (.integer (-1)) = .error (.integerOverflow (.binary .div)) ∧
    BinaryOp.mod.apply (.integer Int64.minValue) (.integer (-1)) = .ok (.integer 0) ∧
    BinaryOp.pow.apply (.integer (-2)) (.integer 63) = .ok (.integer Int64.minValue) := by
  obtain ⟨-, -, -, hdivision, -⟩ := integer_operators_exact Int64.minValue (-1)
  obtain ⟨hdiv, hrange, r, hmod, hr⟩ := hdivision (by decide)
  obtain ⟨-, -, -, -, hpower⟩ := integer_operators_exact (-2) 63
  obtain ⟨n, hn, hpow⟩ := (hpower (by decide)).1.result (by decide)
  have hr0 : r = 0 := by
    have hlt := hr.lt
    have hone : (-1 : Int64).toInt.natAbs = 1 := rfl
    exact Int64.toInt_inj.1 (Int.natAbs_eq_zero.1 (by omega))
  have hleast : n = Int64.minValue := Int64.toInt_inj.1 (hn.trans rfl)
  subst hr0 hleast
  exact ⟨hdiv.overflow fun h => hrange.1 h ⟨rfl, rfl⟩, hmod, hpow⟩

end StackMachine
