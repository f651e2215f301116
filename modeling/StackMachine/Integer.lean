/-!
# 64-bit integers

Arithmetic on machine integers is done on their mathematical values; a result outside the range of
64 bits is no integer of the machine. `ofInt?_eq_some_iff` is the rule all operators share.
-/

namespace StackMachine.Integer

-- powers are those of the core library, whatever else is imported
attribute [local instance (high)] instPowNat

def InRange (z : Int) : Prop :=
  -2 ^ (63 : Nat) ≤ z ∧ z < 2 ^ (63 : Nat)

instance (z : Int) : Decidable (InRange z) :=
  inferInstanceAs (Decidable (_ ∧ _))

def ofInt? (z : Int) : Option Int64 :=
  if InRange z then some (Int64.ofInt z) else none

theorem inRange_toInt (n : Int64) : InRange n.toInt :=
  ⟨n.le_toInt, n.toInt_lt⟩

theorem ofInt?_eq_some_iff {z : Int} {n : Int64} : ofInt? z = some n ↔ n.toInt = z := by
  unfold ofInt?
  split
  · next h =>
    have hz : (Int64.ofInt z).toInt = z := Int64.toInt_ofInt_of_le h.1 h.2
    rw [Option.some.injEq]
    constructor
    · rintro rfl
      exact hz
    · rintro rfl
      exact Int64.ofInt_toInt n
  · next h =>
    simp only [reduceCtorEq, false_iff]
    rintro rfl
    exact h (inRange_toInt n)

theorem ofInt?_eq_none_iff {z : Int} : ofInt? z = none ↔ ¬InRange z := by
  unfold ofInt?
  split <;> simp_all

/-- `a ^ b`. An exponent above 64 is replaced by 64 or 65, whichever has its parity: a base of absolute
value two or more is out of range either way, and the powers of `0`, `1` and `-1` depend on the parity
of a positive exponent alone. -/
def pow? (a : Int64) (b : Nat) : Option Int64 :=
  ofInt? (a.toInt ^ if b ≤ 64 then b else 64 + b % 2)

/-- `acc * k * (k + 1) * … * n`, given up at the first product that reaches `2 ^ 63`. -/
def productFrom (acc k n : Nat) : Option Nat :=
  if n < k then some acc
  else if acc * k < 2 ^ (63 : Nat) then productFrom (acc * k) (k + 1) n
  else none
termination_by n + 1 - k

def factorial? (n : Nat) : Option Int64 :=
  (productFrom 1 2 n).map Int64.ofNat

end StackMachine.Integer
