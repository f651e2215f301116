import StackMachine.Integer

/-!
# Reading integers

A numeral is one or more ASCII digits. A sign stands in front of it at most once, and leading zeros are
allowed; nothing else is.
-/

namespace StackMachine.Numeral

-- powers are those of the core library, whatever else is imported
attribute [local instance (high)] instPowNat

/-- Takes off a leading sign. The first component tells whether it was a minus. -/
def splitSign : List Char → Bool × List Char
  | '-' :: cs => (true, cs)
  | '+' :: cs => (false, cs)
  | cs => (false, cs)

def natural? (cs : List Char) : Option Nat :=
  if !cs.isEmpty && cs.all Char.isDigit then some (Nat.ofDigitChars 10 cs 0) else none

def integer? (cs : List Char) : Option Int :=
  let (negative, digits) := splitSign cs
  (natural? digits).map fun n => if negative then -(n : Int) else n

def int64? (text : String) : Option Int64 :=
  (integer? text.toList).bind Integer.ofInt?

/-- A minus is refused even in front of zero. -/
def uint32? (text : String) : Option UInt32 :=
  match splitSign text.toList with
  | (true, _) => none
  | (false, digits) =>
    (natural? digits).bind fun n => if n < 2 ^ (32 : Nat) then some (UInt32.ofNat n) else none

theorem natural?_toDigits (n : Nat) : natural? (Nat.toDigits 10 n) = some n := by
  have hne : (Nat.toDigits 10 n).isEmpty = false := by
    simp [Nat.toDigits_ne_nil]
  have hall : (Nat.toDigits 10 n).all Char.isDigit = true := by
    rw [List.all_eq_true]
    exact fun c hc => Nat.isDigit_of_mem_toDigits (by decide) (by decide) hc
  simp [natural?, hne, hall, Nat.ofDigitChars_toDigits]

end StackMachine.Numeral
