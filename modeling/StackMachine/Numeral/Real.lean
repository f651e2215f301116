import StackMachine.Numeral
import StackMachine.Binary64.Nearest

/-!
# Reading reals

A real numeral is a sign or none, and then `inf`, `infinity` or `nan` in letters of any case, or digits
with at most one point among them and an exponent or none. There is at least one digit in front of the
exponent, on whichever side of the point. The value is the binary64 number nearest to what is written.
-/

namespace StackMachine.Numeral

/-- The digits at the front of `cs`, and what follows them. -/
def spanDigits (cs : List Char) : List Char × List Char :=
  (cs.takeWhile Char.isDigit, cs.dropWhile Char.isDigit)

/-- Digits around a point that may be missing: those before it, those after it, and the rest. -/
def spanFraction (cs : List Char) : List Char × List Char × List Char :=
  match spanDigits cs with
  | (whole, '.' :: rest) => (whole, spanDigits rest)
  | (whole, rest) => (whole, [], rest)

/-- What stands behind the digits: nothing, or `e` and an integer. -/
def exponent? : List Char → Option Int
  | [] => some 0
  | c :: cs => if c = 'e' ∨ c = 'E' then integer? cs else none

/-- The magnitude of a decimal numeral without its sign. -/
def magnitude? (cs : List Char) : Option Nat :=
  let (whole, part, rest) := spanFraction cs
  if whole.isEmpty && part.isEmpty then none
  else (exponent? rest).map fun e =>
    Binary64.nearestDecimal (Nat.ofDigitChars 10 (whole ++ part) 0) (e - part.length)

def realOfChars? (cs : List Char) : Option Float :=
  let (negative, cs) := splitSign cs
  let lower := cs.map Char.toLower
  if lower = "inf".toList ∨ lower = "infinity".toList then
    some (Binary64.ofMagnitude negative Binary64.infinity)
  else if lower = "nan".toList then some (0 / 0)
  else (magnitude? cs).map (Binary64.ofMagnitude negative)

def real? (text : String) : Option Float :=
  realOfChars? text.toList

end StackMachine.Numeral
