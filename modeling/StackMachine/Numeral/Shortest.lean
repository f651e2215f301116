import StackMachine.Numeral.Real

/-!
# The shortest text of a real

A finite real is written with the fewest digits that read back as it, and of the decimals with so few
digits with the one nearest to it; of two that are equally near the larger is taken. Positional form
runs from `1e-4` to below `1e16` and always shows a point; all else has an exponent.
-/

namespace StackMachine.Numeral

-- powers are those of the core library, whatever else is imported
attribute [local instance (high)] instPowNat

/-- The decimal `digits * 10 ^ exponent`. -/
structure Decimal where
  digits : Nat
  exponent : Int
deriving DecidableEq, Repr

namespace Decimal

/-- The place of the leading digit: `0` for the units, `-1` for the tenths. -/
def leadingPlace (d : Decimal) : Int :=
  (Nat.toDigits 10 d.digits).length - 1 + d.exponent

/-- All digits written out, with at least one on each side of the point. -/
def positional (d : Decimal) : List Char :=
  let digits := Nat.toDigits 10 d.digits
  if 0 ≤ d.exponent then digits ++ List.replicate d.exponent.toNat '0' ++ ['.', '0']
  else
    let places := (-d.exponent).toNat
    let padded := List.replicate (places + 1 - digits.length) '0' ++ digits
    padded.take (padded.length - places) ++ '.' :: padded.drop (padded.length - places)

/-- One digit, the others behind a point, and the place of the first as the exponent. -/
def scientific (d : Decimal) : List Char :=
  let mantissa := match Nat.toDigits 10 d.digits with
    | first :: second :: more => first :: '.' :: second :: more
    | digits => digits
  mantissa ++ 'e' :: (toString d.leadingPlace).toList

def render (d : Decimal) : List Char :=
  if -4 ≤ d.leadingPlace ∧ d.leadingPlace < 16 then d.positional else d.scientific

/-- Digits and exponent as they are, whatever their size. -/
def plain (d : Decimal) : List Char :=
  Nat.toDigits 10 d.digits ++ 'e' :: (toString d.exponent).toList

end Decimal

/-- Whether `10 ^ p ≤ num / den`. -/
def powerLe (p : Int) (num den : Nat) : Bool :=
  10 ^ p.toNat * den ≤ num * 10 ^ (-p).toNat

/-- The place of the leading digit of `num / den`. The logarithms to base two give it up to one. -/
def leadingPlace (num den : Nat) : Int :=
  let p := ((num.log2 : Int) - den.log2) * 30103 / 100000
  if powerLe (p + 1) num den then p + 1 else if powerLe p num den then p else p - 1

/-- The two decimals next to `num / den` whose last digit stands at the place `p`, the nearer one first
and the larger one first if they are equally near. -/
def neighbours (num den : Nat) (p : Int) : List Decimal :=
  let n := num * 10 ^ (-p).toNat
  let d := den * 10 ^ p.toNat
  let lower : Decimal := ⟨n / d, p⟩
  let upper : Decimal := ⟨n / d + 1, p⟩
  if d ≤ 2 * (n % d) then [upper, lower] else [lower, upper]

/-- Takes zeros off the end of at most `fuel` digits. -/
def trimZeros : Nat → Decimal → Decimal
  | 0, d => d
  | fuel + 1, d => if d.digits % 10 = 0 then trimZeros fuel ⟨d.digits / 10, d.exponent + 1⟩ else d

/-- The texts to try for `num / den`, with one digit, with two and so on to seventeen, which are enough
for every binary64 number. -/
def candidates (num den : Nat) : List (List Char) :=
  let place := leadingPlace num den
  (List.range 17).flatMap fun (n : Nat) =>
    (neighbours num den (place - n)).map fun d => (trimZeros (n + 1) d).render

/-- All digits of `m * 2 ^ q`. -/
def exactDecimal (m : Nat) (q : Int) : Decimal :=
  if 0 ≤ q then ⟨m * 2 ^ q.toNat, 0⟩ else ⟨m * 5 ^ (-q).toNat, q⟩

/-- The text of the positive number `m * 2 ^ q` of the given magnitude: the first candidate that reads
back. One always does; the exact expansion, which reads back too, makes the search total. -/
def shortestChars (magnitude m : Nat) (q : Int) : List Char :=
  let (num, den) := Binary64.fraction m q
  ((candidates num den).find? fun cs => magnitude? cs == some magnitude).getD
    (exactDecimal m q).plain

def shortest (x : Float) : String :=
  match Binary64.shape x with
  | .notANumber => "NaN"
  | .infinite negative => if negative then "-inf" else "inf"
  | .finite negative m q =>
    let digits := if m = 0 then "0.0".toList else shortestChars (Binary64.magnitude x) m q
    String.ofList (if negative then '-' :: digits else digits)

end StackMachine.Numeral
