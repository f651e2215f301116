import StackMachine.Binary64.Basic

/-!
# Rounding to binary64

The magnitude nearest to a fraction of natural numbers, computed exactly: the fraction is scaled so that
its whole part has as many bits as a mantissa, and rounded there. A half goes to the even neighbour.
-/

namespace StackMachine.Binary64

-- powers are those of the core library, whatever else is imported
attribute [local instance (high)] instPowNat

/-- `m * 2 ^ q` as a fraction. -/
def fraction (m : Nat) (q : Int) : Nat × Nat :=
  (m * 2 ^ q.toNat, 2 ^ (-q).toNat)

/-- `num / den` to the nearest integer, a half to the even one. -/
def roundHalfEven (num den : Nat) : Nat :=
  let quotient := num / den
  match compare (2 * (num % den)) den with
  | .lt => quotient
  | .eq => quotient + quotient % 2
  | .gt => quotient + 1

/-- `num / den / 2 ^ q` as a fraction. -/
def scale (num den : Nat) (q : Int) : Nat × Nat :=
  (num * 2 ^ (-q).toNat, den * 2 ^ q.toNat)

/-- The exponent at which `num / den` has a mantissa of 53 bits, or `-1074` where that is smaller. The
logarithms determine it up to one. -/
def exponent (num den : Nat) : Int :=
  let q := (num.log2 : Int) - den.log2 - 52
  let (n, d) := scale num den q
  max (-1074) (if n < d * 2 ^ (52 : Nat) then q - 1 else q)

/-- The magnitude nearest to `num / den`, the one with an even mantissa if two are equally near. -/
def nearest (num den : Nat) : Nat :=
  if num = 0 then 0
  else
    let q := exponent num den
    let (n, d) := scale num den q
    min infinity (encode (roundHalfEven n d) q)

/-- The magnitude nearest to `m * 10 ^ e`. No power is formed where `e` alone decides: a positive `m` is
at least `1` and less than `10 ^ (m.log2 + 1)`, and `10 ^ 400` is far above every finite magnitude and
its inverse far below. -/
def nearestDecimal (m : Nat) (e : Int) : Nat :=
  if m = 0 then 0
  else if 400 < e then infinity
  else if e < -(400 + m.log2 : Int) then 0
  else nearest (m * 10 ^ e.toNat) (10 ^ (-e).toNat)

def ofInt (z : Int) : Float :=
  ofMagnitude (z < 0) (nearest z.natAbs 1)

end StackMachine.Binary64
