import StackMachine.Binary64.Nearest

/-!
# Remainders of binary64 numbers
-/

namespace StackMachine.Binary64

-- powers are those of the core library, whatever else is imported
attribute [local instance (high)] instPowNat

/-- The remainder of the quotient `x / y` cut towards zero, with the sign of `x`. It is exact: on the
smaller of the two exponents both numbers are integers. -/
def remainder (x y : Float) : Float :=
  match shape x, shape y with
  | .finite negative m q, .finite _ n r =>
    if n = 0 then 0 / 0
    else
      let common := min q r
      let rest := (m * 2 ^ (q - common).toNat) % (n * 2 ^ (r - common).toNat)
      let (num, den) := fraction rest common
      ofMagnitude negative (nearest num den)
  | .finite .., .infinite _ => x
  | _, _ => 0 / 0

end StackMachine.Binary64
