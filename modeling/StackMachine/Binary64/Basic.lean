/-!
# Binary64 numbers as integers

The magnitude of a binary64 number is its bit pattern without the sign, a natural number. A finite
magnitude stands for `m * 2 ^ q`, and `(q + 1074) * 2 ^ 52 + m` gives the pattern back (`decode`,
`encode`): the smallest exponent is `-1074`, and the bit that a normal number leaves out of its pattern
carries into the exponent. The same carry makes the next magnitude out of a mantissa that rounding has
filled up, and infinity out of one that is too large.
-/

namespace StackMachine.Binary64

-- powers are those of the core library, whatever else is imported
attribute [local instance (high)] instPowNat

def infinity : Nat := 0x7FF * 2 ^ (52 : Nat)

/-- The mantissa and the exponent of a finite magnitude. -/
def decode (magnitude : Nat) : Nat × Int :=
  if magnitude < 2 ^ (52 : Nat) then (magnitude, -1074)
  else (2 ^ (52 : Nat) + magnitude % 2 ^ (52 : Nat), magnitude / 2 ^ (52 : Nat) - 1075)

def encode (m : Nat) (q : Int) : Nat :=
  (q + 1074).toNat * 2 ^ (52 : Nat) + m

def magnitude (x : Float) : Nat :=
  x.toBits.toNat % 2 ^ (63 : Nat)

/-- Whether the sign bit is set. -/
def negative (x : Float) : Bool :=
  2 ^ (63 : Nat) ≤ x.toBits.toNat

def ofMagnitude (negative : Bool) (magnitude : Nat) : Float :=
  .ofBits (.ofNat (magnitude + if negative then 2 ^ (63 : Nat) else 0))

/-- A binary64 number taken apart: a finite one is `m * 2 ^ q` with a sign. -/
inductive Shape where
  | notANumber
  | infinite (negative : Bool)
  | finite (negative : Bool) (m : Nat) (q : Int)
deriving DecidableEq, Repr

def shape (x : Float) : Shape :=
  if magnitude x < infinity then
    let (m, q) := decode (magnitude x)
    .finite (negative x) m q
  else if magnitude x = infinity then .infinite (negative x)
  else .notANumber

end StackMachine.Binary64
