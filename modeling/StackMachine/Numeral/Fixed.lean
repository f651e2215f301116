import StackMachine.Binary64.Nearest

/-!
# Reals with six places

A finite real is shown with all the digits of its whole part and six places behind the point, rounded
from its exact value, a half to the even neighbour. The sign is that of the number even where every
digit shown is zero.
-/

namespace StackMachine.Numeral

-- powers are those of the core library, whatever else is imported
attribute [local instance (high)] instPowNat

/-- `units / 10 ^ places` with all its places. -/
def fixedChars (places units : Nat) : List Char :=
  let part := Nat.toDigits 10 (units % 10 ^ places)
  Nat.toDigits 10 (units / 10 ^ places) ++ '.' :: (List.replicate (places - part.length) '0' ++ part)

def sixPlaces (x : Float) : String :=
  match Binary64.shape x with
  | .notANumber => "NaN"
  | .infinite negative => if negative then "-inf" else "inf"
  | .finite negative m q =>
    let (num, den) := Binary64.fraction m q
    let digits := fixedChars 6 (Binary64.roundHalfEven (num * 10 ^ (6 : Nat)) den)
    String.ofList (if negative then '-' :: digits else digits)

end StackMachine.Numeral
