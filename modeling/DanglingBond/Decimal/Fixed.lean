import DanglingBond.Binary64
import DanglingBond.Decimal.Rounding

/-!
# A fixed number of places

The exact value of a float is rounded to the nearest multiple of `10 ^ -places`, a half going to
the even neighbour. A negative sign stays even where all digits are zero.
-/

namespace DanglingBond.Decimal

/-- The magnitude of a finite number with `places` digits after the point. -/
def fixedMagnitude (places : Nat) (b : Binary64) : String :=
  let (numerator, denominator) := b.scaled places
  let written := padded (places + 1) (roundHalfEven numerator denominator)
  let (whole, fraction) := written.splitAt (written.length - places)
  String.ofList (if places = 0 then whole else whole ++ '.' :: fraction)

def fixed (places : Nat) (x : Float) : String :=
  if x.isNaN then "NaN"
  else if x.isInf then (if x < 0 then "-inf" else "inf")
  else
    let b := Binary64.ofFloat x
    (if b.negative then "-" else "") ++ fixedMagnitude places b

end DanglingBond.Decimal
