/-!
# Decimals as floats

A decimal `mantissa * 10 ^ exponent` becomes the nearest float. Magnitudes beyond all floats are
settled before any power of ten is computed, so that a long exponent costs nothing.
-/

namespace DanglingBond.Decimal

/-- The float nearest to `mantissa * 10 ^ exponent`, infinite where it exceeds the largest float. -/
def toFloat (mantissa : Nat) (exponent : Int) : Float :=
  let magnitude := ((Nat.toDigits 10 mantissa).length : Int) + exponent
  if mantissa = 0 || magnitude < -400 then 0
  else if 400 < magnitude then 1.0 / 0.0
  else Float.ofScientific mantissa (exponent < 0) exponent.natAbs

def natOfDigits (base : Nat) (values : List Nat) : Nat :=
  values.foldl (fun total digit => base * total + digit) 0

end DanglingBond.Decimal
