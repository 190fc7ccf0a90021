import DanglingBond.Decimal.Shortest

/-!
# Scientific notation

The exact value of a float is rounded to a fixed number of places behind its leading digit, a half
going to the even neighbour, and written with a power of ten.
-/

namespace DanglingBond.Decimal

/-- The magnitude of a finite number other than zero with `places` digits after the point. -/
def scientificMagnitude (places : Nat) (b : Binary64) : String :=
  let digitsAt (exponent : Int) : Nat :=
    let (numerator, denominator) := b.scaled (places - exponent)
    roundHalfEven numerator denominator
  let top := leadingExponent b - 1
  let exponent := if digitsAt top < 10 ^ places then top - 1 else top
  let digits := digitsAt exponent
  -- rounding up may have made the leading digit a ten
  let (digits, exponent) :=
    if digits = 10 ^ (places + 1) then (10 ^ places, exponent + 1) else (digits, exponent)
  let fraction := String.ofList (padded places (digits % 10 ^ places))
  let point := if places = 0 then "" else "." ++ fraction
  s!"{digits / 10 ^ places}{point}e{exponent}"

/-- A float in scientific notation; every zero is written as a single digit. -/
def scientific (places : Nat) (x : Float) : String :=
  if x.isNaN then "NaN"
  else if x.isInf then (if x < 0 then "-Infinity" else "Infinity")
  else
    let b := Binary64.ofFloat x
    if b.significand = 0 then "0"
    else (if b.negative then "-" else "") ++ scientificMagnitude places b

end DanglingBond.Decimal
