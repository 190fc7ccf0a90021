/-!
# Rounding quotients and writing digits
-/

namespace DanglingBond.Decimal

/-- The integer nearest to `numerator / denominator`, a half going to the even neighbour. -/
def roundHalfEven (numerator denominator : Nat) : Nat :=
  let quotient := numerator / denominator
  match compare (2 * (numerator % denominator)) denominator with
  | .lt => quotient
  | .gt => quotient + 1
  | .eq => if quotient % 2 = 0 then quotient else quotient + 1

/-- The decimal digits of `n`, with zeros in front up to `width` of them. -/
def padded (width n : Nat) : List Char :=
  let plain := Nat.toDigits 10 n
  List.replicate (width - plain.length) '0' ++ plain

end DanglingBond.Decimal
