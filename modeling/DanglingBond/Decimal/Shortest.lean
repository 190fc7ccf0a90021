import DanglingBond.Binary64
import DanglingBond.Decimal.Rounding

/-!
# The fewest digits that read back

A float is written with the fewest significant digits among the decimals that are nearest to it and
to no other float; of two such decimals with equally many digits the nearer one is taken, the larger
one where both are equally near. The digits are laid out positionally, whatever the magnitude.
-/

namespace DanglingBond

/-- The decimal `digits * 10 ^ exponent`. -/
structure Decimal where
  digits : Nat
  exponent : Int
deriving DecidableEq, Repr

namespace Decimal

/-- Compares `a * 10 ^ i` with `n * 2 ^ j`. -/
def compareScaled (a : Nat) (i : Int) (n : Nat) (j : Int) : Ordering :=
  compare (a * 10 ^ i.toNat * 2 ^ (-j).toNat) (n * 2 ^ j.toNat * 10 ^ (-i).toNat)

/-- Whether `d` lies among the reals that round to `b`; the ends of the interval belong to it when
the significand is even. -/
def readsBack (b : Binary64) (d : Decimal) : Bool :=
  let low := if b.narrowBelow then 4 * b.significand - 1 else 4 * b.significand - 2
  let high := 4 * b.significand + 2
  let even := b.significand % 2 = 0
  let fromLow := compareScaled d.digits d.exponent low (b.exponent - 2)
  let fromHigh := compareScaled d.digits d.exponent high (b.exponent - 2)
  (fromLow = .gt || (even && fromLow = .eq)) && (fromHigh = .lt || (even && fromHigh = .eq))

/-- An exponent `k` with `significand * 2 ^ exponent < 10 ^ k`, the least one or one more. -/
def leadingExponent (b : Binary64) : Int :=
  let bits := (b.significand.log2 : Int) + 1 + b.exponent
  -- 30103 / 100000 lies just above the decimal logarithm of two
  let estimate := bits * 30103 / 100000 + 1
  if compareScaled 1 (estimate - 1) b.significand b.exponent = .gt then estimate - 1 else estimate

/-- The neighbours of `b` on the grid of multiples of `10 ^ exponent` that read back, the nearer
one first. -/
def candidates (b : Binary64) (exponent : Int) : List Decimal :=
  let (numerator, denominator) := b.scaled (-exponent)
  let below := numerator / denominator
  let up := denominator ≤ 2 * (numerator % denominator)
  let ordered := if up then [below + 1, below] else [below, below + 1]
  (ordered.map (Decimal.mk · exponent)).filter (readsBack b)

/-- The decimal with the fewest digits that reads back as `b`. -/
def select (b : Binary64) : Decimal :=
  let top := leadingExponent b
  let coarsestFirst := (List.range 18).map fun (n : Nat) => top - n
  match coarsestFirst.findSome? fun exponent => (candidates b exponent).head? with
  | some d => d
  | none => ⟨b.significand * 2 ^ b.exponent.toNat * 5 ^ (-b.exponent).toNat, min b.exponent 0⟩

/-- Lays a decimal out without an exponent. -/
def positional (d : Decimal) : String :=
  if 0 ≤ d.exponent then
    String.ofList (Nat.toDigits 10 d.digits ++ List.replicate d.exponent.toNat '0')
  else
    let places := (-d.exponent).toNat
    let written := padded (places + 1) d.digits
    let (whole, fraction) := written.splitAt (written.length - places)
    let kept := (fraction.reverse.dropWhile (· = '0')).reverse
    String.ofList (if kept.isEmpty then whole else whole ++ '.' :: kept)

/-- A float with the fewest digits that identify it. -/
def shortest (x : Float) : String :=
  if x.isNaN then "NaN"
  else if x.isInf then (if x < 0 then "-inf" else "inf")
  else
    let b := Binary64.ofFloat x
    let magnitude := if b.significand = 0 then "0" else positional (select b)
    (if b.negative then "-" else "") ++ magnitude

end Decimal

end DanglingBond
