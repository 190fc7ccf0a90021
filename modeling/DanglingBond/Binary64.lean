import DanglingBond.Prelude

/-!
# Binary64 numbers in exact form

A finite `Float` is `± significand * 2 ^ exponent`. Everything that has to be exact about a float
(its digits, its floor, its place in the total order) is computed from this form in integers.
-/

namespace DanglingBond

/-- A finite binary64 number, `± significand * 2 ^ exponent`. -/
structure Binary64 where
  negative : Bool
  significand : Nat
  exponent : Int
  /-- The gap to the next smaller magnitude is half the gap to the next larger one. -/
  narrowBelow : Bool
deriving DecidableEq, Repr

namespace Binary64

/-- Splits the bits of a finite number. -/
def ofBits (bits : Nat) : Binary64 :=
  let biased : Nat := bits / 2 ^ 52 % 2 ^ 11
  let fraction : Nat := bits % 2 ^ 52
  let negative : Bool := 2 ^ 63 ≤ bits
  if biased = 0 then ⟨negative, fraction, -1074, false⟩
  else ⟨negative, 2 ^ 52 + fraction, (biased : Int) - 1075, fraction = 0 && 1 < biased⟩

def ofFloat (x : Float) : Binary64 := ofBits x.toBits.toNat

def signed (b : Binary64) : Int := if b.negative then -(b.significand : Int) else b.significand

/-- The greatest integer at most the number. -/
def floor (b : Binary64) : Int :=
  if 0 ≤ b.exponent then b.signed * 2 ^ b.exponent.toNat else b.signed / 2 ^ (-b.exponent).toNat

/-- The magnitude times `10 ^ places` as a quotient of natural numbers. -/
def scaled (b : Binary64) (places : Int) : Nat × Nat :=
  (b.significand * 2 ^ b.exponent.toNat * 10 ^ places.toNat,
    2 ^ (-b.exponent).toNat * 10 ^ (-places).toNat)

end Binary64

end DanglingBond
