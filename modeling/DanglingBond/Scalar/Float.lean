import DanglingBond.Decimal.Shortest
import DanglingBond.Scalar

/-!
# Floats as scalars

The instance the program runs with. An infinite value has no floor; it is given an integer beyond
every finite float, so that clamping the floor to a machine word saturates.
-/

namespace DanglingBond

/-- The place of a float in the total order of its bits; what is no number comes first. -/
def sortKey (x : Float) : Int :=
  if x.isNaN then -(2 ^ 64)
  else
    let bits := x.toBits.toNat
    if bits < 2 ^ 63 then bits else 2 ^ 63 - 1 - (bits : Int)

/-- The greatest integer at most `x`; zero where `x` is no number. -/
def floorFloat (x : Float) : Int :=
  if x.isNaN then 0
  else if x.isInf then (if x < 0 then -(2 ^ 1024) else 2 ^ 1024)
  else (Binary64.ofFloat x).floor

instance : Elementary Float where
  zero := 0
  one := 1
  intCast := Float.ofInt
  decidableLT := inferInstance
  decidableLE := inferInstance
  sortsBefore a b := sortKey a ≤ sortKey b
  isFinite := Float.isFinite
  floor := floorFloat
  text := Decimal.shortest
  sqrt := Float.sqrt
  exp := Float.exp

end DanglingBond
