import DanglingBond.Settings

/-!
# Sweep axes
-/

namespace DanglingBond

/-- A quantity that runs from `low` to `high`, both included, in steps. -/
structure Axis (K : Type) where
  quantity : Quantity
  low : K
  high : K
  step : K
deriving Repr

namespace Axis

variable {K : Type} [Scalar K]

/-- The share of a step by which a value may exceed the maximum and still belong to the axis. -/
def tolerance : K := 1e-9

def numValues (axis : Axis K) : Nat :=
  clampToWord (Scalar.floor ((axis.high - axis.low) / axis.step + tolerance)) + 1

theorem numValues_pos (axis : Axis K) : 0 < axis.numValues := Nat.succ_pos _

/-- The number of values, if a machine word holds it. -/
def numValues? (axis : Axis K) : Option Nat := word? axis.numValues

/-- The value with the given index, which need not belong to the axis. -/
def value (axis : Axis K) (index : Nat) : K := axis.low + ((index : Int) : K) * axis.step

def values (axis : Axis K) : List K := (List.range axis.numValues).map axis.value

/-- Fails unless the range is finite and not empty, and the step positive. -/
def validate (axis : Axis K) (name : AxisName) : Except (SettingsError K) Unit :=
  let finite := Scalar.isFinite axis.low && Scalar.isFinite axis.high && Scalar.isFinite axis.step
  if finite = false ∨ axis.step ≤ 0 ∨ axis.high < axis.low then
    .error (.emptyAxis name axis.quantity axis.low axis.high axis.step)
  else .ok ()

end Axis

end DanglingBond
