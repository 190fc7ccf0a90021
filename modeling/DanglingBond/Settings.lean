import DanglingBond.Parameters

/-!
# Faulty settings

What can be wrong with the settings of a search or of a parameter sweep.
-/

namespace DanglingBond

inductive AxisName where
  | x
  | y
deriving DecidableEq, Repr

def AxisName.text : AxisName → String
  | x => "x_axis"
  | y => "y_axis"

inductive SettingsError (K : Type) where
  | missingAxis (axis : AxisName)
  | noRestarts
  | alphaOutOfRange (alpha : K)
  | radiusOutOfRange (radius : K)
  | clusterSizeOutOfRange (size : Nat)
  | emptyAxis (axis : AxisName) (quantity : Quantity) (low high step : K)
  | repeatedQuantity (quantity : Quantity)
  | seedOutside (x y : Nat)
  | noSeeds
deriving Repr

namespace SettingsError

variable {K : Type}

def setting : SettingsError K → String
  | missingAxis axis | emptyAxis axis .. => axis.text
  | noRestarts => "iterations"
  | alphaOutOfRange _ => "alpha"
  | radiusOutOfRange _ => "cluster_radius_nm"
  | clusterSizeOutOfRange _ => "max_cluster_size"
  | repeatedQuantity _ => "y_axis"
  | seedOutside .. | noSeeds => "seeds"

/-- What is wrong with the value of the setting; nothing where it is missing altogether. -/
def reason? [Scalar K] : SettingsError K → Option String
  | missingAxis _ => none
  | noRestarts => some "at least one restart is required"
  | alphaOutOfRange alpha => some s!"{Scalar.text alpha} is not in (0, 1]"
  | radiusOutOfRange radius =>
    some s!"{Scalar.text radius} is not a finite non-negative distance"
  | clusterSizeOutOfRange size => some s!"{size} is not in 1..=12"
  | emptyAxis _ quantity low high step =>
    let range := s!"{Scalar.text low}..={Scalar.text high} step {Scalar.text step}"
    some s!"{quantity.name} sweep {range} is not a non-empty range with positive step"
  | repeatedQuantity quantity => some s!"both axes sweep {quantity.name}"
  | seedOutside x y => some s!"({x}, {y}) lies outside the sweep grid"
  | noSeeds => some "flood fill needs explicit seeds or random seed samples"

def message [Scalar K] (error : SettingsError K) : String :=
  match error.reason? with
  | none => s!"Missing required parameter: {error.setting}"
  | some reason => s!"Invalid value for parameter '{error.setting}': {reason}"

end SettingsError

end DanglingBond
