import DanglingBond.Geometry
import DanglingBond.Stability

/-!
# What the all-negative assignment tells

Local potentials are lowest when every site is negative. Looking at that one assignment is therefore
enough to see that no site can ever be positive, or that some site is negative in every stable
assignment.
-/

namespace DanglingBond

namespace Checker

variable {K : Type}

/-- Whether some site could hold a positive charge in some assignment. -/
def canPositiveOccur [Scalar K] (checker : Checker K) (g : Geometry K) : Bool :=
  g.allNegativePotentials.toList.any fun v => decide (-checker.tolerance < -v + g.params.muPlus)

/-- The sites that are negative in every population-stable assignment. -/
def negativeSites [Scalar K] (checker : Checker K) (g : Geometry K) : List (Fin g.size) :=
  (List.finRange g.size).filter fun i =>
    -g.allNegativePotentials[i] + g.params.muMinus < -checker.tolerance

end Checker

/-- Whether some site of a layout could hold a positive charge, judged with the standard
tolerance. -/
def Layout.canPositiveOccur? {K : Type} [Elementary K] (layout : Layout) (params : Parameters K) :
    Except (ParameterError K) Bool := do
  return Checker.standard.canPositiveOccur (← Geometry.ofLayout? layout params)

end DanglingBond
