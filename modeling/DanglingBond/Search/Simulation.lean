import DanglingBond.Search.Clustered
import DanglingBond.Search.Error
import DanglingBond.Search.Exhaustive
import DanglingBond.Search.Growth
import DanglingBond.Search.Pruned

/-!
# Simulation

Runs the selected engine on a geometry or a layout. Parameters are validated first, and where there
are no sites there is nothing to search.
-/

namespace DanglingBond

/-- The outcome for a layout without sites: nothing found, and nothing left to search. -/
def Outcome.nothing {K : Type} (engine : Engine) (runtime : Nat) (g : Geometry K) : Outcome g :=
  .ofFound engine [] .complete runtime

def simulate {K σ : Type} [Scalar K] [RandomSource σ] (environment : Environment σ)
    (selection : Selection K) (g : Geometry K) : Except (SimulationError K) (Outcome g) := do
  g.params.validate.mapError .parameters
  if g.size = 0 then return .nothing selection.engine (environment.clock .finish) g
  match selection with
  | .exhaustive settings => Exhaustive.search environment settings g
  | .pruned settings => return Pruned.search environment settings g
  | .growth settings => return Growth.search environment settings g
  | .clustered settings => return Clustered.search environment settings g

def simulateLayout {K σ : Type} [Elementary K] [RandomSource σ] (environment : Environment σ)
    (selection : Selection K) (layout : Layout) (params : Parameters K) :
    Except (SimulationError K) (Outcome (Geometry.ofLayout layout params)) :=
  simulate environment selection (Geometry.ofLayout layout params)

end DanglingBond
