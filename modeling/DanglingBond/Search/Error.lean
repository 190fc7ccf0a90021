import DanglingBond.Charge.Codec
import DanglingBond.Gate.TruthTable
import DanglingBond.Search.Engine
import DanglingBond.Settings

/-!
# Failed simulations
-/

namespace DanglingBond

/-- Why a simulation, or a procedure that runs simulations, gives no result. -/
inductive SimulationError (K : Type) where
  | codec (cause : CodecError)
  | parameters (cause : ParameterError K)
  | settings (cause : SettingsError K)
  | logic (cause : LogicError)
  | incomplete (engine : Engine)
deriving Repr

def SimulationError.message {K : Type} [Scalar K] : SimulationError K → String
  | codec cause => s!"Charge index error: {cause.message}"
  | parameters cause => s!"Invalid simulation parameters: {cause.message}"
  | settings cause => s!"Invalid configuration: {cause.message}"
  | logic cause => s!"Invalid logic specification: {cause.message}"
  | incomplete engine =>
    s!"{engine.name} stopped at its time limit, so its result is not exhaustive"

end DanglingBond
