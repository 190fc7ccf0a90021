import DanglingBond.Search.Engine
import DanglingBond.Surface
import Std.Data.TreeMap

/-!
# Outcomes of a search

The physically valid assignments that a search has found, in charge-index order, with what can be
read off them: the minimum energy, the ground states and the energy levels.
-/

namespace DanglingBond

inductive SearchStatus where
  | complete
  /-- The time limit was reached; what was found up to then is kept. -/
  | timedOut
deriving DecidableEq, Repr

structure Outcome {K : Type} (g : Geometry K) where
  engine : Engine
  configurations : List (Surface g)
  status : SearchStatus
  /-- How long the search took, in milliseconds. -/
  runtime : Nat
  /-- What the engine has to tell about its search, by name. -/
  details : Std.TreeMap String String := {}

namespace Outcome

variable {K : Type} {g : Geometry K}

/-- The outcome with the given configurations, put into charge-index order. -/
def ofFound (engine : Engine) (found : List (Surface g)) (status : SearchStatus) (runtime : Nat) :
    Outcome g :=
  { engine
    configurations := found.mergeSort fun a b => Charge.listLE a.charges.toList b.charges.toList
    status
    runtime }

def withDetail (outcome : Outcome g) (name value : String) : Outcome g :=
  { outcome with details := outcome.details.insert name value }

def isComplete (outcome : Outcome g) : Bool := outcome.status = .complete

def size (outcome : Outcome g) : Nat := outcome.configurations.length

variable [Scalar K]

/-- The first configuration of least energy. -/
def groundState? (outcome : Outcome g) : Option (Surface g) :=
  match outcome.configurations with
  | [] => none
  | first :: others =>
    some (others.foldl (fun best s =>
      if Scalar.sortsBefore best.cachedEnergy s.cachedEnergy then best else s) first)

def minimumEnergy? (outcome : Outcome g) : Option K :=
  outcome.groundState?.map (·.cachedEnergy)

/-- The configurations whose energy exceeds the minimum by less than the stability tolerance. -/
def groundStates (outcome : Outcome g) : List (Surface g) :=
  match outcome.minimumEnergy? with
  | none => []
  | some minimum =>
    outcome.configurations.filter fun s => s.cachedEnergy - minimum < Checker.standardTolerance

/-- The distance of neighbouring energy levels in electronvolts. -/
def energyResolution : K := 1e-6

/-- The level of an energy: the multiple of the resolution that is nearest to it. -/
def levelOf (energy : K) : Int := clampToSignedWord (Scalar.round (energy / energyResolution))

/-- Adds one to the count of a level in a list of levels in ascending order. -/
def countLevel (level : Int) : List (Int × Nat) → List (Int × Nat)
  | [] => [(level, 1)]
  | (other, count) :: levels =>
    if level < other then (level, 1) :: (other, count) :: levels
    else if level = other then (other, count + 1) :: levels
    else (other, count) :: countLevel level levels

/-- The energy levels in ascending order, each with its number of configurations. -/
def energyDistribution (outcome : Outcome g) : List (K × Nat) :=
  let levels := outcome.configurations.foldl (fun levels s =>
    countLevel (levelOf s.cachedEnergy) levels) []
  levels.map fun (level, count) => ((level : K) * energyResolution, count)

end Outcome

end DanglingBond
