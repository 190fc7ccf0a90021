import DanglingBond.Search.Engine
import DanglingBond.Settings

/-!
# Settings of a search

Time limits are in milliseconds. The settings of an engine may be put together freely; `checked`
refuses those that make no sense for it.
-/

namespace DanglingBond

structure ExhaustiveSettings where
  timeout : Option Nat := none
deriving Repr

structure PrunedSettings where
  /-- Leave positive charges out of the search where none can occur. -/
  detectBase : Bool := true
  timeout : Option Nat := none
deriving Repr

structure GrowthSettings (K : Type) where
  /-- How many independent restarts are made. -/
  restarts : Nat
  /-- The share of the widest gap that a new negative site has to keep to the others. -/
  alpha : K
  /-- The seed of the first restart; each further one adds one to it. -/
  seed : Option UInt64 := none
  timeout : Option Nat := none
deriving Repr

structure ClusteredSettings (K : Type) where
  /-- Sites closer than this, in nanometres, are put into one cluster while it has room. -/
  radius : K
  /-- The most sites that a cluster may hold. -/
  maxSize : Nat
  timeout : Option Nat := none
deriving Repr

namespace GrowthSettings

variable {K : Type} [Scalar K]

def standard : GrowthSettings K := { restarts := 80, alpha := 0.7 }

/-- The settings, unless they ask for no restart or their share is no part of a whole. -/
def checked (settings : GrowthSettings K) : Except (SettingsError K) (GrowthSettings K) := do
  if settings.restarts = 0 then throw .noRestarts
  if ¬ (0 < settings.alpha ∧ settings.alpha ≤ 1) then throw (.alphaOutOfRange settings.alpha)
  return settings

end GrowthSettings

namespace ClusteredSettings

variable {K : Type} [Scalar K]

def standard : ClusteredSettings K := { radius := 2.0, maxSize := 8 }

/-- The settings, unless the radius is no distance or the clusters are too small or too large. -/
def checked (settings : ClusteredSettings K) :
    Except (SettingsError K) (ClusteredSettings K) := do
  if ¬ (Scalar.isFinite settings.radius ∧ 0 ≤ settings.radius) then
    throw (.radiusOutOfRange settings.radius)
  if ¬ (1 ≤ settings.maxSize ∧ settings.maxSize ≤ 12) then
    throw (.clusterSizeOutOfRange settings.maxSize)
  return settings

end ClusteredSettings

inductive Selection (K : Type) where
  | exhaustive (settings : ExhaustiveSettings)
  | pruned (settings : PrunedSettings)
  | growth (settings : GrowthSettings K)
  | clustered (settings : ClusteredSettings K)
deriving Repr

namespace Selection

variable {K : Type}

def engine : Selection K → Engine
  | exhaustive _ => .exhaustive
  | pruned _ => .pruned
  | growth _ => .growth
  | clustered _ => .clustered

def timeout : Selection K → Option Nat
  | exhaustive settings => settings.timeout
  | pruned settings => settings.timeout
  | growth settings => settings.timeout
  | clustered settings => settings.timeout

def ofEngine [Scalar K] : Engine → Selection K
  | .exhaustive => exhaustive {}
  | .pruned => pruned {}
  | .growth => growth .standard
  | .clustered => clustered .standard

end Selection

end DanglingBond
