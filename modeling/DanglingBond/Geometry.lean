import DanglingBond.Layout
import DanglingBond.Parameters

/-!
# Geometry of a charged layout

What the positions of the sites and the physical parameters fix once and for all: the distance of
every two sites and the potential that an elementary charge at one induces at the other. The
simulation only reads these two tables; where they come from is the business of `Geometry.ofLayout`.
-/

namespace DanglingBond

/-- The sites of a layout with their mutual distances and potentials. -/
structure Geometry (K : Type) where
  size : Nat
  sites : Vector Site size
  params : Parameters K
  /-- Distances in nanometres. -/
  distances : Vector (Vector K size) size
  /-- Potentials in volts: row `i`, column `j` is what a unit charge at `j` induces at `i`. -/
  potentials : Vector (Vector K size) size

/-- The screened Coulomb potential in volts of an elementary charge at a distance in nanometres. A
site has no potential from itself. -/
def screenedPotential {K : Type} [Elementary K] (params : Parameters K) (distance : K) : K :=
  if distance ≤ 0 then 0
  else
    8.987_551_792_3e9 / params.epsilonR / (distance * 1e-9)
      * Elementary.exp (-distance / params.lambdaTF)
      * 1.602_176_634e-19

namespace Geometry

def table {α : Type} {n : Nat} (entry : Fin n → Fin n → α) : Vector (Vector α n) n :=
  Vector.ofFn fun i => Vector.ofFn fun j => entry i j

def ofLayout {K : Type} [Elementary K] (layout : Layout) (params : Parameters K) : Geometry K :=
  let sites := layout.sites.toArray
  let distance (i j : Fin sites.size) : K :=
    Coord.distance params.lattice sites[i].coord sites[j].coord
  { size := sites.size
    sites := sites.toVector
    params
    distances := table distance
    potentials := table fun i j => screenedPotential params (distance i j) }

/-- The geometry of a layout, unless the parameters are out of range. -/
def ofLayout? {K : Type} [Elementary K] (layout : Layout) (params : Parameters K) :
    Except (ParameterError K) (Geometry K) := do
  params.validate
  return ofLayout layout params

variable {K : Type}

def distance (g : Geometry K) (i j : Fin g.size) : K := g.distances[i][j]

def potential (g : Geometry K) (i j : Fin g.size) : K := g.potentials[i][j]

def indexOf? (g : Geometry K) (coord : Coord) : Option (Fin g.size) :=
  g.sites.findFinIdx? (·.coord = coord)

/-- The local potential of each site when all sites are negative, the lowest it can get. -/
def allNegativePotentials [Scalar K] (g : Geometry K) : Vector K g.size :=
  Vector.ofFn fun i => -(Scalar.sum fun j => g.potential i j)

end Geometry

end DanglingBond
