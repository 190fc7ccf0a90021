import DanglingBond.Scalar

/-!
# The lattice and its coordinates

Dangling bonds sit on the dimer rows of a hydrogen-passivated silicon surface. A `Coord` names the
dimer column, the dimer row and which atom of the dimer is meant; an `OffsetCoord` numbers the atom
rows themselves. A `Lattice` gives coordinates a place in the plane.
-/

namespace DanglingBond

/-- The pitches of the surface lattice in nanometres. -/
structure Lattice (K : Type) where
  /-- The distance between neighbouring dimer columns. -/
  a : K
  /-- The distance between neighbouring dimer rows. -/
  b : K
  /-- The offset of the lower atom of a dimer within its row. -/
  c : K
deriving Repr

/-- The lattice of the silicon (100) surface with its two-by-one reconstruction. -/
def Lattice.silicon {K : Type} [Scalar K] : Lattice K := ⟨0.384, 0.768, 0.225⟩

/-- Whether an integer fits a signed 32-bit word, the range of lattice coordinates. -/
def FitsCoordinate (z : Int) : Prop := -(2 ^ 31) ≤ z ∧ z < 2 ^ 31

instance (z : Int) : Decidable (FitsCoordinate z) := inferInstanceAs (Decidable (_ ∧ _))

/-- A site by dimer column `x`, dimer row `y` and atom `z` of the dimer. -/
structure Coord where
  x : Int
  y : Int
  z : Nat
deriving DecidableEq, Repr, Inhabited

/-- A site by column `x` and atom row `y`. -/
structure OffsetCoord where
  x : Int
  y : Int
deriving DecidableEq, Repr, Inhabited

namespace Coord

/-- Sites are ordered row by row: by dimer row, then atom, then column. -/
instance : Ord Coord where
  compare := compareLex (compareOn Coord.y) (compareLex (compareOn Coord.z) (compareOn Coord.x))

instance : LT Coord := ltOfOrd

instance : LE Coord := leOfOrd

/-- The place in the plane, in nanometres. -/
def position {K : Type} [Scalar K] (site : Coord) (lattice : Lattice K) : K × K :=
  ((site.x : K) * lattice.a, (site.y : K) * lattice.b + ((site.z : Int) : K) * lattice.c)

def squaredDistance {K : Type} [Scalar K] (p q : K × K) : K :=
  let dx := q.1 - p.1
  let dy := q.2 - p.2
  dx * dx + dy * dy

/-- The distance of two sites in nanometres. -/
def distance {K : Type} [Elementary K] (lattice : Lattice K) (p q : Coord) : K :=
  Elementary.sqrt (squaredDistance (p.position lattice) (q.position lattice))

/-- The site by atom row, unless a step of the conversion leaves the coordinate range. -/
def toOffset? (site : Coord) : Option OffsetCoord :=
  if FitsCoordinate (site.y * 2) ∧ FitsCoordinate (site.y * 2 + site.z) then
    some ⟨site.x, site.y * 2 + site.z⟩
  else none

def text (site : Coord) : String := s!"({site.x}, {site.y}, {site.z})"

end Coord

/-- The site by dimer row and atom: atom rows come in pairs, the even one being the upper. -/
def OffsetCoord.toCoord (site : OffsetCoord) : Coord := ⟨site.x, site.y / 2, (site.y % 2).toNat⟩

end DanglingBond
