import DanglingBond.Charge.Codec
import DanglingBond.Geometry
import DanglingBond.Stability

/-!
# Charged surfaces

A `Surface` is a charge assignment over a geometry together with the local potentials and the energy
that belong to it. The two are a cache: raw assignments leave it behind and mark the surface as not
clean, `refresh` computes it anew, and `set` carries it along on a clean surface by adding what one
changed charge contributes.
-/

namespace DanglingBond

/-- Whether a refresh leaves the charge of the dependent site alone or derives it from the
others. -/
inductive DependentMode where
  | fixed
  | derived
deriving DecidableEq, Repr, Inhabited

/-- A charge assignment over a geometry, with its cached potentials and energy. -/
structure Surface {K : Type} (g : Geometry K) where
  charges : Vector Charge g.size
  /-- The local potentials in volts as of the last refresh. -/
  potentials : Vector K g.size
  /-- The electrostatic energy in electronvolts as of the last refresh. -/
  cachedEnergy : K
  /-- The cached values belong to the charges. -/
  clean : Bool
  /-- The site whose charge follows from those of all others. -/
  dependent : Option (Fin g.size)
  mode : DependentMode
  checker : Checker K

namespace Surface

variable {K : Type} [Scalar K] {g : Geometry K}

/-- The local potential that charges induce at a site. -/
def potentialOf (g : Geometry K) (charges : Vector Charge g.size) (i : Fin g.size) : K :=
  Scalar.sum fun j => g.potential i j * (charges[j].value : K)

/-- Half the sum of the local potentials, each times the charge of its site. -/
def energyOf (charges : Vector Charge g.size) (potentials : Vector K g.size) : K :=
  0.5 * Scalar.sum fun i : Fin g.size => potentials[i] * (charges[i].value : K)

/-- The surface with its cache computed anew from the charges. -/
def recompute (s : Surface g) : Surface g :=
  let potentials := Vector.ofFn (potentialOf g s.charges)
  { s with potentials, cachedEnergy := energyOf s.charges potentials, clean := true }

/-- The surface after the charge of one site changed, its cache carried along. -/
def shift (s : Surface g) (site : Fin g.size) (state : Charge) : Surface g :=
  let delta : K := ((state.sign - s.charges[site].sign : Int) : K)
  { s with
    charges := s.charges.put site state
    potentials := Vector.ofFn fun i => s.potentials[i] + g.potential i site * delta
    cachedEnergy := s.cachedEnergy + delta * s.potentials[site] }

/-- Gives the dependent site the charge that the potential of the others leads it to. -/
def deriveDependent (s : Surface g) : Surface g :=
  match s.mode, s.dependent with
  | .derived, some site =>
    let state := Checker.relaxed g.params g.params.base s.potentials[site]
    if state = s.charges[site] then s else s.shift site state
  | _, _ => s

/-- Makes the surface clean. In the derived mode the dependent site then takes the charge that the
others lead it to. -/
def refresh (s : Surface g) : Surface g := s.recompute.deriveDependent

/-- The surface of a geometry with every site negative. -/
def ofGeometry (g : Geometry K) : Surface g :=
  refresh
    { charges := Vector.replicate g.size .negative
      potentials := Vector.replicate g.size 0
      cachedEnergy := 0
      clean := false
      dependent := none
      mode := .fixed
      checker := .standard }

/-- Gives one site a charge and leaves the cache behind. -/
def assign (s : Surface g) (site : Fin g.size) (state : Charge) : Surface g :=
  { s with charges := s.charges.put site state, clean := false }

def assignCharges (s : Surface g) (charges : Vector Charge g.size) : Surface g :=
  { s with charges, clean := false }

def assignAll (s : Surface g) (state : Charge) : Surface g :=
  s.assignCharges (Vector.replicate g.size state)

/-- Gives one site a charge; a clean surface stays clean. -/
def set (s : Surface g) (site : Fin g.size) (state : Charge) : Surface g :=
  if s.charges[site] = state then s
  else if s.clean then s.shift site state
  else { s with charges := s.charges.put site state }

/-- Lowers all sites from `start` on to negative, site by site. -/
def lowerFrom (s : Surface g) (start : Nat) : Surface g :=
  ((List.finRange g.size).filter fun i => start ≤ i.val).foldl (fun s i => s.set i .negative) s

/-- Carries out a step to the next charge index: `raised` is the digit that grows, if there is
one. -/
def stepTo (s : Surface g) : Option (Nat × Charge) → Surface g
  | none => s.lowerFrom 0
  | some (site, state) =>
    let lowered := s.lowerFrom (site + 1)
    if h : site < g.size then lowered.set ⟨site, h⟩ state else lowered

def states (s : Surface g) : List Charge := s.charges.toList

def countOf (s : Surface g) (state : Charge) : Nat := s.states.count state

def chargeAt? (s : Surface g) (coord : Coord) : Option Charge :=
  (g.indexOf? coord).map fun site => s.charges[site]

/-- The local potential at a coordinate as of the last refresh. -/
def potentialAt? (s : Surface g) (coord : Coord) : Option K :=
  (g.indexOf? coord).map fun site => s.potentials[site]

def chargeIndex (s : Surface g) (codec : Codec) : Except CodecError Nat := codec.encode s.states

/-- A surface answers with its cached potentials, clean or not. -/
instance : ChargeLayout (Surface g) K where
  numSites _ := g.size
  coordAt? _ site := g.sites[site]?.map (·.coord)
  chargeAt? s site := s.charges[site]?
  potentialAt? s site := s.potentials[site]?
  pairPotential _ site source :=
    if h : site < g.size ∧ source < g.size then g.potential ⟨site, h.1⟩ ⟨source, h.2⟩ else 0

def PhysicallyValid (s : Surface g) : Prop := s.checker.PhysicallyValid g.params s

instance (s : Surface g) : Decidable s.PhysicallyValid :=
  inferInstanceAs (Decidable (Checker.PhysicallyValid _ _ _))

def PopulationStable (s : Surface g) : Prop := s.checker.PopulationStable g.params s

instance (s : Surface g) : Decidable s.PopulationStable :=
  inferInstanceAs (Decidable (Checker.PopulationStable _ _ _))

/-- The charges of a base with which the dependent site is stable in the cached potential; none
without a dependent site. -/
def admissibleDependent (s : Surface g) (base : Nat) : List Charge :=
  match s.dependent with
  | none => []
  | some site => s.checker.admissible g.params base s.potentials[site]

end Surface

end DanglingBond
