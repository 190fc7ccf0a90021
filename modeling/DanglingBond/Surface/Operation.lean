import DanglingBond.Surface

/-!
# Operations on surfaces

The checked side of surfaces: sites are named by any number or coordinate, charges come as lists of
any length, and what is read from the cache is refused while the surface is not clean. `Operation`
lists all changes that can be asked for, and `perform` carries one out.
-/

namespace DanglingBond

/-- What can be read only from a clean surface. -/
inductive CachedReading where
  | energy
  | physicalValidity
  | populationStability
  | dependentStates
deriving DecidableEq, Repr

def CachedReading.name : CachedReading → String
  | energy => "system_energy"
  | physicalValidity => "is_physically_valid"
  | populationStability => "is_population_stable"
  | dependentStates => "dependent_cell_states"

inductive SurfaceError (K : Type) where
  | staleCache (reading : CachedReading)
  | unknownSite (coord : Coord)
  | indexOutOfRange (index size : Nat)
  | parameters (cause : ParameterError K)
  | codec (cause : CodecError)
deriving Repr

def SurfaceError.message {K : Type} [Scalar K] : SurfaceError K → String
  | staleCache reading =>
    s!"Cached potentials are stale; call update_after_charge_change() before '{reading.name}'"
  | unknownSite coord => s!"No dangling bond at {coord.text}"
  | indexOutOfRange index size =>
    s!"Site index {index} is out of range for a surface with {size} sites"
  | parameters cause => s!"Invalid physical parameters: {cause.message}"
  | codec cause => s!"Charge index error: {cause.message}"

namespace Surface

variable {K : Type}

/-- The surface of a layout with every site negative, unless the parameters are out of range. -/
def ofLayout? [Elementary K] (layout : Layout) (params : Parameters K) :
    Except (SurfaceError K) ((g : Geometry K) × Surface g) :=
  match Geometry.ofLayout? layout params with
  | .ok g => .ok ⟨g, ofGeometry g⟩
  | .error cause => .error (.parameters cause)

variable [Scalar K] {g : Geometry K}

def siteAt? (g : Geometry K) (index : Nat) : Except (SurfaceError K) (Fin g.size) :=
  if h : index < g.size then .ok ⟨index, h⟩ else .error (.indexOutOfRange index g.size)

def siteOf? (g : Geometry K) (coord : Coord) : Except (SurfaceError K) (Fin g.size) :=
  match g.indexOf? coord with
  | some site => .ok site
  | none => .error (.unknownSite coord)

def chargesOf? (g : Geometry K) (states : List Charge) :
    Except (SurfaceError K) (Vector Charge g.size) :=
  if h : states.toArray.size = g.size then .ok ⟨states.toArray, h⟩
  else .error (.codec (.lengthMismatch g.size states.length))

/-- The result of a reading, refused while the surface is not clean. -/
def ifClean {α : Type} (s : Surface g) (reading : CachedReading) (value : α) :
    Except (SurfaceError K) α :=
  if s.clean then .ok value else .error (.staleCache reading)

def energy? (s : Surface g) : Except (SurfaceError K) K := s.ifClean .energy s.cachedEnergy

def physicallyValid? (s : Surface g) : Except (SurfaceError K) Bool :=
  s.ifClean .physicalValidity (decide s.PhysicallyValid)

def populationStable? (s : Surface g) : Except (SurfaceError K) Bool :=
  s.ifClean .populationStability (decide s.PopulationStable)

/-- The charges of a base with which the dependent site is stable. -/
def dependentStates? (s : Surface g) (base : Nat) : Except (SurfaceError K) (List Charge) :=
  s.ifClean .dependentStates (s.admissibleDependent base)

/-- Steps to the next charge index; `false` says that the step went past the last one and around. -/
def increment? (s : Surface g) (codec : Codec) : Except (SurfaceError K) (Bool × Surface g) :=
  match codec.carry s.states with
  | .ok raised => .ok (raised.isSome, s.stepTo raised)
  | .error cause => .error (.codec cause)

/-- Decodes a charge index over the charges and refreshes. An index beyond the last one is refused
only after its digits have been written, and then the cache is left as it was. -/
def assignIndex (s : Surface g) (index : Nat) (codec : Codec) :
    Except (SurfaceError K) Unit × Surface g :=
  let (result, states) := codec.decodeInto index s.states
  let written : Surface g :=
    { s with charges := Vector.ofFn fun i => states.getD i.val .negative }
  match result with
  | .ok () => (.ok (), refresh { written with clean := false })
  | .error cause => (.error (.codec cause), written)

end Surface

inductive Operation (K : Type) where
  | assign (site : Nat) (state : Charge)
  | assignAt (coord : Coord) (state : Charge)
  | assignStates (states : List Charge)
  | assignAll (state : Charge)
  | set (site : Nat) (state : Charge)
  | refresh
  | assignIndex (index : Nat) (codec : Codec)
  | increment (codec : Codec)
  | setDependent (site : Nat)
  | setMode (mode : DependentMode)
  | setChecker (checker : Checker K)

namespace Surface

variable {K : Type} [Scalar K] {g : Geometry K}

/-- The surface after a change that either succeeds or leaves everything as it is. -/
def settle (s : Surface g) :
    Except (SurfaceError K) (Surface g) → Except (SurfaceError K) Unit × Surface g
  | .ok after => (.ok (), after)
  | .error cause => (.error cause, s)

/-- Carries out an operation: its result, and the surface after it. -/
def perform (s : Surface g) : Operation K → Except (SurfaceError K) Unit × Surface g
  | .assign site state => s.settle ((siteAt? g site).map fun i => s.assign i state)
  | .assignAt coord state => s.settle ((siteOf? g coord).map fun i => s.assign i state)
  | .assignStates states => s.settle ((chargesOf? g states).map s.assignCharges)
  | .assignAll state => s.settle (.ok (s.assignAll state))
  | .set site state => s.settle ((siteAt? g site).map fun i => s.set i state)
  | .refresh => s.settle (.ok s.refresh)
  | .assignIndex index codec => s.assignIndex index codec
  | .increment codec => s.settle ((s.increment? codec).map (·.2))
  | .setDependent site =>
    s.settle ((siteAt? g site).map fun i => { s with dependent := some i })
  | .setMode mode => s.settle (.ok { s with mode })
  | .setChecker checker => s.settle (.ok { s with checker })

end Surface

end DanglingBond
