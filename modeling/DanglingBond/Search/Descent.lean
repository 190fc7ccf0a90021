import DanglingBond.Stability.Range
import DanglingBond.Surface

/-!
# Depth-first search with bounds

The sites are assigned level by level, each level offering several ways to charge its sites. What
the assigned sites induce is known, and what all later levels can add lies in a range, so a branch
is left as soon as some assigned site can no longer be stable.

The induced potentials are carried along from node to node: entering a branch adds what its sites
induce, and leaving it subtracts the same again. Where sums are exact this makes no difference;
where they are rounded, the traces of the branches that have been left stay.
-/

namespace DanglingBond

/-- Some sites with their charges. -/
structure PartialAssignment {K : Type} (g : Geometry K) where
  /-- The charges; sites that are not assigned yet are negative. -/
  charges : Vector Charge g.size
  assigned : List (Fin g.size)

/-- For every site, the range of the potential that is still to come. -/
abbrev Reach {K : Type} (g : Geometry K) := Vector (PotentialRange K) g.size

/-- Some sites with the charges that they take together. -/
abbrev Placement {K : Type} (g : Geometry K) := List (Fin g.size × Charge)

/-- One level of the search: the ways to charge its sites, and the reach of all levels after it. -/
structure Level {K : Type} (g : Geometry K) where
  options : List (Placement g)
  rest : Reach g

namespace PartialAssignment

variable {K : Type} {g : Geometry K}

def empty : PartialAssignment g := ⟨Vector.replicate g.size .negative, []⟩

def place (node : PartialAssignment g) (site : Fin g.size) (state : Charge) :
    PartialAssignment g :=
  ⟨node.charges.put site state, node.assigned ++ [site]⟩

def placeAll (node : PartialAssignment g) (option : Placement g) : PartialAssignment g :=
  option.foldl (fun node (site, state) => node.place site state) node

/-- Every assigned site may still be stable in the induced potentials, whatever comes within the
reach. -/
def Feasible [Scalar K] (node : PartialAssignment g) (checker : Checker K)
    (induced : Vector K g.size) (rest : Reach g) : Prop :=
  ∀ site ∈ node.assigned,
    checker.MayBeStableWith g.params node.charges[site] induced[site] rest[site]

instance [Scalar K] (node : PartialAssignment g) (checker : Checker K)
    (induced : Vector K g.size) (rest : Reach g) :
    Decidable (node.Feasible checker induced rest) :=
  inferInstanceAs (Decidable (∀ site ∈ node.assigned, _))

end PartialAssignment

structure Progress {K : Type} (g : Geometry K) where
  visited : Nat := 0
  timedOut : Bool := false
  /-- The surfaces found so far, the last one first. -/
  found : List (Surface g) := []
  /-- The potentials that the sites of the present node induce. -/
  induced : Vector K g.size

namespace Progress

variable {K : Type} [Scalar K] {g : Geometry K}

def start : Progress g := { induced := Vector.replicate g.size 0 }

/-- Adds what a placement induces, site by site. -/
def enter (progress : Progress g) (option : Placement g) : Progress g :=
  { progress with induced := option.foldl add progress.induced }
where
  add (induced : Vector K g.size) : Fin g.size × Charge → Vector K g.size
    | (_, .neutral) => induced
    | (site, state) =>
      Vector.ofFn fun i => induced[i] + (state.value : K) * g.potential i site

def leave (progress : Progress g) (option : Placement g) : Progress g :=
  { progress with induced := option.foldl subtract progress.induced }
where
  subtract (induced : Vector K g.size) : Fin g.size × Charge → Vector K g.size
    | (_, .neutral) => induced
    | (site, state) =>
      Vector.ofFn fun i => induced[i] - (state.value : K) * g.potential i site

end Progress

structure Descent {K : Type} (g : Geometry K) where
  checker : Checker K
  /-- Whether the time limit is reached after so many nodes. -/
  isExpired : Nat → Bool
  /-- After how many nodes the clock is looked at again. -/
  interval : Nat
  /-- The surfaces that come of an assignment of all sites. -/
  complete : Vector Charge g.size → List (Surface g)

namespace Descent

variable {K : Type} [Scalar K] {g : Geometry K}

/-- Counts a node, and looks at the clock when it is time. -/
def visit (descent : Descent g) (progress : Progress g) : Progress g :=
  let visited := progress.visited + 1
  let expired := visited % descent.interval = 0 && descent.isExpired visited
  { progress with visited, timedOut := progress.timedOut || expired }

/-- Searches everything below a node. Once the time limit is reached nothing more is found. -/
def run (descent : Descent g) : List (Level g) → PartialAssignment g → Progress g → Progress g
  | [], node, progress =>
    let progress := descent.visit progress
    if progress.timedOut then progress
    else { progress with found := (descent.complete node.charges).reverse ++ progress.found }
  | level :: levels, node, progress =>
    let progress := descent.visit progress
    if progress.timedOut then progress
    else
      level.options.foldl (fun progress option =>
        let child := node.placeAll option
        let entered := progress.enter option
        let searched :=
          if child.Feasible descent.checker entered.induced level.rest then
            descent.run levels child entered
          else entered
        searched.leave option) progress

end Descent

end DanglingBond
