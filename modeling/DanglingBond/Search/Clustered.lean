import DanglingBond.Search.Descent
import DanglingBond.Search.Environment
import DanglingBond.Search.Outcome
import DanglingBond.Search.Partition
import DanglingBond.Search.Settings

/-!
# Clustered search

Neighbouring sites form clusters, and every cluster lists the charges that its sites may take
together. Entries that are unstable whatever the other clusters do are struck out, again and again
until nothing changes. What is left is composed cluster by cluster into assignments of all sites.
-/

namespace DanglingBond

/-- Some sites with the charges that they may take together. -/
structure Cluster {K : Type} (g : Geometry K) where
  sites : List (Fin g.size)
  /-- The possible charges of the sites, in charge-index order. -/
  candidates : List (List Charge)

namespace Cluster

variable {K : Type} {g : Geometry K}

/-- All ways to charge a number of sites, the last site varying fastest. -/
def assignments (states : List Charge) : Nat → List (List Charge)
  | 0 => [[]]
  | n + 1 => states.flatMap fun state => (assignments states n).map (state :: ·)

def full (base : Nat) (sites : List (Fin g.size)) : Cluster g :=
  ⟨sites, assignments (Charge.ofBase base) sites.length⟩

variable [Scalar K]

/-- The potential at a site that the given sites induce with the given charges. -/
def contribution (sites : List (Fin g.size)) (candidate : List Charge) (site : Fin g.size) : K :=
  Scalar.sumList ((sites.zip candidate).map fun (source, state) =>
    g.potential site source * (state.value : K))

/-- The range of the potentials that the candidates induce at every site. -/
def reach (cluster : Cluster g) : Reach g :=
  Vector.ofFn fun site => .hull (cluster.candidates.map fun candidate =>
    contribution cluster.sites candidate site)

end Cluster

def Reach.none {K : Type} [Scalar K] {g : Geometry K} : Reach g := Vector.replicate g.size .zero

def Reach.add {K : Type} [Scalar K] {g : Geometry K} (a b : Reach g) : Reach g :=
  Vector.zipWith PotentialRange.add a b

namespace Clustered

variable {K : Type} [Scalar K] {g : Geometry K}

/-- Every site of the cluster may be stable under the candidate, whatever comes from outside. -/
def Survives (checker : Checker K) (outside : Reach g) (sites : List (Fin g.size))
    (candidate : List Charge) : Prop :=
  ∀ entry ∈ sites.zip candidate,
    checker.MayBeStableWith g.params entry.2 (Cluster.contribution sites candidate entry.1)
      outside[entry.1]

instance (checker : Checker K) (outside : Reach g) (sites : List (Fin g.size))
    (candidate : List Charge) : Decidable (Survives checker outside sites candidate) :=
  inferInstanceAs (Decidable (∀ entry ∈ sites.zip candidate, _))

/-- Strikes out of every cluster the candidates that the bounds of the others exclude. -/
def pruneOnce (checker : Checker K) (clusters : List (Cluster g)) : List (Cluster g) :=
  let reaches := clusters.map Cluster.reach
  clusters.mapIdx fun index cluster =>
    let outside := (reaches.eraseIdx index).foldl Reach.add .none
    { cluster with
      candidates := cluster.candidates.filter fun candidate =>
        Survives checker outside cluster.sites candidate }

def candidateCount (clusters : List (Cluster g)) : Nat :=
  (clusters.map fun cluster => cluster.candidates.length).foldl (· + ·) 0

def AllOpen (clusters : List (Cluster g)) : Prop := ∀ cluster ∈ clusters, cluster.candidates ≠ []

instance (clusters : List (Cluster g)) : Decidable (AllOpen clusters) :=
  inferInstanceAs (Decidable (∀ cluster ∈ clusters, _))

/-- Prunes round by round until nothing changes or some cluster has run out of candidates. Nothing
is returned when the time limit is reached before. -/
def prune? (isExpired : Nat → Bool) (checker : Checker K) (round : Nat)
    (clusters : List (Cluster g)) : Option (List (Cluster g)) :=
  if isExpired round then none
  else
    let pruned := pruneOnce checker clusters
    if h : AllOpen pruned ∧ candidateCount pruned < candidateCount clusters then
      prune? isExpired checker (round + 1) pruned
    else some pruned
termination_by candidateCount clusters
decreasing_by exact h.2

def reachOfAll : List (Cluster g) → Reach g
  | [] => .none
  | cluster :: later => .add (reachOfAll later) cluster.reach

def levels : List (Cluster g) → List (Level g)
  | [] => []
  | cluster :: later =>
    { options := cluster.candidates.map cluster.sites.zip
      rest := reachOfAll later } :: levels later

/-- After how many nodes of a branch the clock is looked at. -/
def pollInterval : Nat := 256

def complete (start : Surface g) (charges : Vector Charge g.size) : List (Surface g) :=
  let s := (start.assignCharges charges).refresh
  if s.PhysicallyValid then [s] else []

/-- Composes the candidates. Every candidate of the first cluster opens a branch with a node count
of its own. -/
def compose (isExpired : Nat → Nat → Bool) (checker : Checker K) (clusters : List (Cluster g)) :
    List (Progress g) :=
  match levels clusters with
  | [] => []
  | level :: levels =>
    let start := Surface.ofGeometry g
    level.options.mapIdx fun number option =>
      let descent : Descent g :=
        { checker
          isExpired := isExpired number
          interval := pollInterval
          complete := complete start }
      let child := PartialAssignment.empty.placeAll option
      let entered := Progress.start.enter option
      if child.Feasible checker entered.induced level.rest then descent.run levels child entered
      else entered

def search {σ : Type} (environment : Environment σ) (settings : ClusteredSettings K)
    (g : Geometry K) : Outcome g :=
  let checker : Checker K := .standard
  let isExpired := environment.clock.isExpired settings.timeout
  -- The groups are never missing: every lookup in the sets ends.
  let groups := (partition? settings.maxSize (Link.within g settings.radius)).getD []
  let clusters := groups.map (Cluster.full g.params.base)
  let (found, status) : List (Surface g) × SearchStatus :=
    match prune? (fun round => isExpired (.round round)) checker 0 clusters with
    | none => ([], .timedOut)
    | some clusters =>
      if AllOpen clusters then
        let branches := compose (fun number count => isExpired (.branch number count)) checker
          clusters
        (branches.flatMap fun branch => branch.found.reverse,
          if branches.any (·.timedOut) then .timedOut else .complete)
      else ([], .complete)
  let largest := (groups.map List.length).max?.getD 0
  Outcome.ofFound .clustered found status (environment.clock .finish)
    |>.withDetail "num_clusters" (toString groups.length)
    |>.withDetail "largest_cluster" (toString largest)

end Clustered

end DanglingBond
