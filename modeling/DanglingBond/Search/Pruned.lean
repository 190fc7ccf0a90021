import DanglingBond.Search.Descent
import DanglingBond.Search.Environment
import DanglingBond.Search.Outcome
import DanglingBond.Search.Settings
import DanglingBond.Stability.Extremes

/-!
# Pruned search

Sites that are negative in every stable assignment are fixed from the start, and positive charges
are left out where they cannot occur. The other sites are assigned one after the other, except for
the last: its charge follows from the potential of all others.
-/

namespace DanglingBond.Pruned

variable {K : Type} [Scalar K] {g : Geometry K}

/-- After how many nodes the clock is looked at. -/
def pollInterval : Nat := 1024

/-- The base of the search space: two instead of three where no positive charge can occur. -/
def effectiveBase (settings : PrunedSettings) (checker : Checker K) (g : Geometry K) : Nat :=
  if settings.detectBase ∧ g.params.base = 3 ∧ ¬ checker.canPositiveOccur g then 2
  else g.params.base

/-- For every site, the potential that unit charges at all of the given sites and at the dependent
one induce. -/
def unassigned (g : Geometry K) (dependent : Option (Fin g.size)) :
    List (Fin g.size) → Vector K g.size
  | [] =>
    match dependent with
    | some site => Vector.ofFn fun i => g.potential i site
    | none => Vector.replicate g.size 0
  | site :: later =>
    let rest := unassigned g dependent later
    Vector.ofFn fun i => rest[i] + g.potential i site

/-- What sites that induce `rest` as unit charges can add: at least what they do when negative, at
most what they do when positive, which takes base three. -/
def reachOf (base : Nat) (rest : Vector K g.size) : Reach g :=
  let positiveReach : K := if base = 3 then 1 else 0
  rest.map fun v => .between (-v) (positiveReach * v)

def levels (base : Nat) (dependent : Option (Fin g.size)) : List (Fin g.size) → List (Level g)
  | [] => []
  | site :: later =>
    { options := (Charge.ofBase base).map fun state => [(site, state)]
      rest := reachOf base (unassigned g dependent later) } :: levels base dependent later

def keepValid (s : Surface g) : List (Surface g) := if s.PhysicallyValid then [s] else []

/-- The valid surfaces that come of an assignment of all sites but the dependent one of `start`. -/
def complete (base : Nat) (start : Surface g) (charges : Vector Charge g.size) :
    List (Surface g) :=
  let s := (start.assignCharges charges).refresh
  match start.dependent with
  | none => keepValid s
  | some site => tryStates site s (s.admissibleDependent base)
where
  /-- Gives the dependent site one charge after the other. -/
  tryStates (site : Fin g.size) (s : Surface g) : List Charge → List (Surface g)
    | [] => []
    | state :: states =>
      let s := s.set site state
      keepValid s ++ tryStates site s states

def free (fixed : List (Fin g.size)) : List (Fin g.size) := (List.finRange g.size).filter fun i => i ∉ fixed

/-- The descent below the fixed sites. -/
def explore (isExpired : Checkpoint → Bool) (checker : Checker K) (base : Nat)
    (fixed : List (Fin g.size)) : Progress g :=
  let dependent := (free fixed).getLast?
  let order := (free fixed).dropLast
  let placed : Placement g := fixed.map fun site => (site, .negative)
  let root := PartialAssignment.empty.placeAll placed
  let start := Progress.start.enter placed
  let descent : Descent g :=
    { checker
      isExpired := fun count => isExpired (.step count)
      interval := pollInterval
      complete := complete base { Surface.ofGeometry g with dependent } }
  let reach := reachOf base (unassigned g dependent order)
  if isExpired .start then { start with timedOut := true }
  else if root.Feasible checker start.induced reach then
    descent.run (levels base dependent order) root start
  else start

def search {σ : Type} (environment : Environment σ) (settings : PrunedSettings)
    (g : Geometry K) : Outcome g :=
  let checker : Checker K := .standard
  let base := effectiveBase settings checker g
  let fixed := checker.negativeSites g
  let isExpired := environment.clock.isExpired settings.timeout
  let progress := explore isExpired checker base fixed
  let status := if progress.timedOut then .timedOut else .complete
  let outcome := Outcome.ofFound .pruned progress.found status (environment.clock .finish)
  outcome.withDetail "base_number" (toString base)
    |>.withDetail "fixed_negative_sites" (toString fixed.length)
    |>.withDetail "visited_nodes" (toString progress.visited)

end DanglingBond.Pruned
