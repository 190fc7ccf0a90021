import DanglingBond.Random.Source
import DanglingBond.Search.Environment
import DanglingBond.Search.Outcome
import DanglingBond.Search.Settings

/-!
# Random growth

Starting from one negative site among neutral ones, further sites turn negative one by one, each
chosen at random among those far from the negative sites. After every step the sites that have
become unstable are repaired, and the assignment is kept if it is physically valid. What is found is
valid, but something may be missed.
-/

namespace DanglingBond.Growth

variable {K : Type} [Scalar K] {g : Geometry K}

/-- How far a site is from the negative sites. -/
inductive Gap (K : Type) where
  | finite (distance : K)
  /-- There is no negative site at a finite distance. -/
  | infinite
deriving Repr

/-- The distance of a site to the nearest negative one. -/
def gapOf (g : Geometry K) (negatives : List (Fin g.size)) (site : Fin g.size) : Gap K :=
  match (negatives.map (g.distance site)).filter Scalar.isFinite with
  | [] => .infinite
  | first :: others => .finite (others.foldl Scalar.least first)

def Gap.widest : Gap K → Gap K → Gap K
  | .finite a, .finite b => .finite (Scalar.greatest a b)
  | _, _ => .infinite

/-- Whether a gap is at least the share `alpha` of another one. Of an infinite gap every positive
share is infinite, every negative one is below all gaps, and the share zero is none. -/
def Gap.Reaches (alpha : K) : Gap K → Gap K → Prop
  | .finite gap, .finite widest => alpha * widest ≤ gap
  | .infinite, .finite _ => True
  | .finite _, .infinite => alpha < 0
  | .infinite, .infinite => alpha < 0 ∨ 0 < alpha

instance (alpha : K) (gap widest : Gap K) : Decidable (gap.Reaches alpha widest) :=
  match gap, widest with
  | .finite _, .finite _ => inferInstanceAs (Decidable (_ ≤ _))
  | .infinite, .finite _ => inferInstanceAs (Decidable True)
  | .finite _, .infinite => inferInstanceAs (Decidable (_ < _))
  | .infinite, .infinite => inferInstanceAs (Decidable (_ ∨ _))

def sitesWith (s : Surface g) (state : Charge) : List (Fin g.size) :=
  (List.finRange g.size).filter fun i => s.charges[i] = state

/-- The neutral sites whose gap reaches the share `alpha` of the widest gap of all. -/
def candidates (alpha : K) (s : Surface g) : List (Fin g.size) :=
  let negatives := sitesWith s .negative
  let gaps := (sitesWith s .neutral).map fun i => (i, gapOf g negatives i)
  let widest := gaps.foldl (fun widest (_, gap) => widest.widest gap) (.finite 0)
  (gaps.filter fun (_, gap) => gap.Reaches alpha widest).map (·.1)

/-- Turns one neutral site negative, chosen at random among the candidates; nothing happens when
there is no candidate. -/
def extend? {σ : Type} [RandomSource σ] (alpha : K) (s : Surface g) (random : σ) :
    Option (Surface g × σ) :=
  (RandomSource.choose? random (candidates alpha s)).map fun (site, random) =>
    (s.set site .negative, random)

/-- Moves one site to the charge that its local potential favours, if it is unstable. The second
component tells whether the surface has changed. -/
def repairSite (checker : Checker K) (current : Surface g × Bool) (site : Fin g.size) :
    Surface g × Bool :=
  let (s, changed) := current
  let state := s.charges[site]
  let v := s.potentials[site]
  if checker.StateStable g.params state v then (s, changed)
  else
    let relaxed := Checker.relaxed g.params g.params.base v
    if relaxed = state then (s, changed) else (s.set site relaxed, true)

/-- Repairs all sites in their order, again and again while something changes, for at most the given
number of passes. -/
def repair (checker : Checker K) : Nat → Surface g → Surface g
  | 0, s => s
  | passes + 1, s =>
    let (s, changed) := (List.finRange g.size).foldl (repairSite checker) (s, false)
    if changed then repair checker passes s else s

/-- Grows for a number of steps and collects the valid assignments, the last one first. -/
def grow {σ : Type} [RandomSource σ] (alpha : K) :
    Nat → Surface g → σ → List (Surface g) → List (Surface g) × σ
  | 0, _, random, found => (found, random)
  | steps + 1, s, random, found =>
    match extend? alpha s random with
    | none => (found, random)
    | some (s, random) =>
      let s := repair .standard g.size s
      let fresh := s.refresh
      let found := if fresh.PhysicallyValid then fresh :: found else found
      grow alpha steps s random found

/-- Grows from one start site after the other, until the time limit is reached. -/
def restart {σ : Type} [RandomSource σ] (isExpired : Nat → Bool) (alpha : K) (steps : Nat)
    (neutral : Surface g) : List (Fin g.size) → σ → List (Surface g) → List (Surface g) × Bool
  | [], _, found => (found, false)
  | start :: starts, random, found =>
    if isExpired start then (found, true)
    else
      let (found, random) := grow alpha steps (neutral.set start .negative) random found
      restart isExpired alpha steps neutral starts random found

/-- How many sites one restart begins at: three fifths of all, at least one. -/
def startCount (K : Type) [Scalar K] (size : Nat) : Nat :=
  let share := (0.6 : K) * ((size : Int) : K)
  max 1 (min (clampToWord (Scalar.round share)) size)

/-- How many sites are added from one start site: two thirds of all, at least one. -/
def stepCount (K : Type) [Scalar K] (size : Nat) : Nat :=
  max 1 (clampToWord (Scalar.floor (((size : Int) : K) / 1.5)))

def uniformSurface (g : Geometry K) (state : Charge) : Surface g :=
  ((Surface.ofGeometry g).assignAll state).refresh

/-- Leaves only the first of neighbours with the same charges. -/
def withoutRepeats : List (Surface g) → List (Surface g)
  | [] => []
  | first :: others => first :: dropRepeats first others
where
  dropRepeats (last : Surface g) : List (Surface g) → List (Surface g)
    | [] => []
    | s :: others =>
      if s.charges = last.charges then dropRepeats last others else s :: dropRepeats s others

def search {σ : Type} [RandomSource σ] (environment : Environment σ)
    (settings : GrowthSettings K) (g : Geometry K) : Outcome g :=
  let uniform := [uniformSurface g .neutral, uniformSurface g .negative].filter fun s =>
    s.PhysicallyValid
  let seed := settings.seed.getD environment.freshSeed
  let starts := (List.finRange g.size).take (startCount K g.size)
  let restarts := (List.range settings.restarts).map fun number =>
    let isExpired site := environment.clock.isExpired settings.timeout (.restart number site)
    restart isExpired settings.alpha (stepCount K g.size) (uniformSurface g .neutral) starts
      (environment.generator (seed + number.toUInt64)) []
  let found := uniform ++ restarts.flatMap fun (found, _) => found.reverse
  let status := if restarts.any (·.2) then .timedOut else .complete
  let sorted := Outcome.ofFound .growth found status (environment.clock .finish)
  { sorted with configurations := withoutRepeats sorted.configurations }
    |>.withDetail "iterations" (toString settings.restarts)
    |>.withDetail "alpha" (Scalar.text settings.alpha)
    |>.withDetail "seed" (toString seed)

end DanglingBond.Growth
