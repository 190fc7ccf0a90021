import DanglingBond.Search.Environment
import DanglingBond.Search.Error
import DanglingBond.Search.Outcome
import DanglingBond.Search.Settings

/-!
# Exhaustive search

Walks through all charge indices, from the all-negative assignment to the last one, and keeps every
assignment that is physically valid. The surface is carried from one index to the next.
-/

namespace DanglingBond.Exhaustive

variable {K : Type} [Scalar K] {g : Geometry K}

/-- After how many steps the clock is looked at. -/
def pollInterval : Nat := 1024

structure Walk (g : Geometry K) where
  steps : Nat
  /-- The valid surfaces, the last one first. -/
  found : List (Surface g)
  status : SearchStatus

def keepValid (s : Surface g) (found : List (Surface g)) : List (Surface g) :=
  if s.PhysicallyValid then s.refresh :: found else found

/-- Walks on from a surface, for at most as many steps as there are indices. -/
def walk (isExpired : Nat → Bool) (codec : Codec) :
    Nat → Nat → Surface g → List (Surface g) → Walk g
  | 0, steps, s, found => ⟨steps, keepValid s found, .complete⟩
  | remaining + 1, steps, s, found =>
    let found := keepValid s found
    match codec.carry s.states with
    | .ok (some raised) =>
      let steps := steps + 1
      if steps % pollInterval = 0 ∧ isExpired steps then ⟨steps, found, .timedOut⟩
      else walk isExpired codec remaining steps (s.stepTo (some raised)) found
    | _ => ⟨steps, found, .complete⟩

def search {σ : Type} (environment : Environment σ) (settings : ExhaustiveSettings)
    (g : Geometry K) : Except (SimulationError K) (Outcome g) := do
  let codec ← (Codec.uniform g.size g.params.base).mapError .codec
  let total ← codec.numConfigurations.mapError .codec
  let isExpired steps := environment.clock.isExpired settings.timeout (.step steps)
  let walk := walk isExpired codec (total - 1) 0 (Surface.ofGeometry g) []
  let outcome := Outcome.ofFound .exhaustive walk.found walk.status (environment.clock .finish)
  return outcome.withDetail "visited_configurations" (toString (walk.steps + 1))

end DanglingBond.Exhaustive
