/-!
# The surroundings of a search

A search is a function of its settings and of an `Environment`: how much time has passed at each of
its checkpoints, and where random choices come from. With an environment fixed, nothing about a
search is left open, time limits included.
-/

namespace DanglingBond

/-- A place in a search at which it looks at the clock. -/
inductive Checkpoint where
  | start
  /-- After so many steps from one assignment to the next, or so many nodes of a tree. -/
  | step (count : Nat)
  /-- Before a round of pruning. -/
  | round (number : Nat)
  /-- After so many nodes of one branch of a tree. -/
  | branch (number count : Nat)
  /-- Before growing from a site in a restart. -/
  | restart (number site : Nat)
  | finish
deriving DecidableEq, Repr

/-- The milliseconds that have passed since the search began, at each checkpoint. -/
abbrev Clock := Checkpoint → Nat

def Clock.still : Clock := fun _ => 0

/-- Whether the time limit is reached at a checkpoint; without a limit it never is. -/
def Clock.isExpired (clock : Clock) (limit : Option Nat) (checkpoint : Checkpoint) : Bool :=
  match limit with
  | none => false
  | some limit => decide (limit ≤ clock checkpoint)

/-- The clock of a search and its source of randomness. -/
structure Environment (σ : Type) where
  clock : Clock
  /-- The random source that starts from a seed. -/
  generator : UInt64 → σ
  /-- The seed taken where the settings name none. -/
  freshSeed : UInt64

end DanglingBond
