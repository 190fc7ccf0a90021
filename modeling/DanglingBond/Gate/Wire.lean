import DanglingBond.Gate.Pair

/-!
# Wires

Pairs that face each other pass their bit on, so a chain of them is a wire. A wire is read from its
input end to its output end; which of the two dots means one depends on this direction.
-/

namespace DanglingBond

inductive Direction where
  | north
  | east
  | south
  | west
  | undetermined
deriving DecidableEq, Repr, Inhabited

namespace Direction

def name : Direction → String
  | north => "north"
  | east => "east"
  | south => "south"
  | west => "west"
  | undetermined => "none"

/-- Whether the electron in the lower dot means one. Read towards the north or the west, it is the
upper dot that does. -/
def lowerMeansOne : Direction → Bool
  | south | east | undetermined => true
  | north | west => false

variable {K : Type} [Elementary K]

/-- The first of the pairs whose lower dot is farthest from a place; a pair at the place itself does
not count. -/
def farthest? (lattice : Lattice K) (place : Coord) (pairs : List BdlPair) : Option BdlPair :=
  let (best, _) := pairs.foldl (fun (best, reach) pair =>
    let distance := Coord.distance lattice pair.lower place
    if reach < distance then (some pair, distance) else (best, reach)) (none, (0 : K))
  best

def between (input output : BdlPair) : Direction :=
  if compare input output = .lt then
    if input.lower.y = output.lower.y ∨ input.upper.y = output.upper.y then east else south
  else if input.SamePlace output then undetermined
  else if input.SameRows output then west
  else north

def fromInput (input farthest : BdlPair) : Direction :=
  if input.lower.x < farthest.lower.x ∧ input.SameRows farthest then east
  else if farthest.lower.y < input.lower.y then north
  else if farthest.lower.x < input.lower.x ∧ input.SameRows farthest then west
  else south

def toOutput (output farthest : BdlPair) : Direction :=
  if output.lower.x < farthest.lower.x ∧ output.SameRows farthest then west
  else if farthest.lower.y < output.lower.y then south
  else if farthest.lower.x < output.lower.x ∧ output.SameRows farthest then east
  else north

/-- The direction of the wire with the given pairs. A single pair has none, nor have normal
pairs. -/
def ofPairs (lattice : Lattice K) (pairs : List BdlPair) : Direction :=
  if pairs.length < 2 then undetermined
  else
    match pairs.find? (·.kind = .input), pairs.find? (·.kind = .output) with
    | some input, some output => between input output
    | some input, none =>
      ((farthest? lattice input.lower pairs).map (fromInput input)).getD undetermined
    | none, some output =>
      ((farthest? lattice output.upper pairs).map (toOutput output)).getD undetermined
    | none, none => undetermined

end Direction

/-- A chain of pairs that carries one bit, with the direction in which it is read. -/
structure BdlWire where
  pairs : List BdlPair
  direction : Direction
deriving DecidableEq, Repr

inductive WireSelection where
  | all
  /-- The wires with an input pair, without their output pairs. -/
  | input
  /-- The wires with an output pair, without their input pairs. -/
  | output
deriving DecidableEq, Repr

namespace BdlWire

variable {K : Type} [Elementary K]

/-- The wire of the given pairs, which may come in any order. -/
def ofPairs (lattice : Lattice K) (pairs : List BdlPair) : BdlWire :=
  let sorted := pairs.mergeSort BdlPair.le
  ⟨sorted, Direction.ofPairs lattice sorted⟩

def contains (wire : BdlWire) (pair : BdlPair) : Bool := wire.pairs.any fun p => p.SamePlace pair

def firstOfKind? (wire : BdlWire) (kind : SiteKind) : Option BdlPair :=
  wire.pairs.find? (·.kind = kind)

/-- The direction in which a chain looks for its next pair. -/
inductive Side where
  | below
  | above
deriving DecidableEq, Repr

/-- A chain may go on from one pair to another: the lower dot of the one faces the upper dot of the
other, or the other way round if the other pair lies on the given side. -/
def Follows (spacing : Spacing K) (side : Side) (current next : BdlPair) : Prop :=
  Coord.distance spacing.lattice current.lower next.upper < spacing.wireThreshold ∨
    Coord.distance spacing.lattice current.upper next.lower < spacing.wireThreshold ∧
      ¬ current.SamePlace next ∧
      compare current next = (match side with | .below => .lt | .above => .gt)

instance (spacing : Spacing K) (side : Side) (current next : BdlPair) :
    Decidable (Follows spacing side current next) :=
  inferInstanceAs (Decidable (_ ∨ _ ∧ _ ∧ _))

/-- The first of the remaining pairs that a chain may go on to; pairs above are looked for only if
there is none below. -/
def next? (spacing : Spacing K) (current : BdlPair) (remaining : List BdlPair) : Option BdlPair :=
  (remaining.find? fun next => Follows spacing .below current next).or
    (remaining.find? fun next => Follows spacing .above current next)

theorem next?_mem {spacing : Spacing K} {current next : BdlPair} {remaining : List BdlPair}
    (found : next? spacing current remaining = some next) : next ∈ remaining := by
  rcases Option.or_eq_some_iff.1 found with below | ⟨_, above⟩
  · exact List.mem_of_find?_eq_some below
  · exact List.mem_of_find?_eq_some above

/-- The chain that goes on from a pair, and the pairs that are left over. -/
def chainFrom (spacing : Spacing K) (current : BdlPair) (remaining : List BdlPair) :
    List BdlPair × List BdlPair :=
  match _found : next? spacing current remaining with
  | none => ([], remaining)
  | some next =>
    let (chain, rest) := chainFrom spacing next (remaining.erase next)
    (next :: chain, rest)
termination_by remaining.length
decreasing_by
  have member := next?_mem _found
  have positive := List.length_pos_of_mem member
  rw [List.length_erase_of_mem member]
  omega

theorem length_chainFrom_le (spacing : Spacing K) (current : BdlPair) (remaining : List BdlPair) :
    (chainFrom spacing current remaining).2.length ≤ remaining.length := by
  fun_induction chainFrom spacing current remaining with
  | case1 => simp
  | case2 current remaining next found chain rest split ih =>
    rw [split] at ih
    exact Nat.le_trans ih List.length_erase_le

/-- Breaks pairs up into chains, each beginning with the first pair that is left. -/
def chains (spacing : Spacing K) : List BdlPair → List (List BdlPair)
  | [] => []
  | start :: others =>
    let split := chainFrom spacing start others
    (start :: split.1) :: chains spacing split.2
termination_by pairs => pairs.length
decreasing_by
  have := length_chainFrom_le spacing start others
  simp only [List.length_cons]
  omega

/-- The input, output and normal pairs of a layout, in order. -/
def pairsOf (spacing : Spacing K) (layout : Layout) : List BdlPair :=
  ([SiteKind.input, .output, .normal].flatMap (BdlPair.ofLayout spacing layout)).mergeSort
    BdlPair.le

def ofLayout (spacing : Spacing K) (layout : Layout) (selection : WireSelection) : List BdlWire :=
  let wires := (chains spacing (pairsOf spacing layout)).map (ofPairs spacing.lattice)
  match selection with
  | .all => wires
  | .input => wires.filterMap (without .input .output)
  | .output => wires.filterMap (without .output .input)
where
  /-- The wire without its pairs of one kind, provided that it has a pair of the other. -/
  without (kept dropped : SiteKind) (wire : BdlWire) : Option BdlWire :=
    if (wire.firstOfKind? kept).isSome then
      some { wire with pairs := wire.pairs.filter (·.kind ≠ dropped) }
    else none

def directionOf (wires : List BdlWire) (pair : BdlPair) : Direction :=
  ((wires.find? fun wire => wire.contains pair).map (·.direction)).getD .undetermined

end BdlWire

end DanglingBond
