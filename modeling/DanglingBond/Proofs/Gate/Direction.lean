import Mathlib
import DanglingBond.Gate.Wire
import DanglingBond.Proofs.Gate.Matching

/-!
The direction of a wire in one row. A wire that has its input at the one end of a row, or its output at the other,
should be read along the row from the input, or towards the output. It is, with two exceptions: an input and an output
are compared in the order of coordinates, in which the atom of the dimer comes before the column (`Crossed`), and
without an input the direction is taken from the pair that is farthest from the upper dot of the output, which may be
the output itself (`Overlong`).
-/

namespace DanglingBond

theorem Coord.distance_pos {K : Type} [ExactElementary K] {lattice : Lattice K} (pitch : 0 < lattice.a) {p q : Coord}
    (apart : p.x ≠ q.x) : 0 < distance lattice p q := by
  refine (distance_nonneg lattice p q).lt_of_ne fun zero => ?_
  have square := distance_mul_self lattice p q
  rw [← zero, mul_zero] at square
  have columns : ((q.x - p.x : Int) : K) * lattice.a ≠ 0 :=
    mul_ne_zero (Int.cast_ne_zero.mpr (sub_ne_zero.mpr apart.symm)) pitch.ne'
  have positive := mul_self_pos.mpr columns
  have across : ((q.x - p.x : Int) : K) * lattice.a = q.x * lattice.a - p.x * lattice.a := by
    push_cast
    ring
  rw [across] at positive
  simp only [squaredDistance, position] at square
  linarith [mul_self_nonneg ((q.y : K) * lattice.b + ((q.z : Int) : K) * lattice.c -
    ((p.y : K) * lattice.b + ((p.z : Int) : K) * lattice.c))]

namespace BdlPair

/-- All columns of the pair are to the left of the columns of another one. -/
def LeftOf (p q : BdlPair) : Prop := max p.upper.x p.lower.x < min q.upper.x q.lower.x

instance (p q : BdlPair) : Decidable (p.LeftOf q) := inferInstanceAs (Decidable (_ < _))

/-- On the way along a row one pair comes before another. -/
def Precedes (heading : Direction) (p q : BdlPair) : Prop :=
  heading = .east ∧ p.LeftOf q ∨ heading = .west ∧ q.LeftOf p

instance (heading : Direction) (p q : BdlPair) : Decidable (Precedes heading p q) :=
  inferInstanceAs (Decidable (_ ∨ _))

/-- An input or an output. -/
def Marked (p : BdlPair) : Prop := p.kind = .input ∨ p.kind = .output

instance (p : BdlPair) : Decidable p.Marked := inferInstanceAs (Decidable (_ ∨ _))

variable {p q : BdlPair}

theorem LeftOf.columns (left : p.LeftOf q) : p.upper.x < q.upper.x ∧ p.lower.x < q.lower.x ∧ p.lower.x < q.upper.x ∧
    p.upper.x < q.lower.x := by
  unfold LeftOf at left
  omega

theorem LeftOf.asymm (left : p.LeftOf q) : ¬ q.LeftOf p := fun right => left.columns.1.asymm right.columns.1

theorem LeftOf.irrefl : ¬ p.LeftOf p := fun left => left.asymm left

theorem Precedes.asymm {heading : Direction} (first : Precedes heading p q) : ¬ Precedes heading q p := by
  rcases first with ⟨rfl, left⟩ | ⟨rfl, left⟩
  · rintro (⟨_, right⟩ | ⟨west, _⟩)
    · exact left.asymm right
    · exact nomatch west
  · rintro (⟨east, _⟩ | ⟨_, right⟩)
    · exact nomatch east
    · exact left.asymm right

theorem Precedes.columns_ne {heading : Direction} (before : Precedes heading p q) : p.upper.x ≠ q.upper.x ∧
    p.lower.x ≠ q.lower.x ∧ p.lower.x ≠ q.upper.x := by
  rcases before with ⟨_, left⟩ | ⟨_, right⟩
  · obtain ⟨upper, lower, across, _⟩ := left.columns
    exact ⟨upper.ne, lower.ne, across.ne⟩
  · obtain ⟨upper, lower, _, across⟩ := right.columns
    exact ⟨upper.ne', lower.ne', across.ne'⟩

/-- Pairs in one row are in the order of atoms first and of columns then. -/
theorem compare_eq_lt_iff (level : p.upper.y = q.upper.y) (apart : p.upper.x ≠ q.upper.x) :
    compare p q = .lt ↔ p.upper.z < q.upper.z ∨ p.upper.z = q.upper.z ∧ p.upper.x < q.upper.x := by
  have lexicographic : compare p q = ((compare p.upper.y q.upper.y).then ((compare p.upper.z q.upper.z).then
    (compare p.upper.x q.upper.x))).then ((compare p.lower q.lower).then (compare p.kind q.kind)) := rfl
  have different : compare p.upper.x q.upper.x ≠ .eq := fun same => apart (Std.LawfulEqOrd.eq_of_compare same)
  rw [lexicographic, level, Std.ReflOrd.compare_self, ← Nat.compare_eq_lt, ← Nat.compare_eq_eq, ← Int.compare_eq_lt]
  cases compare p.upper.z q.upper.z <;> cases order : compare p.upper.x q.upper.x <;> simp_all

end BdlPair

namespace Direction

def reverse : Direction → Direction
  | north => south
  | east => west
  | south => north
  | west => east
  | undetermined => undetermined

section
variable {K : Type} [ExactElementary K] {lattice : Lattice K} {place : Coord} {pairs : List BdlPair}

/-- Of all pairs this one has its lower dot farthest from a place, being the first in order if there are others as
    far. -/
structure Farthest (lattice : Lattice K) (place : Coord) (pairs : List BdlPair) (best : BdlPair) : Prop where
  listed : best ∈ pairs
  beats : ∀ pair ∈ pairs, pair ≠ best →
    Coord.distance lattice pair.lower place < Coord.distance lattice best.lower place ∨
      Coord.distance lattice pair.lower place = Coord.distance lattice best.lower place ∧ compare best pair = .lt

theorem Farthest.le {best pair : BdlPair} (farthest : Farthest lattice place pairs best) (member : pair ∈ pairs) :
    Coord.distance lattice pair.lower place ≤ Coord.distance lattice best.lower place := by
  by_cases same : pair = best
  · rw [same]
  · exact (farthest.beats pair member same).elim le_of_lt fun tie => tie.1.le

theorem Farthest.unique {best other : BdlPair} (farthest : Farthest lattice place pairs best)
    (second : Farthest lattice place pairs other) : best = other := by
  by_contra different
  rcases farthest.beats other second.listed (Ne.symm different) with closer | ⟨_, before⟩
  · exact absurd (second.le farthest.listed) (not_le.mpr closer)
  · rcases second.beats best farthest.listed different with closer | ⟨_, after⟩
    · exact absurd (farthest.le second.listed) (not_le.mpr closer)
    · exact Std.OrientedCmp.not_lt_of_lt before after

/-- A pair that is farther away than all earlier ones takes their place. -/
theorem farthest_concat {pair : BdlPair}
    (farther : ∀ earlier ∈ pairs, Coord.distance lattice earlier.lower place < Coord.distance lattice pair.lower place) :
    Farthest lattice place (pairs ++ [pair]) pair where
  listed := by simp
  beats other member different := .inl (farther other ((List.mem_append.mp member).resolve_right (by simpa using different)))

theorem Farthest.concat {best pair : BdlPair} (farthest : Farthest lattice place pairs best)
    (near : Coord.distance lattice pair.lower place ≤ Coord.distance lattice best.lower place)
    (behind : compare best pair = .lt) : Farthest lattice place (pairs ++ [pair]) best where
  listed := List.mem_append_left _ farthest.listed
  beats other member different := by
    rcases List.mem_append.mp member with earlier | last
    · exact farthest.beats other earlier different
    · rw [List.mem_singleton.mp last]
      exact near.lt_or_eq.imp_right fun tie => ⟨tie, behind⟩

private def widen (lattice : Lattice K) (place : Coord) (reached : Option BdlPair × K) (pair : BdlPair) :
    Option BdlPair × K :=
  if reached.2 < Coord.distance lattice pair.lower place then (some pair, Coord.distance lattice pair.lower place)
  else reached

private theorem widen_farthest (lattice : Lattice K) (place : Coord) (sorted : pairs.Pairwise fun p q => compare p q = .lt) :
    (pairs.foldl (widen lattice place) (none, 0) = (none, 0) ∧
      ∀ pair ∈ pairs, Coord.distance lattice pair.lower place ≤ 0) ∨
    ∃ best, pairs.foldl (widen lattice place) (none, 0) = (some best, Coord.distance lattice best.lower place) ∧
      0 < Coord.distance lattice best.lower place ∧ Farthest lattice place pairs best := by
  -- By induction on the last pair: in a tie the one found before stays, and as the pairs are sorted it is the lesser.
  induction pairs using List.reverseRecOn with
  | nil => exact .inl ⟨rfl, nofun⟩
  | append_singleton pairs pair ih =>
    obtain ⟨sorted, _, behind⟩ := List.pairwise_append.mp sorted
    rw [List.foldl_concat]
    rcases ih sorted with ⟨nothing, none⟩ | ⟨best, found, positive, farthest⟩
    · rw [nothing]
      by_cases away : 0 < Coord.distance lattice pair.lower place
      · exact .inr ⟨pair, if_pos away, away, farthest_concat fun earlier member => (none earlier member).trans_lt away⟩
      · refine .inl ⟨if_neg away, List.forall_mem_append.mpr ⟨none, ?_⟩⟩
        exact List.forall_mem_singleton.mpr (not_lt.mp away)
    · rw [found]
      by_cases farther : Coord.distance lattice best.lower place < Coord.distance lattice pair.lower place
      · refine .inr ⟨pair, if_pos farther, positive.trans farther, ?_⟩
        exact farthest_concat fun earlier member => (farthest.le member).trans_lt farther
      · refine .inr ⟨best, if_neg farther, positive, farthest.concat (not_lt.mp farther) ?_⟩
        exact behind best farthest.listed pair (List.mem_singleton_self _)

/-- Of sorted pairs of which one is away from the place the farthest one is found. -/
theorem exists_farthest (sorted : pairs.Pairwise fun p q => compare p q = .lt) {pair : BdlPair} (member : pair ∈ pairs)
    (away : 0 < Coord.distance lattice pair.lower place) : ∃ best, farthest? lattice place pairs = some best ∧
      0 < Coord.distance lattice best.lower place ∧ Farthest lattice place pairs best := by
  have scanned : farthest? lattice place pairs = (pairs.foldl (widen lattice place) (none, 0)).1 := rfl
  rw [scanned]
  rcases widen_farthest lattice place sorted with ⟨_, none⟩ | ⟨best, found, positive, farthest⟩
  · exact absurd away (not_lt.mpr (none pair member))
  · exact ⟨best, by rw [found], positive, farthest⟩

theorem Farthest.perm {others : List BdlPair} {best : BdlPair} (farthest : Farthest lattice place pairs best)
    (shared : pairs.Perm others) : Farthest lattice place others best where
  listed := shared.mem_iff.mp farthest.listed
  beats pair member := farthest.beats pair (shared.mem_iff.mpr member)

end

section
variable {heading : Direction} {input output pair : BdlPair}

/-- Of an input and an output in one row only their order is looked at. -/
theorem between_row (level : input.SameRows output) (apart : input.upper.x ≠ output.upper.x) :
    between input output = if compare input output = .lt then .east else .west := by
  have elsewhere : ¬ input.SamePlace output := fun same => apart (congrArg Coord.x same.1)
  rw [between, if_pos (Or.inl level.2), if_neg elsewhere, if_pos level]

theorem fromInput_row (level : input.SameRows pair) (before : BdlPair.Precedes heading input pair) :
    fromInput input pair = heading := by
  rcases before with ⟨rfl, left⟩ | ⟨rfl, right⟩
  · exact if_pos ⟨left.columns.2.1, level⟩
  · have columns := right.columns.2.1
    rw [fromInput, if_neg fun east => columns.asymm east.1, if_neg level.2.not_gt, if_pos ⟨columns, level⟩]

theorem toOutput_row (level : output.SameRows pair) (before : BdlPair.Precedes heading pair output) :
    toOutput output pair = heading := by
  rcases before with ⟨rfl, left⟩ | ⟨rfl, right⟩
  · have columns := left.columns.2.1
    rw [toOutput, if_neg fun west => columns.asymm west.1, if_neg level.2.not_gt, if_pos ⟨columns, level⟩]
  · exact if_pos ⟨right.columns.2.1, level⟩

theorem toOutput_self : toOutput output output = .north := by
  simp [toOutput]

end

end Direction

/-- The pairs of a wire in one row, beside each other. If it has an input, this one comes before all other pairs on the
    way along the row, and an output comes after all others. -/
structure RowWire (heading : Direction) (pairs : List BdlPair) : Prop where
  two : 2 ≤ pairs.length
  level : ∀ p ∈ pairs, ∀ q ∈ pairs, p.SameRows q
  apart : pairs.Pairwise fun p q => p.LeftOf q ∨ q.LeftOf p
  marked : ∃ p ∈ pairs, p.Marked
  inputs : ∀ p ∈ pairs, p.kind = .input → ∀ q ∈ pairs, q ≠ p → BdlPair.Precedes heading p q
  outputs : ∀ p ∈ pairs, p.kind = .output → ∀ q ∈ pairs, q ≠ p → BdlPair.Precedes heading q p

/-- The input and the output are on different atoms of their dimers, such that the right one of them is the first in
    the order of coordinates. -/
def Crossed (pairs : List BdlPair) : Prop :=
  ∃ p ∈ pairs, ∃ q ∈ pairs, p.Marked ∧ q.Marked ∧ p.LeftOf q ∧ q.upper.z < p.upper.z

/-- There is no input, and the pair that is farthest from the upper dot of the output is the output itself. -/
def Overlong {K : Type} [ExactElementary K] (lattice : Lattice K) (pairs : List BdlPair) : Prop :=
  (∀ p ∈ pairs, p.kind ≠ .input) ∧
    ∃ output ∈ pairs, output.kind = .output ∧ Direction.Farthest lattice output.upper pairs output

theorem Overlong.perm {K : Type} [ExactElementary K] {lattice : Lattice K} {pairs others : List BdlPair}
    (shared : pairs.Perm others) (overlong : Overlong lattice pairs) : Overlong lattice others := by
  obtain ⟨without, output, member, kind, farthest⟩ := overlong
  exact ⟨fun p other => without p (shared.mem_iff.mpr other), output, shared.mem_iff.mp member, kind, farthest.perm shared⟩

namespace RowWire

open BdlPair

section
variable {heading : Direction} {pairs : List BdlPair} {p q : BdlPair}

theorem perm {others : List BdlPair} (row : RowWire heading pairs) (shared : pairs.Perm others) : RowWire heading others where
  two := shared.length_eq ▸ row.two
  level p first q second := row.level p (shared.mem_iff.mpr first) q (shared.mem_iff.mpr second)
  apart := (shared.pairwise_iff Or.symm).mp row.apart
  marked := by
    obtain ⟨p, member, marked⟩ := row.marked
    exact ⟨p, shared.mem_iff.mp member, marked⟩
  inputs p member kind q other := row.inputs p (shared.mem_iff.mpr member) kind q (shared.mem_iff.mpr other)
  outputs p member kind q other := row.outputs p (shared.mem_iff.mpr member) kind q (shared.mem_iff.mpr other)

theorem nodup (row : RowWire heading pairs) : pairs.Nodup := by
  refine row.apart.imp ?_
  rintro p q beside rfl
  exact LeftOf.irrefl (or_self_iff.mp beside)

theorem exists_other (row : RowWire heading pairs) (p : BdlPair) : ∃ q ∈ pairs, q ≠ p := by
  have several : pairs ≠ [p] := by
    rintro rfl
    exact Nat.not_succ_le_self 1 row.two
  refine ((row.nodup.ne_singleton_iff p).mp several).resolve_left ?_
  rintro rfl
  exact absurd row.two (by decide)

/-- There is one input at most, and one output at most. -/
theorem eq_of_kind (row : RowWire heading pairs) (first : p ∈ pairs) (second : q ∈ pairs) (marked : p.Marked)
    (same : q.kind = p.kind) : q = p := by
  by_contra different
  rcases marked with input | output
  · exact (row.inputs p first input q second different).asymm
      (row.inputs q second (same.trans input) p first (Ne.symm different))
  · exact (row.outputs p first output q second different).asymm
      (row.outputs q second (same.trans output) p first (Ne.symm different))

theorem find?_eq (row : RowWire heading pairs) (member : p ∈ pairs) (marked : p.Marked) {kind : SiteKind}
    (kept : p.kind = kind) : pairs.find? (·.kind = kind) = some p := by
  subst kept
  cases found : pairs.find? (·.kind = p.kind) with
  | none => simpa using List.find?_eq_none.mp found p member
  | some q =>
    have same : q.kind = p.kind := by simpa using List.find?_some found
    rw [row.eq_of_kind member (List.mem_of_find?_eq_some found) marked same]

section
variable {K : Type} [ExactElementary K] {lattice : Lattice K} {input output : BdlPair}

theorem not_short (row : RowWire heading pairs) : ¬ pairs.length < 2 := not_lt.mpr row.two

theorem ofPairs_both (row : RowWire heading pairs) (first : input ∈ pairs) (isInput : input.kind = .input)
    (last : output ∈ pairs) (isOutput : output.kind = .output) :
    Direction.ofPairs lattice pairs = if compare input output = .lt then .east else .west := by
  have different : output ≠ input := by
    rintro rfl
    exact absurd (isInput.symm.trans isOutput) nofun
  rw [Direction.ofPairs, if_neg row.not_short, row.find?_eq first (.inl isInput) isInput,
    row.find?_eq last (.inr isOutput) isOutput]
  exact Direction.between_row (row.level input first output last)
    (row.inputs input first isInput output last different).columns_ne.1

theorem find?_eq_none {kind : SiteKind} (without : ∀ p ∈ pairs, p.kind ≠ kind) : pairs.find? (·.kind = kind) = none := by
  simpa using without

/-- Without an output the direction is right: the pair that is farthest from the input is another one. -/
theorem ofPairs_input (row : RowWire heading pairs) (sorted : pairs.Pairwise fun p q => compare p q = .lt)
    (pitch : 0 < lattice.a) (member : input ∈ pairs) (isInput : input.kind = .input)
    (without : ∀ p ∈ pairs, p.kind ≠ .output) : Direction.ofPairs lattice pairs = heading := by
  obtain ⟨other, known, different⟩ := row.exists_other input
  have apart := (row.inputs input member isInput other known different).columns_ne.2.1
  obtain ⟨best, found, positive, farthest⟩ := Direction.exists_farthest sorted known (Coord.distance_pos pitch apart.symm)
  have moved : best ≠ input := by
    rintro rfl
    exact positive.ne' (Geometry.distance_self lattice best.lower)
  rw [Direction.ofPairs, if_neg row.not_short, row.find?_eq member (.inl isInput) isInput, find?_eq_none without]
  simp only [found, Option.map_some, Option.getD_some]
  exact Direction.fromInput_row (row.level input member best farthest.listed)
    (row.inputs input member isInput best farthest.listed moved)

/-- Without an input the direction is right unless the output is the farthest from itself. -/
theorem ofPairs_output (row : RowWire heading pairs) (sorted : pairs.Pairwise fun p q => compare p q = .lt)
    (pitch : 0 < lattice.a) (member : output ∈ pairs) (isOutput : output.kind = .output)
    (without : ∀ p ∈ pairs, p.kind ≠ .input) :
    Direction.Farthest lattice output.upper pairs output ∧ Direction.ofPairs lattice pairs = .north ∨
      ¬ Direction.Farthest lattice output.upper pairs output ∧ Direction.ofPairs lattice pairs = heading := by
  obtain ⟨other, known, different⟩ := row.exists_other output
  have apart := (row.outputs output member isOutput other known different).columns_ne.2.2
  obtain ⟨best, found, _, farthest⟩ := Direction.exists_farthest sorted known (Coord.distance_pos pitch apart)
  have taken : Direction.ofPairs lattice pairs = Direction.toOutput output best := by
    rw [Direction.ofPairs, if_neg row.not_short, row.find?_eq member (.inr isOutput) isOutput, find?_eq_none without]
    simp only [found, Option.map_some, Option.getD_some]
  rw [taken]
  by_cases same : best = output
  · subst same
    exact .inl ⟨farthest, Direction.toOutput_self⟩
  · refine .inr ⟨fun own => same (farthest.unique own), ?_⟩
    exact Direction.toOutput_row (row.level output member best farthest.listed)
      (row.outputs output member isOutput best farthest.listed same)

end

/-- Of an input and an output the one on the left is on the lower atoms if they are crossed. -/
theorem crossed_iff (row : RowWire heading pairs) (first : p ∈ pairs) (second : q ∈ pairs) (left : p.LeftOf q)
    (marked : p.Marked) (also : q.Marked) (kinds : p.kind ≠ q.kind) : Crossed pairs ↔ q.upper.z < p.upper.z := by
  have either {other : BdlPair} (member : other ∈ pairs) (known : other.Marked) : other = p ∨ other = q := by
    have kind : other.kind = p.kind ∨ other.kind = q.kind := by
      unfold Marked at marked also known
      grind
    exact kind.imp (row.eq_of_kind first member marked) (row.eq_of_kind second member also)
  constructor
  · rintro ⟨a, aListed, b, bListed, aMarked, bMarked, beside, atoms⟩
    rcases either aListed aMarked with rfl | rfl <;> rcases either bListed bMarked with rfl | rfl
    · exact absurd beside LeftOf.irrefl
    · exact atoms
    · exact absurd beside left.asymm
    · exact absurd beside LeftOf.irrefl
  · exact fun atoms => ⟨p, first, q, second, marked, also, left, atoms⟩

theorem not_crossed (row : RowWire heading pairs)
    (single : ∀ p ∈ pairs, ∀ q ∈ pairs, p.Marked → q.Marked → q.kind = p.kind) : ¬ Crossed pairs := by
  rintro ⟨p, first, q, second, marked, also, left, _⟩
  obtain rfl := row.eq_of_kind first second marked (single p first q second marked also)
  exact LeftOf.irrefl left

theorem direction_both (row : RowWire heading pairs) {K : Type} [ExactElementary K] (lattice : Lattice K)
    {input output : BdlPair} (first : input ∈ pairs) (isInput : input.kind = .input) (last : output ∈ pairs)
    (isOutput : output.kind = .output) : Crossed pairs ∧ Direction.ofPairs lattice pairs = heading.reverse ∨
      ¬ Crossed pairs ∧ Direction.ofPairs lattice pairs = heading := by
  have kinds : input.kind ≠ output.kind := by
    rw [isInput, isOutput]
    decide
  have before := row.inputs input first isInput output last fun same => kinds (congrArg kind same.symm)
  -- The order tells east from west, but is that of the columns only if the atoms do not speak against it.
  have order := compare_eq_lt_iff (row.level input first output last).1 before.columns_ne.1
  rw [row.ofPairs_both first isInput last isOutput]
  rcases before with ⟨rfl, left⟩ | ⟨rfl, right⟩
  · have columns := left.columns.1
    rw [row.crossed_iff first last left (.inl isInput) (.inr isOutput) kinds]
    by_cases atoms : output.upper.z < input.upper.z
    · exact .inl ⟨atoms, if_neg (by rw [order]; omega)⟩
    · exact .inr ⟨atoms, if_pos (by rw [order]; omega)⟩
  · have columns := right.columns.1
    rw [row.crossed_iff last first right (.inr isOutput) (.inl isInput) kinds.symm]
    by_cases atoms : input.upper.z < output.upper.z
    · exact .inl ⟨atoms, if_pos (by rw [order]; omega)⟩
    · exact .inr ⟨atoms, if_neg (by rw [order]; omega)⟩

theorem direction_sorted (row : RowWire heading pairs) {K : Type} [ExactElementary K] {lattice : Lattice K}
    (pitch : 0 < lattice.a) (sorted : pairs.Pairwise fun p q => compare p q = .lt) :
    Crossed pairs ∧ Direction.ofPairs lattice pairs = heading.reverse ∨
      Overlong lattice pairs ∧ Direction.ofPairs lattice pairs = .north ∨
      ¬ Crossed pairs ∧ ¬ Overlong lattice pairs ∧ Direction.ofPairs lattice pairs = heading := by
  by_cases hasInput : ∃ input ∈ pairs, input.kind = .input
  · obtain ⟨input, first, isInput⟩ := hasInput
    have short : ¬ Overlong lattice pairs := fun overlong => overlong.1 input first isInput
    by_cases hasOutput : ∃ output ∈ pairs, output.kind = .output
    · obtain ⟨output, last, isOutput⟩ := hasOutput
      exact (row.direction_both lattice first isInput last isOutput).imp_right fun right => .inr ⟨right.1, short, right.2⟩
    · have without : ∀ p ∈ pairs, p.kind ≠ .output := fun p member kind => hasOutput ⟨p, member, kind⟩
      refine .inr (.inr ⟨row.not_crossed ?_, short, row.ofPairs_input sorted pitch first isInput without⟩)
      intro p member q other marked also
      exact (also.resolve_right (without q other)).trans (marked.resolve_right (without p member)).symm
  · have without : ∀ p ∈ pairs, p.kind ≠ .input := fun p member kind => hasInput ⟨p, member, kind⟩
    obtain ⟨output, last, marked⟩ := row.marked
    have isOutput := marked.resolve_left (without output last)
    have straight : ¬ Crossed pairs := by
      refine row.not_crossed fun p member q other marked also => ?_
      exact (also.resolve_left (without q other)).trans (marked.resolve_left (without p member)).symm
    refine .inr ((row.ofPairs_output sorted pitch last isOutput without).imp ?_ ?_)
    · exact fun ⟨farthest, north⟩ => ⟨⟨without, output, last, isOutput, farthest⟩, north⟩
    · rintro ⟨other, right⟩
      refine ⟨straight, ?_, right⟩
      rintro ⟨_, own, member, kind, farthest⟩
      obtain rfl := row.eq_of_kind last member marked (kind.trans isOutput.symm)
      exact other farthest

end

/-- A wire in one row is read along the row, from its input or towards its output, unless input and output are crossed,
    when it is read backwards, or the output alone is overlong, when it is read towards the north. -/
theorem direction_of_row {K : Type} [ExactElementary K] (lattice : Lattice K) (pitch : 0 < lattice.a)
    (heading : Direction) (pairs : List BdlPair) (row : RowWire heading pairs) :
    Crossed pairs ∧ (BdlWire.ofPairs lattice pairs).direction = heading.reverse ∨
      Overlong lattice pairs ∧ (BdlWire.ofPairs lattice pairs).direction = .north ∨
      ¬ Crossed pairs ∧ ¬ Overlong lattice pairs ∧ (BdlWire.ofPairs lattice pairs).direction = heading := by
  have shared : pairs.Perm (pairs.mergeSort le) := (List.mergeSort_perm _ _).symm
  have crossed : Crossed (pairs.mergeSort le) ↔ Crossed pairs := by
    simp only [Crossed, List.mem_mergeSort]
  have overlong : Overlong lattice (pairs.mergeSort le) ↔ Overlong lattice pairs :=
    ⟨Overlong.perm shared.symm, Overlong.perm shared⟩
  have outcome := (row.perm shared).direction_sorted pitch (pairwise_mergeSort_lt row.nodup)
  rw [crossed, overlong] at outcome
  exact outcome

/-- An input and an output side by side, the input on the given atoms of its dimers and the output on the upper ones. -/
def twoPairs (atom : Nat) : List BdlPair :=
  [⟨⟨0, 0, atom⟩, ⟨2, 0, atom⟩, .input⟩, ⟨⟨6, 0, 0⟩, ⟨8, 0, 0⟩, .output⟩]

private theorem twoPairs_row (atom : Nat) : RowWire .east (twoPairs atom) := by
  constructor <;> simp [twoPairs, BdlPair.SameRows, BdlPair.LeftOf, BdlPair.Precedes, BdlPair.Marked]

/-- With both pairs on the upper atoms the wire is read from its input to its output. -/
theorem direction_of_level_row : RowWire .east (twoPairs 0) ∧
    (BdlWire.ofPairs (.silicon : Lattice ℝ) (twoPairs 0)).direction = .east := by
  have pitch : (0 : ℝ) < (.silicon : Lattice ℝ).a := by
    have silicon : (.silicon : Lattice ℝ).a = 0.384 := rfl
    rw [silicon]
    norm_num
  refine ⟨twoPairs_row 0, ?_⟩
  rcases direction_of_row (.silicon : Lattice ℝ) pitch .east (twoPairs 0) (twoPairs_row 0) with
    ⟨crossed, _⟩ | ⟨⟨without, _⟩, _⟩ | ⟨_, _, right⟩
  · exact absurd crossed (by simp [Crossed, twoPairs, BdlPair.LeftOf])
  · exact absurd rfl (without _ List.mem_cons_self)
  · exact right

/-- With the input on the lower atoms it is read from its output to its input. -/
theorem crossed_row_reads_backwards : RowWire .east (twoPairs 1) ∧
    (BdlWire.ofPairs (.silicon : Lattice ℝ) (twoPairs 1)).direction = .west := by
  have sorted := (twoPairs_row 1).perm (List.mergeSort_perm _ le).symm
  have behind : compare (⟨⟨0, 0, 1⟩, ⟨2, 0, 1⟩, .input⟩ : BdlPair) ⟨⟨6, 0, 0⟩, ⟨8, 0, 0⟩, .output⟩ ≠ .lt := by decide
  refine ⟨twoPairs_row 1, ?_⟩
  rw [BdlWire.ofPairs]
  exact (sorted.ofPairs_both (List.mem_mergeSort.mpr (by simp [twoPairs])) rfl
    (List.mem_mergeSort.mpr (by simp [twoPairs])) rfl).trans (if_neg behind)

end RowWire

end DanglingBond
