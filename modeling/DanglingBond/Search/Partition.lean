import DanglingBond.Geometry
import DanglingBond.Search.DisjointSets

/-!
# Groups of neighbouring sites

Sites are joined into groups by single linkage: the closest two come first, and a join that would
make a group too large is left out. The groups are listed in the order of their smallest sites.
-/

namespace DanglingBond

/-- A link between two sites and its length in nanometres. -/
structure Link {K : Type} (g : Geometry K) where
  length : K
  first : Fin g.size
  second : Fin g.size

namespace Link

variable {K : Type} [Scalar K] {g : Geometry K}

/-- Shorter links come first; of equally long ones, those of the smaller sites. -/
def precedes (a b : Link g) : Bool :=
  if ¬ Scalar.sortsBefore b.length a.length then true
  else if ¬ Scalar.sortsBefore a.length b.length then false
  else decide (a.first < b.first ∨ a.first = b.first ∧ a.second ≤ b.second)

/-- The links between sites whose distance is below the radius. -/
def within (g : Geometry K) (radius : K) : List (Link g) :=
  (List.finRange g.size).flatMap fun i =>
    ((List.finRange g.size).filter fun j => i < j ∧ isClose i j).map fun j =>
      ⟨g.distance i j, i, j⟩
where
  isClose (i j : Fin g.size) : Bool :=
    let place (k : Fin g.size) : K × K := g.sites[k].coord.position g.params.lattice
    decide (Coord.squaredDistance (place i) (place j) < radius * radius)

end Link

/-- Groups while they are filled: which of them each root has, if any, and the groups so far. -/
structure Grouping (n : Nat) where
  sets : DisjointSets n
  slots : Vector (Option Nat) n
  groups : List (List (Fin n))

namespace Grouping

variable {n : Nat}

def start (sets : DisjointSets n) : Grouping n := ⟨sets, Vector.replicate n none, []⟩

/-- Puts a site into the group of its root, which opens with the first of its sites. -/
def add? (grouping : Grouping n) (i : Fin n) : Option (Grouping n) := do
  let (sets, root) ← grouping.sets.find? i
  match grouping.slots[root] with
  | some slot => return { grouping with sets, groups := grouping.groups.modify slot (· ++ [i]) }
  | none =>
    return {
      sets
      slots := grouping.slots.put root (some grouping.groups.length)
      groups := grouping.groups ++ [[i]] }

end Grouping

/-- Unites the ends of the links one after another. -/
def DisjointSets.unite? {K : Type} {g : Geometry K} (cap : Nat) (links : List (Link g)) :
    Option (DisjointSets g.size) :=
  links.foldlM (fun sets link => Prod.fst <$> sets.unionCapped? cap link.first link.second) (.new g.size)

/-- The groups of the sites that the given links join, the shortest link first. -/
def partition? {K : Type} [Scalar K] {g : Geometry K} (maxSize : Nat) (links : List (Link g)) :
    Option (List (List (Fin g.size))) := do
  let sets ← DisjointSets.unite? maxSize (links.mergeSort Link.precedes)
  let grouping ← (List.finRange g.size).foldlM Grouping.add? (.start sets)
  return grouping.groups

end DanglingBond
