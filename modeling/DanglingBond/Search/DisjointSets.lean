import DanglingBond.Prelude

/-!
# Disjoint sets

Every site has a parent, and a site that is its own parent is the root of its set. Two sets become one
when the root of the smaller goes below the root of the larger. A lookup follows the parents and shortens
the path on its way, so it changes the parents but not the sets.
-/

namespace DanglingBond

/-- Sets of `n` sites. The size is that of the whole set where the site is a root. -/
structure DisjointSets (n : Nat) where
  parent : Vector (Fin n) n
  size : Vector Nat n

namespace DisjointSets

variable {n : Nat}

/-- Every site is a set of its own. -/
def new (n : Nat) : DisjointSets n := ⟨Vector.ofFn id, Vector.replicate n 1⟩

/-- Puts a site below its grandparent. -/
def halve (sets : DisjointSets n) (i : Fin n) : DisjointSets n :=
  { sets with parent := sets.parent.put i sets.parent[sets.parent[i]] }

/-- Goes up from a site to its root and halves the path. Nothing is returned when the root is not reached
in the given number of rounds. -/
def climb? : Nat → DisjointSets n → Fin n → Option (DisjointSets n × Fin n)
  | 0, _, _ => none
  | rounds + 1, sets, i =>
    if sets.parent[i] = i then some (sets, i)
    else climb? rounds (sets.halve i) (sets.halve i).parent[i]

/-- The root of a site, and the sets with the path to it halved. -/
def find? (sets : DisjointSets n) (i : Fin n) : Option (DisjointSets n × Fin n) := climb? n sets i

/-- Puts one root below another. -/
def hang (sets : DisjointSets n) (small big : Fin n) : DisjointSets n :=
  { parent := sets.parent.put small big
    size := sets.size.put big (sets.size[big] + sets.size[small]) }

/-- Unites the sets of two sites, unless they are one set already or would exceed the cap together. Also
tells whether it did. -/
def unionCapped? (cap : Nat) (sets : DisjointSets n) (i j : Fin n) : Option (DisjointSets n × Bool) := do
  let (sets, a) ← sets.find? i
  let (sets, b) ← sets.find? j
  if a = b ∨ cap < sets.size[a] + sets.size[b] then return (sets, false)
  if sets.size[b] ≤ sets.size[a] then return (sets.hang b a, true)
  return (sets.hang a b, true)

end DisjointSets

end DanglingBond
