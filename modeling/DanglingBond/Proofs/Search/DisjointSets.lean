import Mathlib
import DanglingBond.Proofs.Search.Partition

/-!
A union-find is a partition by labels. Parents stay within a group, each group has one root, and from a site to its
parent the sizes at least double, so no path comes back and none is long. At a root the size is the number of sites
of its group. This holds at the start, halving a path keeps it (`Represents.halve`), so every lookup ends at the root
of the group (`Represents.find?`), and a capped union is a join of the partition (`Represents.unionCapped?`).
-/

namespace DanglingBond

namespace DisjointSets

variable {n cap : Nat} {sets : DisjointSets n} {p : Partition n}

def IsRoot (sets : DisjointSets n) (i : Fin n) : Prop := sets.parent[i] = i

/-- One step up. -/
def up (sets : DisjointSets n) (i : Fin n) : Fin n := sets.parent[i]

/-- The parents of a site lead up to a root. -/
def LeadsTo (sets : DisjointSets n) (i root : Fin n) : Prop := sets.IsRoot root ∧ ∃ steps, sets.up^[steps] i = root

/-- The sets are the groups of a partition. -/
structure Represents (sets : DisjointSets n) (p : Partition n) : Prop where
  together (i : Fin n) : p.labels[sets.parent[i]] = p.labels[i]
  /-- A group has one root. -/
  unique {i j : Fin n} (first : sets.IsRoot i) (second : sets.IsRoot j) (same : p.labels[i] = p.labels[j]) : i = j
  positive (i : Fin n) : 0 < sets.size[i]
  doubled {i : Fin n} (below : ¬ sets.IsRoot i) : 2 * sets.size[i] ≤ sets.size[sets.parent[i]]
  bounded (i : Fin n) : sets.size[i] ≤ (p.fellows i).card
  counted {i : Fin n} (root : sets.IsRoot i) : sets.size[i] = (p.fellows i).card

theorem new_represents (n : Nat) : (new n).Represents (.discrete n) := by
  have parent (i : Fin n) : (new n).parent[i] = i := by simp [new]
  have size (i : Fin n) : (new n).size[i] = 1 := by simp [new]
  refine ⟨?_, ?_, ?_, ?_, ?_, ?_⟩
  · intro i
    rw [parent]
  · intro i j _ _ same
    simpa using same
  · intro i
    rw [size]
    exact Nat.one_pos
  · intro i below
    exact absurd (parent i) below
  · intro i
    rw [size, Partition.fellows_discrete, Finset.card_singleton]
  · intro i _
    rw [size, Partition.fellows_discrete, Finset.card_singleton]

theorem parent_halve (sets : DisjointSets n) (i j : Fin n) :
    (sets.halve i).parent[j] = if j = i then sets.parent[sets.parent[i]] else sets.parent[j] := by simp [halve]

theorem parent_hang (sets : DisjointSets n) (small big i : Fin n) :
    (sets.hang small big).parent[i] = if i = small then big else sets.parent[i] := by simp [hang]

theorem size_hang (sets : DisjointSets n) (small big i : Fin n) :
    (sets.hang small big).size[i] = if i = big then sets.size[big] + sets.size[small] else sets.size[i] := by
  simp [hang]

/-- The lower of the two is a root no more, and the other roots stay. -/
theorem isRoot_hang (sets : DisjointSets n) {small big : Fin n} (different : big ≠ small) (i : Fin n) :
    (sets.hang small big).IsRoot i ↔ i ≠ small ∧ sets.IsRoot i := by
  unfold IsRoot
  rw [parent_hang]
  split
  · rename_i same
    exact iff_of_false (fun back => different (back.trans same)) fun other => other.1 same
  · rename_i other
    exact (and_iff_right other).symm

namespace Represents

/-- Sizes never get smaller on the way up. -/
theorem size_le_parent (represents : sets.Represents p) (i : Fin n) : sets.size[i] ≤ sets.size[sets.parent[i]] := by
  by_cases root : sets.IsRoot i
  · rw [show sets.parent[i] = i from root]
  · have doubled := represents.doubled root
    omega

theorem size_le (represents : sets.Represents p) (i : Fin n) : sets.size[i] ≤ n := by
  refine (represents.bounded i).trans ((Finset.card_le_univ _).trans ?_)
  rw [Fintype.card_fin]

/-- Halving a path changes no root, since a path does not come back. -/
theorem isRoot_halve (represents : sets.Represents p) (i j : Fin n) : (sets.halve i).IsRoot j ↔ sets.IsRoot j := by
  unfold IsRoot
  rw [parent_halve]
  by_cases same : j = i
  · subst same
    rw [if_pos rfl]
    constructor
    · intro back
      by_contra below
      have first := represents.doubled below
      have second := represents.size_le_parent sets.parent[j]
      have positive := represents.positive j
      rw [back] at second
      omega
    · intro root
      rw [root, root]
  · rw [if_neg same]

theorem halve (represents : sets.Represents p) (i : Fin n) : (sets.halve i).Represents p := by
  constructor
  case together =>
    intro j
    rw [parent_halve]
    split
    · rename_i same
      rw [represents.together, represents.together, same]
    · exact represents.together j
  case unique =>
    intro j k first second
    exact represents.unique ((represents.isRoot_halve i j).mp first) ((represents.isRoot_halve i k).mp second)
  case positive => exact represents.positive
  case doubled =>
    intro j below
    have doubled := represents.doubled fun root => below ((represents.isRoot_halve i j).mpr root)
    rw [parent_halve]
    split
    · rename_i same
      subst same
      exact doubled.trans (represents.size_le_parent _)
    · exact doubled
  case bounded => exact represents.bounded
  case counted =>
    intro j root
    exact represents.counted ((represents.isRoot_halve i j).mp root)

end Represents

/-- What a lookup leads to: the root of the group. The sets keep their groups, their roots and their sizes. -/
structure Lookup (sets : DisjointSets n) (p : Partition n) (i : Fin n) (after : DisjointSets n) (root : Fin n) : Prop where
  represents : after.Represents p
  roots (j : Fin n) : after.IsRoot j ↔ sets.IsRoot j
  size : after.size = sets.size
  isRoot : after.IsRoot root
  label : p.labels[root] = p.labels[i]

namespace Represents

/-- Going up ends, because the sizes on the way grow and are at most `n`. -/
theorem climb? (represents : sets.Represents p) {rounds : Nat} {i : Fin n} (enough : n < sets.size[i] + rounds) :
    ∃ after root, DisjointSets.climb? rounds sets i = some (after, root) ∧ Lookup sets p i after root := by
  induction rounds generalizing sets i with
  | zero =>
    have bounded := represents.size_le i
    omega
  | succ rounds ih =>
    rw [DisjointSets.climb?]
    by_cases root : sets.parent[i] = i
    · rw [if_pos root]
      exact ⟨sets, i, rfl, represents, fun _ => Iff.rfl, rfl, root, rfl⟩
    · rw [if_neg root]
      have above : (sets.halve i).parent[i] = sets.parent[sets.parent[i]] := by rw [parent_halve, if_pos rfl]
      have grows : sets.size[i] < sets.size[sets.parent[sets.parent[i]]] := by
        have first := represents.doubled root
        have second := represents.size_le_parent sets.parent[i]
        have positive := represents.positive i
        omega
      have enough : n < (sets.halve i).size[(sets.halve i).parent[i]] + rounds := by
        rw [above]
        show n < sets.size[sets.parent[sets.parent[i]]] + rounds
        omega
      obtain ⟨after, root, found, lookup⟩ := ih (represents.halve i) enough
      refine ⟨after, root, found, lookup.represents, ?_, lookup.size, lookup.isRoot, ?_⟩
      · intro j
        rw [lookup.roots, represents.isRoot_halve]
      · rw [lookup.label, above, represents.together, represents.together]

/-- Every lookup ends at the root of the group. -/
theorem find? (represents : sets.Represents p) (i : Fin n) :
    ∃ after root, sets.find? i = some (after, root) ∧ Lookup sets p i after root := by
  have positive := represents.positive i
  exact represents.climb? (by omega)

/-- Hanging the root of a group below that of another one at least as large joins the two. -/
theorem hang (represents : sets.Represents p) {small big : Fin n} (undecided : ¬ p.Decided cap small big)
    (smallRoot : sets.IsRoot small) (bigRoot : sets.IsRoot big) (order : sets.size[small] ≤ sets.size[big]) :
    (sets.hang small big).Represents (p.join cap small big) := by
  have apart : p.labels[small] ≠ p.labels[big] := (not_or.mp undecided).1
  have different : big ≠ small := fun same => apart (by rw [same])
  have root := sets.isRoot_hang different
  have members : (p.fellows small ∪ p.fellows big).card = sets.size[big] + sets.size[small] := by
    rw [Finset.card_union_of_disjoint (Partition.fellows_disjoint apart), represents.counted smallRoot,
      represents.counted bigRoot, Nat.add_comm]
  -- Only two of the old roots are in the united group, and one of them is a root no more.
  have joined {i : Fin n} (isRoot : (sets.hang small big).IsRoot i) (inside : i ∈ p.fellows small ∪ p.fellows big) :
      i = big := by
    obtain ⟨other, isRoot⟩ := (root i).mp isRoot
    rcases Finset.mem_union.mp inside with member | member
    · exact absurd (represents.unique isRoot smallRoot (Partition.mem_fellows.mp member)) other
    · exact represents.unique isRoot bigRoot (Partition.mem_fellows.mp member)
  have bigSize : (sets.hang small big).size[big] = ((p.join cap small big).fellows big).card := by
    rw [size_hang, if_pos rfl, Partition.fellows_join undecided, if_pos (by simp), members]
  constructor
  case together =>
    intro i
    rw [← Partition.mem_fellows, parent_hang]
    split
    · rename_i same
      rw [same, Partition.fellows_join undecided, if_pos (by simp)]
      simp
    · exact Partition.fellows_subset_join cap p small big i (Partition.mem_fellows.mpr (represents.together i))
  case unique =>
    intro i j first second same
    rw [← Partition.mem_fellows, Partition.fellows_join undecided] at same
    by_cases inside : j ∈ p.fellows small ∪ p.fellows big
    · rw [if_pos inside] at same
      rw [joined first same, joined second inside]
    · rw [if_neg inside] at same
      exact represents.unique ((root i).mp first).2 ((root j).mp second).2 (Partition.mem_fellows.mp same)
  case positive =>
    intro i
    rw [size_hang]
    split
    · exact Nat.add_pos_left (represents.positive big) _
    · exact represents.positive i
  case doubled =>
    intro i below
    rw [parent_hang, size_hang, size_hang]
    by_cases same : i = small
    · rw [if_pos same, if_pos rfl, same, if_neg different.symm]
      omega
    · have below : ¬ sets.IsRoot i := fun isRoot => below ((root i).mpr ⟨same, isRoot⟩)
      have doubled := represents.doubled below
      have other : i ≠ big := fun same => below (same ▸ bigRoot)
      rw [if_neg other, if_neg same]
      split
      · rename_i above
        rw [above] at doubled
        omega
      · exact doubled
  case bounded =>
    intro i
    by_cases same : i = big
    · rw [same, bigSize]
    · rw [size_hang, if_neg same]
      exact (represents.bounded i).trans (Finset.card_le_card (Partition.fellows_subset_join cap p small big i))
  case counted =>
    intro i isRoot
    by_cases inside : i ∈ p.fellows small ∪ p.fellows big
    · rw [joined isRoot inside, bigSize]
    · have other : i ≠ big := fun same => inside (by simp [same])
      rw [size_hang, if_neg other, Partition.fellows_join undecided, if_neg inside]
      exact represents.counted ((root i).mp isRoot).2

/-- A capped union is a join of the partition, and it tells whether the limit allowed the join. -/
theorem unionCapped? (represents : sets.Represents p) (cap : Nat) (i j : Fin n) :
    ∃ after, sets.unionCapped? cap i j = some (after, !decide (p.Decided cap i j)) ∧
      after.Represents (p.join cap i j) := by
  obtain ⟨once, a, foundFirst, first⟩ := represents.find? i
  obtain ⟨twice, b, foundSecond, second⟩ := first.represents.find? j
  have represents := second.represents
  have aRoot : twice.IsRoot a := (second.roots a).mpr first.isRoot
  have bRoot : twice.IsRoot b := second.isRoot
  have refused : a = b ∨ cap < twice.size[a] + twice.size[b] ↔ p.Decided cap i j := by
    rw [← Partition.decided_congr first.label second.label, Partition.Decided, represents.counted aRoot,
      represents.counted bRoot]
    exact or_congr_left ⟨fun same => by rw [same], represents.unique aRoot bRoot⟩
  have joined : p.join cap i j = p.join cap a b := (Partition.join_congr first.label second.label).symm
  have run : sets.unionCapped? cap i j =
      if a = b ∨ cap < twice.size[a] + twice.size[b] then some (twice, false)
      else if twice.size[b] ≤ twice.size[a] then some (twice.hang b a, true)
      else some (twice.hang a b, true) := by
    rw [DisjointSets.unionCapped?, foundFirst]
    simp only [Option.bind_eq_bind, Option.bind_some, foundSecond]
    rfl
  rw [run]
  by_cases decided : p.Decided cap i j
  · rw [if_pos (refused.mpr decided), decide_eq_true decided, Partition.join_of_decided decided]
    exact ⟨twice, rfl, represents⟩
  · have undecided : ¬ p.Decided cap a b := (Partition.decided_congr first.label second.label).not.mpr decided
    rw [if_neg (refused.not.mpr decided), decide_eq_false decided, joined]
    split
    · rename_i order
      rw [Partition.join_comm]
      exact ⟨_, rfl, represents.hang (fun back => undecided back.symm) bRoot aRoot order⟩
    · rename_i order
      exact ⟨_, rfl, represents.hang undecided aRoot bRoot (not_le.mp order).le⟩

theorem label_iterate (represents : sets.Represents p) (steps : Nat) (i : Fin n) :
    p.labels[sets.up^[steps] i] = p.labels[i] := by
  induction steps generalizing i with
  | zero => rfl
  | succ steps ih => rw [Function.iterate_succ_apply, ih, up, represents.together]

/-- A site is below its root by the logarithm of the sizes at most. -/
theorem exists_root (represents : sets.Represents p) {rounds : Nat} {i : Fin n} (enough : n < sets.size[i] + rounds) :
    ∃ steps, sets.IsRoot (sets.up^[steps] i) ∧ 2 ^ steps * sets.size[i] ≤ sets.size[sets.up^[steps] i] := by
  induction rounds generalizing i with
  | zero =>
    have bounded := represents.size_le i
    omega
  | succ rounds ih =>
    by_cases root : sets.IsRoot i
    · exact ⟨0, root, by simp⟩
    · have doubled := represents.doubled root
      have positive := represents.positive i
      obtain ⟨steps, isRoot, order⟩ := ih (i := sets.parent[i]) (by omega)
      refine ⟨steps + 1, isRoot, ?_⟩
      calc 2 ^ (steps + 1) * sets.size[i] = 2 ^ steps * (2 * sets.size[i]) := by rw [pow_succ, mul_assoc]
        _ ≤ 2 ^ steps * sets.size[sets.parent[i]] := Nat.mul_le_mul_left _ doubled
        _ ≤ sets.size[sets.up^[steps] sets.parent[i]] := order

/-- The root of a site is the one in its group. -/
theorem leadsTo_iff (represents : sets.Represents p) {i root : Fin n} :
    sets.LeadsTo i root ↔ sets.IsRoot root ∧ p.labels[i] = p.labels[root] := by
  constructor
  · rintro ⟨isRoot, steps, rfl⟩
    exact ⟨isRoot, (represents.label_iterate steps i).symm⟩
  · rintro ⟨isRoot, same⟩
    have positive := represents.positive i
    obtain ⟨steps, above, _⟩ := represents.exists_root (show n < sets.size[i] + n by omega)
    refine ⟨isRoot, steps, represents.unique above isRoot ?_⟩
    rw [represents.label_iterate, same]

end Represents

/-- What holds of the sets at any time: no path of parents comes back, and none is longer than the logarithm of the
    number of sites; the size of a root is that of its set; and a lookup ends at the root of the site and changes
    neither sets nor sizes. -/
structure Kept (sets : DisjointSets n) : Prop where
  rooted (i : Fin n) : ∃ steps, 2 ^ steps ≤ n ∧ sets.IsRoot (sets.up^[steps] i)
  counted {root : Fin n} (isRoot : sets.IsRoot root) : sets.size[root] = {i | sets.LeadsTo i root}.ncard
  ends (i : Fin n) : ∃ after root, sets.find? i = some (after, root) ∧ sets.LeadsTo i root ∧
    after.size = sets.size ∧ ∀ j other, after.LeadsTo j other ↔ sets.LeadsTo j other

theorem Represents.kept (represents : sets.Represents p) : sets.Kept := by
  refine ⟨?_, ?_, ?_⟩
  · intro i
    have positive := represents.positive i
    obtain ⟨steps, isRoot, order⟩ := represents.exists_root (show n < sets.size[i] + n by omega)
    exact ⟨steps, (Nat.le_mul_of_pos_right _ positive).trans (order.trans (represents.size_le _)), isRoot⟩
  · intro root isRoot
    have members : {i | sets.LeadsTo i root} = (p.fellows root : Set (Fin n)) := by
      ext i
      simp [represents.leadsTo_iff, isRoot]
    rw [members, Set.ncard_coe_finset, represents.counted isRoot]
  · intro i
    obtain ⟨after, root, found, lookup⟩ := represents.find? i
    refine ⟨after, root, found, ?_, lookup.size, ?_⟩
    · exact represents.leadsTo_iff.mpr ⟨(lookup.roots root).mp lookup.isRoot, lookup.label.symm⟩
    · intro j other
      rw [lookup.represents.leadsTo_iff, represents.leadsTo_iff, lookup.roots]

/-- Uniting along links comes to joining along them. -/
theorem unite?_represents {K : Type} {g : Geometry K} (cap : Nat) (links : List (Link g)) :
    ∃ sets, unite? cap links = some sets ∧ sets.Represents (.ofLinks cap links) := by
  induction links using List.reverseRecOn with
  | nil => exact ⟨_, rfl, new_represents g.size⟩
  | append_singleton links link ih =>
    obtain ⟨sets, united, represents⟩ := ih
    obtain ⟨after, merged, joined⟩ := represents.unionCapped? cap link.first link.second
    refine ⟨after, ?_, ?_⟩
    · rw [unite?] at united ⊢
      rw [List.foldlM_append, united]
      simp [merged]
    · rw [Partition.ofLinks_concat]
      exact joined

end DisjointSets

end DanglingBond
