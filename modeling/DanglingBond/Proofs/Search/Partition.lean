import Mathlib
import DanglingBond.Search.Partition

/-!
Partitions of the sites by labels, which say what the sets of a union-find are without saying how they are kept.
The label of a group is the smallest of its own sites, and stays it along whatever links groups are joined
(`ofLinks_settled`), so every site is in exactly one group (`groups_perm`).
-/

namespace DanglingBond

/-- A partition of `n` sites by a label for each. -/
structure Partition (n : Nat) where
  labels : Vector (Fin n) n

namespace Partition

variable {n maxSize : Nat} {p : Partition n}

def discrete (n : Nat) : Partition n := ⟨Vector.ofFn id⟩

/-- The sites in the group of a site. -/
def fellows (p : Partition n) (i : Fin n) : Finset (Fin n) := {j | p.labels[j] = p.labels[i]}

/-- Two sites share a group, or their groups are too large together. -/
def Decided (p : Partition n) (maxSize : Nat) (i j : Fin n) : Prop :=
  p.labels[i] = p.labels[j] ∨ maxSize < (p.fellows i).card + (p.fellows j).card

instance (p : Partition n) (maxSize : Nat) (i j : Fin n) : Decidable (p.Decided maxSize i j) :=
  inferInstanceAs (Decidable (_ ∨ _))

/-- Joins the groups of two sites under the smaller label, where the size limit allows it. -/
def join (maxSize : Nat) (p : Partition n) (i j : Fin n) : Partition n :=
  if p.Decided maxSize i j then p
  else
    ⟨p.labels.map fun label =>
      if label = p.labels[i] ∨ label = p.labels[j] then min p.labels[i] p.labels[j] else label⟩

/-- Joins the sites along the links in their order. -/
def ofLinks {K : Type} {g : Geometry K} (maxSize : Nat) (links : List (Link g)) : Partition g.size :=
  links.foldl (fun p link => p.join maxSize link.first link.second) (discrete g.size)

/-- The sites with a label, in ascending order. -/
def group (p : Partition n) (label : Fin n) : List (Fin n) := (List.finRange n).filter fun i => p.labels[i] = label

/-- The groups in the order of their labels. -/
def groups (p : Partition n) : List (List (Fin n)) :=
  ((List.finRange n).filter fun i => p.labels[i] = i).map p.group

@[simp] theorem labels_discrete (i : Fin n) : (discrete n).labels[i] = i := by simp [discrete]

@[simp] theorem mem_fellows {i j : Fin n} : j ∈ p.fellows i ↔ p.labels[j] = p.labels[i] := by simp [fellows]

theorem fellows_discrete (i : Fin n) : (discrete n).fellows i = {i} := by
  ext j
  simp

/-- Sites share their group or have none in common. -/
theorem fellows_disjoint {i j : Fin n} (apart : p.labels[i] ≠ p.labels[j]) : Disjoint (p.fellows i) (p.fellows j) := by
  rw [Finset.disjoint_left]
  intro k first second
  exact apart ((mem_fellows.mp first).symm.trans (mem_fellows.mp second))

theorem mem_group {label i : Fin n} : i ∈ p.group label ↔ p.labels[i] = label := by simp [group]

theorem mem_groups {group : List (Fin n)} : group ∈ p.groups ↔ ∃ i : Fin n, p.labels[i] = i ∧ group = p.group i := by
  simp [groups, eq_comm]

theorem length_group (p : Partition n) (i : Fin n) : (p.group p.labels[i]).length = (p.fellows i).card := by
  rw [group, ← List.toFinset_card_of_nodup ((List.nodup_finRange n).filter _)]
  congr 1
  ext j
  simp

theorem Decided.symm {i j : Fin n} (decided : p.Decided maxSize i j) : p.Decided maxSize j i := by
  rcases decided with same | large
  · exact .inl same.symm
  · exact .inr (Nat.add_comm (p.fellows i).card _ ▸ large)

/-- A join of what is decided changes nothing. -/
theorem join_of_decided {i j : Fin n} (decided : p.Decided maxSize i j) : p.join maxSize i j = p := if_pos decided

theorem join_comm (maxSize : Nat) (p : Partition n) (i j : Fin n) : p.join maxSize i j = p.join maxSize j i := by
  by_cases decided : p.Decided maxSize i j
  · rw [join_of_decided decided, join_of_decided decided.symm]
  · have back : ¬ p.Decided maxSize j i := fun reverse => decided reverse.symm
    rw [join, join, if_neg decided, if_neg back, min_comm]
    simp only [or_comm]

theorem decided_congr {i j k l : Fin n} (first : p.labels[i] = p.labels[k]) (second : p.labels[j] = p.labels[l]) :
    p.Decided maxSize i j ↔ p.Decided maxSize k l := by
  simp only [Decided, fellows, first, second]

/-- A join depends on the groups of the two sites only. -/
theorem join_congr {i j k l : Fin n} (first : p.labels[i] = p.labels[k]) (second : p.labels[j] = p.labels[l]) :
    p.join maxSize i j = p.join maxSize k l := by
  simp only [join, decided_congr first second, first, second]

/-- A join of what is undecided puts both groups under the smaller of their labels, and no other site. -/
theorem labels_join {i j : Fin n} (undecided : ¬ p.Decided maxSize i j) (k : Fin n) : (p.join maxSize i j).labels[k] =
    if k ∈ p.fellows i ∪ p.fellows j then min p.labels[i] p.labels[j] else p.labels[k] := by
  rw [show p.join maxSize i j = _ from if_neg undecided]
  simp only [Vector.at_map, Finset.mem_union, mem_fellows]

/-- After such a join two sites share a group if they did before or are both among the joined. -/
theorem fellows_join {i j : Fin n} (undecided : ¬ p.Decided maxSize i j) (k : Fin n) : (p.join maxSize i j).fellows k =
    if k ∈ p.fellows i ∪ p.fellows j then p.fellows i ∪ p.fellows j else p.fellows k := by
  have inside {l : Fin n} (labelled : p.labels[l] = min p.labels[i] p.labels[j]) : l ∈ p.fellows i ∪ p.fellows j := by
    rcases min_choice p.labels[i] p.labels[j] with first | second
    · exact Finset.mem_union_left _ (mem_fellows.mpr (labelled.trans first))
    · exact Finset.mem_union_right _ (mem_fellows.mpr (labelled.trans second))
  have shared {l m : Fin n} (same : p.labels[l] = p.labels[m]) (member : l ∈ p.fellows i ∪ p.fellows j) :
      m ∈ p.fellows i ∪ p.fellows j := by
    simpa only [Finset.mem_union, mem_fellows, same] using member
  ext l
  rw [mem_fellows, labels_join undecided l, labels_join undecided k]
  by_cases first : k ∈ p.fellows i ∪ p.fellows j
  · rw [if_pos first, if_pos first]
    by_cases second : l ∈ p.fellows i ∪ p.fellows j
    · exact iff_of_true (if_pos second) second
    · rw [if_neg second]
      exact iff_of_false (fun labelled => second (inside labelled)) second
  · rw [if_neg first, if_neg first, mem_fellows]
    by_cases second : l ∈ p.fellows i ∪ p.fellows j
    · rw [if_pos second]
      exact ⟨fun labelled => absurd (inside labelled.symm) first, fun same => absurd (shared same second) first⟩
    · rw [if_neg second]

/-- Groups only grow. -/
theorem fellows_subset_join (maxSize : Nat) (p : Partition n) (i j k : Fin n) :
    p.fellows k ⊆ (p.join maxSize i j).fellows k := by
  by_cases decided : p.Decided maxSize i j
  · rw [join_of_decided decided]
  · intro l member
    rw [fellows_join decided]
    split
    · rename_i inside
      simpa only [Finset.mem_union, mem_fellows, mem_fellows.mp member] using inside
    · exact member

/-- Every label is the smallest site of its own group. -/
structure Settled (p : Partition n) : Prop where
  own (i : Fin n) : p.labels[p.labels[i]] = p.labels[i]
  smallest (i : Fin n) : p.labels[i] ≤ i

theorem discrete_settled (n : Nat) : (discrete n).Settled := ⟨by simp, by simp⟩

theorem Settled.join (settled : p.Settled) (maxSize : Nat) (i j : Fin n) : (p.join maxSize i j).Settled := by
  by_cases decided : p.Decided maxSize i j
  · rw [join_of_decided decided]
    exact settled
  · constructor
    · intro k
      rw [labels_join decided k]
      split
      · rcases min_choice p.labels[i] p.labels[j] with first | second
        · rw [first, labels_join decided, if_pos (by simp [settled.own]), first]
        · rw [second, labels_join decided, if_pos (by simp [settled.own]), second]
      · rename_i outside
        rw [labels_join decided, settled.own, if_neg]
        simpa only [Finset.mem_union, mem_fellows, settled.own] using outside
    · intro k
      rw [labels_join decided k]
      split
      · rename_i inside
        rcases Finset.mem_union.mp inside with member | member
        · exact (min_le_left _ _).trans (mem_fellows.mp member ▸ settled.smallest k)
        · exact (min_le_right _ _).trans (mem_fellows.mp member ▸ settled.smallest k)
      · exact settled.smallest k

theorem ofLinks_concat {K : Type} {g : Geometry K} (maxSize : Nat) (links : List (Link g)) (link : Link g) :
    ofLinks maxSize (links ++ [link]) = (ofLinks maxSize links).join maxSize link.first link.second := by
  simp [ofLinks]

theorem ofLinks_settled {K : Type} {g : Geometry K} (maxSize : Nat) (links : List (Link g)) :
    (ofLinks maxSize links).Settled := by
  induction links using List.reverseRecOn with
  | nil => exact discrete_settled g.size
  | append_singleton links link ih =>
    rw [ofLinks_concat]
    exact ih.join maxSize link.first link.second

/-- Every site is in exactly one group. -/
theorem groups_perm (settled : p.Settled) : p.groups.flatten.Perm (List.finRange n) := by
  refine (List.perm_ext_iff_of_nodup ?_ (List.nodup_finRange n)).mpr ?_
  · rw [groups, ← List.flatMap_def]
    refine List.nodup_flatMap.mpr ⟨fun label _ => (List.nodup_finRange n).filter _, ?_⟩
    refine ((List.nodup_finRange n).filter _).imp ?_
    intro label other different i inside outside
    exact different ((mem_group.mp inside).symm.trans (mem_group.mp outside))
  · intro i
    simp only [List.mem_finRange, iff_true, groups, ← List.flatMap_def, List.mem_flatMap]
    exact ⟨p.labels[i], by simpa using settled.own i, mem_group.mpr rfl⟩

/-- Two sites are in one group exactly when they have one label. -/
theorem together_iff (settled : p.Settled) {i j : Fin n} :
    (∃ group ∈ p.groups, i ∈ group ∧ j ∈ group) ↔ p.labels[i] = p.labels[j] := by
  constructor
  · rintro ⟨_, listed, first, second⟩
    obtain ⟨label, _, rfl⟩ := mem_groups.mp listed
    exact (mem_group.mp first).trans (mem_group.mp second).symm
  · intro same
    exact ⟨p.group p.labels[i], mem_groups.mpr ⟨_, settled.own i, rfl⟩, mem_group.mpr rfl, mem_group.mpr same.symm⟩

end Partition

end DanglingBond
