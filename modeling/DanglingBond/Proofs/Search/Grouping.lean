import Mathlib
import DanglingBond.Proofs.Search.DisjointSets

/-!
The groups that are read off a union-find. The sites are looked at in ascending order, so a group opens with the site
that labels it, and each root knows the place of its group (`Grouping.Collected`). Looking at one more site keeps
this (`Grouping.Collected.add?`), and once all are looked at the groups are those of the partition by labels
(`partition?_eq_some`).
-/

namespace DanglingBond

namespace Grouping

variable {n : Nat} {p : Partition n} {grouping : Grouping n} {done rest : List (Fin n)} {i : Fin n}

/-- The labels of the groups that the sites open. -/
def opened (p : Partition n) (done : List (Fin n)) : List (Fin n) := done.filter fun i => p.labels[i] = i

/-- The sites looked at are in the groups of the partition, and each root knows the place of its group. -/
structure Collected (p : Partition n) (done : List (Fin n)) (grouping : Grouping n) : Prop where
  represents : grouping.sets.Represents p
  groups : grouping.groups = (opened p done).map fun label => done.filter fun i => p.labels[i] = label
  taken {root : Fin n} {slot : Nat} (isRoot : grouping.sets.IsRoot root) (known : grouping.slots[root] = some slot) :
    (opened p done)[slot]? = some p.labels[root]
  free {root : Fin n} (isRoot : grouping.sets.IsRoot root) (unknown : grouping.slots[root] = none) :
    p.labels[root] ∉ opened p done

theorem start_collected {sets : DisjointSets n} (represents : sets.Represents p) : Collected p [] (start sets) := by
  refine ⟨represents, rfl, ?_, ?_⟩
  · intro root slot _ known
    simp [start] at known
  · intro root _ _
    exact List.not_mem_nil

/-- Sites are looked at in ascending order. -/
theorem mem_done (order : done ++ i :: rest = List.finRange n) (j : Fin n) : j ∈ done ↔ j < i := by
  have sorted : (done ++ i :: rest).Pairwise (· < ·) := order ▸ List.pairwise_lt_finRange n
  obtain ⟨_, above, before⟩ := List.pairwise_append.mp sorted
  constructor
  · intro member
    exact before j member i List.mem_cons_self
  · intro less
    have all : j ∈ done ++ i :: rest := order ▸ List.mem_finRange j
    rcases List.mem_append.mp all with member | later
    · exact member
    · rcases List.mem_cons.mp later with rfl | later
      · exact absurd less (lt_irrefl j)
      · exact absurd (less.trans ((List.pairwise_cons.mp above).1 j later)) (lt_irrefl j)

theorem mem_opened (order : done ++ i :: rest = List.finRange n) (j : Fin n) :
    j ∈ opened p done ↔ j < i ∧ p.labels[j] = j := by
  simp [opened, mem_done order]

/-- A root that has a group puts the next site into it. -/
theorem Collected.fill (collected : Collected p done grouping) (order : done ++ i :: rest = List.finRange n)
    {sets : DisjointSets n} {root : Fin n} {slot : Nat} (lookup : grouping.sets.Lookup p i sets root)
    (slotted : grouping.slots[root] = some slot) :
    Collected p (done ++ [i]) { grouping with sets, groups := grouping.groups.modify slot (· ++ [i]) } := by
  have place := collected.taken ((lookup.roots root).mp lookup.isRoot) slotted
  rw [lookup.label] at place
  have earlier := ((mem_opened order _).mp (List.mem_of_getElem? place)).1
  have same : opened p (done ++ [i]) = opened p done := by simp [opened, earlier.ne]
  have all : (done ++ i :: rest).Nodup := order ▸ List.nodup_finRange n
  have distinct : (opened p done).Nodup := all.of_append_left.filter _
  refine ⟨lookup.represents, ?_, ?_, ?_⟩
  · rw [same]
    refine List.ext_getElem? fun index => ?_
    rw [List.getElem?_modify, collected.groups, List.getElem?_map, List.getElem?_map]
    cases listed : (opened p done)[index]? with
    | none => rfl
    | some label =>
      have own : slot = index ↔ p.labels[i] = label := by
        constructor
        · rintro rfl
          exact Option.some.inj (place.symm.trans listed)
        · rintro rfl
          exact (List.getElem?_inj (List.getElem?_eq_some_iff.mp place).1 distinct).mp (place.trans listed.symm)
      by_cases here : slot = index
      · simp [own.mp here, here]
      · simp [here, own.not.mp here]
  · intro other index isRoot known
    rw [same]
    exact collected.taken ((lookup.roots other).mp isRoot) known
  · intro other isRoot unknown
    rw [same]
    exact collected.free ((lookup.roots other).mp isRoot) unknown

/-- A root without a group opens one, because the site is the first of its group. -/
theorem Collected.append (collected : Collected p done grouping) (settled : p.Settled)
    (order : done ++ i :: rest = List.finRange n) {sets : DisjointSets n} {root : Fin n}
    (lookup : grouping.sets.Lookup p i sets root) (vacant : grouping.slots[root] = none) :
    Collected p (done ++ [i]) {
      sets
      slots := grouping.slots.put root (some grouping.groups.length)
      groups := grouping.groups ++ [[i]] } := by
  have missing := collected.free ((lookup.roots root).mp lookup.isRoot) vacant
  rw [lookup.label, mem_opened order, not_and] at missing
  have own : p.labels[i] = i := by
    by_contra other
    exact missing (lt_of_le_of_ne (settled.smallest i) other) (settled.own i)
  have longer : opened p (done ++ [i]) = opened p done ++ [i] := by simp [opened, own]
  refine ⟨lookup.represents, ?_, ?_, ?_⟩
  · have old : ∀ label ∈ opened p done, ((done ++ [i]).filter fun j => p.labels[j] = label) =
        done.filter fun j => p.labels[j] = label := by
      intro label member
      have different : i ≠ label := (((mem_opened order label).mp member).1).ne'
      simp [own, different]
    have new : ((done ++ [i]).filter fun j => p.labels[j] = i) = [i] := by
      have none : (done.filter fun j => p.labels[j] = i) = [] := by
        refine List.filter_eq_nil_iff.mpr fun j member => ?_
        have less := (settled.smallest j).trans_lt ((mem_done order j).mp member)
        simpa using less.ne
      rw [List.filter_append, none]
      simp [own]
    rw [longer, List.map_append, List.map_congr_left old, List.map_singleton, new, collected.groups]
  · intro other index isRoot known
    rw [longer]
    rw [Vector.at_put] at known
    by_cases same : other = root
    · rw [if_pos same, collected.groups, List.length_map] at known
      rw [← Option.some.inj known, List.getElem?_concat_length, same, lookup.label, own]
    · rw [if_neg same] at known
      have place := collected.taken ((lookup.roots other).mp isRoot) known
      rwa [List.getElem?_append_left (List.getElem?_eq_some_iff.mp place).1]
  · intro other isRoot unknown
    rw [Vector.at_put] at unknown
    have different : other ≠ root := by
      intro same
      rw [if_pos same] at unknown
      contradiction
    rw [if_neg different] at unknown
    rw [longer, List.mem_append, List.mem_singleton, not_or]
    refine ⟨collected.free ((lookup.roots other).mp isRoot) unknown, fun label => different ?_⟩
    refine lookup.represents.unique isRoot lookup.isRoot ?_
    rw [label, lookup.label, own]

theorem Collected.add? (collected : Collected p done grouping) (settled : p.Settled)
    (order : done ++ i :: rest = List.finRange n) :
    ∃ after, grouping.add? i = some after ∧ Collected p (done ++ [i]) after := by
  obtain ⟨sets, root, found, lookup⟩ := collected.represents.find? i
  rw [Grouping.add?, found]
  cases slotted : grouping.slots[root] with
  | some slot =>
    refine ⟨_, ?_, collected.fill order lookup slotted⟩
    simp [slotted]
  | none =>
    refine ⟨_, ?_, collected.append settled order lookup slotted⟩
    simp [slotted]

theorem Collected.addAll? (collected : Collected p done grouping) (settled : p.Settled)
    (order : done ++ rest = List.finRange n) :
    ∃ after, rest.foldlM Grouping.add? grouping = some after ∧ Collected p (List.finRange n) after := by
  induction rest generalizing done grouping with
  | nil =>
    rw [List.append_nil] at order
    exact ⟨grouping, rfl, order ▸ collected⟩
  | cons i rest ih =>
    obtain ⟨next, added, collected⟩ := collected.add? settled order
    obtain ⟨after, all, collected⟩ := ih collected (by rw [List.append_assoc]; exact order)
    refine ⟨after, ?_, collected⟩
    rw [List.foldlM_cons, added]
    exact all

end Grouping

/-- There always are groups, and they are those of the partition by labels. -/
theorem partition?_eq_some {K : Type} [Scalar K] {g : Geometry K} (maxSize : Nat) (links : List (Link g)) :
    partition? maxSize links = some (Partition.ofLinks maxSize (links.mergeSort Link.precedes)).groups := by
  obtain ⟨sets, united, represents⟩ := DisjointSets.unite?_represents maxSize (links.mergeSort Link.precedes)
  obtain ⟨after, collected, groups⟩ := (Grouping.start_collected represents).addAll?
    (Partition.ofLinks_settled maxSize _) (List.nil_append _)
  rw [partition?, united]
  simp only [Option.bind_eq_bind, Option.bind_some, collected, groups.groups]
  rfl

end DanglingBond
