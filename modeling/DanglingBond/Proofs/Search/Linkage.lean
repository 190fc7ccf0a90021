import Mathlib
import DanglingBond.Proofs.Geometry.Repulsion
import DanglingBond.Proofs.Scalar.Sorting
import DanglingBond.Proofs.Search.Grouping

/-!
Single linkage under a size limit. Every join keeps the groups connected by near sites and within the limit
(`Linked.join`). A link at which two groups stay apart is one where they were too large together, and groups
only grow, so they never fit later (`Decided.join`). What the joins come to is therefore said without them
(`SingleLinkage`). The links are sorted by an order in which no two of them tie, so it does not matter how they
were listed (`Link.mergeSort_eq_of_perm`). On a layout, sites are near by their distance
(`single_linkage_ofLayout`).
-/

namespace DanglingBond

namespace Partition

variable {n maxSize : Nat} {near : SimpleGraph (Fin n)} {p : Partition n}

theorem decided_join (maxSize : Nat) (p : Partition n) (i j : Fin n) : (p.join maxSize i j).Decided maxSize i j := by
  by_cases decided : p.Decided maxSize i j
  · rwa [join_of_decided decided]
  · left
    rw [labels_join decided, labels_join decided, if_pos (by simp), if_pos (by simp)]

/-- What a join has decided stays so whatever is joined later. -/
theorem Decided.join {k l : Fin n} (decided : p.Decided maxSize k l) (i j : Fin n) :
    (p.join maxSize i j).Decided maxSize k l := by
  rcases decided with same | large
  · left
    exact mem_fellows.mp (fellows_subset_join maxSize p i j l (mem_fellows.mpr same))
  · right
    have first := Finset.card_le_card (fellows_subset_join maxSize p i j k)
    have second := Finset.card_le_card (fellows_subset_join maxSize p i j l)
    omega

/-- The groups are within the size limit and connected by near sites. -/
structure Linked (near : SimpleGraph (Fin n)) (maxSize : Nat) (p : Partition n) : Prop where
  settled : p.Settled
  small (i : Fin n) : (p.fellows i).card ≤ maxSize
  connected (i : Fin n) : (near.induce (p.fellows i : Set (Fin n))).Connected

theorem discrete_linked (near : SimpleGraph (Fin n)) (room : 1 ≤ maxSize) : Linked near maxSize (discrete n) := by
  refine ⟨discrete_settled n, ?_, ?_⟩
  · intro i
    rw [fellows_discrete, Finset.card_singleton]
    exact room
  · intro i
    rw [fellows_discrete, Finset.coe_singleton]
    exact SimpleGraph.Connected.of_subsingleton

theorem Linked.join (linked : Linked near maxSize p) {i j : Fin n} (close : near.Adj i j) :
    Linked near maxSize (p.join maxSize i j) := by
  by_cases decided : p.Decided maxSize i j
  · rwa [join_of_decided decided]
  · have room : (p.fellows i).card + (p.fellows j).card ≤ maxSize := not_lt.mp (not_or.mp decided).2
    refine ⟨linked.settled.join maxSize i j, ?_, ?_⟩
    · intro k
      rw [fellows_join decided]
      split
      · exact (Finset.card_union_le _ _).trans room
      · exact linked.small k
    · intro k
      rw [fellows_join decided]
      by_cases inside : k ∈ p.fellows i ∪ p.fellows j
      · rw [if_pos inside, Finset.coe_union]
        exact SimpleGraph.connected_induce_union (linked.connected i).preconnected (linked.connected j).preconnected
          (by simp) (by simp) close
      · rw [if_neg inside]
        exact linked.connected k

/-- After all joins along near links the groups are as they should be, and every link is decided. -/
theorem ofLinks_linked {K : Type} {g : Geometry K} {near : SimpleGraph (Fin g.size)} (room : 1 ≤ maxSize)
    {links : List (Link g)} (close : ∀ link ∈ links, near.Adj link.first link.second) :
    Linked near maxSize (ofLinks maxSize links) ∧
      ∀ link ∈ links, (ofLinks maxSize links).Decided maxSize link.first link.second := by
  induction links using List.reverseRecOn with
  | nil => exact ⟨discrete_linked near room, nofun⟩
  | append_singleton links link ih =>
    obtain ⟨linked, decided⟩ := ih fun earlier member => close earlier (List.mem_append_left _ member)
    rw [ofLinks_concat]
    refine ⟨linked.join (close link (by simp)), fun other member => ?_⟩
    rcases List.mem_append.mp member with earlier | last
    · exact (decided other earlier).join _ _
    · rw [List.mem_singleton.mp last]
      exact decided_join maxSize _ _ _

/-- What single linkage under a size limit comes to: groups of sites that are near each other. -/
structure SingleLinkage (near : SimpleGraph (Fin n)) (maxSize : Nat) (groups : List (List (Fin n))) : Prop where
  /-- Every site is in exactly one group. -/
  shared : groups.flatten.Perm (List.finRange n)
  ascending : ∀ group ∈ groups, group.Pairwise (· < ·)
  small : ∀ group ∈ groups, group.length ≤ maxSize
  /-- A group has a site, and near sites of the same group lead from it to all others. -/
  connected : ∀ group ∈ groups, (near.induce {i | i ∈ group}).Connected
  /-- The groups are in the order of their smallest sites. -/
  ordered : groups.Pairwise fun first second => ∃ i ∈ first, ∀ j ∈ second, i < j
  /-- Groups with near sites are apart only because they are too large together. -/
  maximal : ∀ first ∈ groups, ∀ second ∈ groups, first ≠ second →
    (∃ i ∈ first, ∃ j ∈ second, near.Adj i j) → maxSize < first.length + second.length

theorem Linked.singleLinkage (linked : Linked near maxSize p)
    (decided : ∀ i j : Fin n, near.Adj i j → p.Decided maxSize i j) : SingleLinkage near maxSize p.groups := by
  refine ⟨groups_perm linked.settled, ?_, ?_, ?_, ?_, ?_⟩
  · intro group listed
    obtain ⟨label, _, rfl⟩ := mem_groups.mp listed
    exact (List.pairwise_lt_finRange n).filter _
  · intro group listed
    obtain ⟨label, own, rfl⟩ := mem_groups.mp listed
    rw [← own, length_group]
    exact linked.small label
  · intro group listed
    obtain ⟨label, own, rfl⟩ := mem_groups.mp listed
    have members : {i | i ∈ p.group label} = (p.fellows label : Set (Fin n)) := by
      ext i
      simp [mem_group, own]
    rw [members]
    exact linked.connected label
  · refine List.pairwise_map.mpr (((List.pairwise_lt_finRange n).filter _).imp_of_mem ?_)
    intro first second firstOwn _ less
    simp only [List.mem_filter, List.mem_finRange, true_and, decide_eq_true_eq] at firstOwn
    refine ⟨first, mem_group.mpr firstOwn, fun j member => less.trans_le ?_⟩
    rw [← mem_group.mp member]
    exact linked.settled.smallest j
  · rintro _ listed _ otherListed different ⟨i, first, j, second, close⟩
    obtain ⟨label, own, rfl⟩ := mem_groups.mp listed
    obtain ⟨other, otherOwn, rfl⟩ := mem_groups.mp otherListed
    rw [← mem_group.mp first, ← mem_group.mp second, length_group, length_group]
    rw [← mem_group.mp first, ← mem_group.mp second] at different
    rcases decided i j close with same | large
    · exact absurd (congrArg p.group same) different
    · exact large

/-- Where the limit does not matter, the groups are the connected components. -/
theorem Linked.labels_eq_iff (linked : Linked near maxSize p)
    (decided : ∀ i j : Fin n, near.Adj i j → p.Decided maxSize i j) (unlimited : n ≤ maxSize) (i j : Fin n) :
    p.labels[i] = p.labels[j] ↔ near.Reachable i j := by
  constructor
  · intro same
    have reached := (linked.connected j).preconnected ⟨i, by simpa using same⟩ ⟨j, by simp⟩
    exact reached.map (SimpleGraph.Embedding.induce _).toHom
  · intro reached
    obtain ⟨walk⟩ := reached
    induction walk with
    | nil => rfl
    | @cons i k j close _ ih =>
      rw [← ih]
      rcases decided i k close with same | large
      · exact same
      · by_contra different
        have apart := fellows_disjoint different
        have all := Finset.card_le_univ (p.fellows i ∪ p.fellows k)
        rw [Finset.card_union_of_disjoint apart, Fintype.card_fin] at all
        omega

end Partition

namespace Link

variable {K : Type} [Scalar K] {g : Geometry K}

/-- Which sites are near: those whose squared distance is below the square of the radius. -/
def nearness (g : Geometry K) (radius : K) : SimpleGraph (Fin g.size) :=
  .fromRel fun i j => i < j ∧ within.isClose g radius i j

theorem mem_within {radius : K} {link : Link g} : link ∈ within g radius ↔
    link.first < link.second ∧ within.isClose g radius link.first link.second ∧
      link.length = g.distance link.first link.second := by
  obtain ⟨length, first, second⟩ := link
  simp only [within, List.mem_flatMap, List.mem_map, List.mem_filter, List.mem_finRange, true_and, decide_eq_true_eq,
    Link.mk.injEq]
  constructor
  · rintro ⟨_, _, ⟨less, close⟩, rfl, rfl, rfl⟩
    exact ⟨less, close, rfl⟩
  · rintro ⟨less, close, rfl⟩
    exact ⟨_, _, ⟨less, close⟩, rfl, rfl, rfl⟩

theorem near_of_mem_within {radius : K} {link : Link g} (listed : link ∈ within g radius) :
    (nearness g radius).Adj link.first link.second := by
  obtain ⟨less, close, _⟩ := mem_within.mp listed
  exact (SimpleGraph.fromRel_adj _ _ _).mpr ⟨less.ne, .inl ⟨less, close⟩⟩

/-- Over exact arithmetic the near sites of a layout are those whose distance is below the radius. -/
theorem nearness_ofLayout {L : Type} [ExactElementary L] (layout : Layout) (params : Parameters L) {radius : L}
    (nonneg : 0 ≤ radius) : nearness (Geometry.ofLayout layout params) radius =
      .fromRel fun i j => (Geometry.ofLayout layout params).distance i j < radius := by
  have close (i j : Fin (Geometry.ofLayout layout params).size) :
      within.isClose (Geometry.ofLayout layout params) radius i j = true ↔
        (Geometry.ofLayout layout params).distance i j < radius := by
    rw [Geometry.distance_ofLayout, mul_self_lt_mul_self_iff (Coord.distance_nonneg _ _ _) nonneg, Coord.distance_mul_self]
    exact decide_eq_true_iff
  ext i j
  have back : (Geometry.ofLayout layout params).distance j i = (Geometry.ofLayout layout params).distance i j := by
    rw [Geometry.distance_ofLayout, Geometry.distance_ofLayout, Coord.distance_comm]
  rw [nearness, SimpleGraph.fromRel_adj, SimpleGraph.fromRel_adj, close, close, back, or_self]
  constructor
  · rintro ⟨apart, ⟨_, short⟩ | ⟨_, short⟩⟩ <;> exact ⟨apart, short⟩
  · rintro ⟨apart, short⟩
    exact ⟨apart, (lt_or_gt_of_ne apart).imp (⟨·, short⟩) (⟨·, short⟩)⟩

theorem exists_of_near {radius : K} {i j : Fin g.size} (close : (nearness g radius).Adj i j) :
    ∃ link ∈ within g radius, link.first = i ∧ link.second = j ∨ link.first = j ∧ link.second = i := by
  rcases ((SimpleGraph.fromRel_adj _ _ _).mp close).2 with ⟨less, close⟩ | ⟨less, close⟩
  · exact ⟨⟨g.distance i j, i, j⟩, mem_within.mpr ⟨less, close, rfl⟩, .inl ⟨rfl, rfl⟩⟩
  · exact ⟨⟨g.distance j i, j, i⟩, mem_within.mpr ⟨less, close, rfl⟩, .inr ⟨rfl, rfl⟩⟩

section
variable [Scalar.LawfulSort K]

/-- Shorter links come first; where two lengths tie, the smaller sites decide. -/
theorem precedes_iff (a b : Link g) : a.precedes b = true ↔ Scalar.sortsBefore a.length b.length = true ∧
    (Scalar.sortsBefore b.length a.length = true → a.first < b.first ∨ a.first = b.first ∧ a.second ≤ b.second) := by
  have total := Scalar.LawfulSort.total a.length b.length
  unfold precedes
  cases before : Scalar.sortsBefore a.length b.length <;> cases after : Scalar.sortsBefore b.length a.length <;>
    simp_all

theorem precedes_trans {a b c : Link g} (first : a.precedes b = true) (second : b.precedes c = true) :
    a.precedes c = true := by
  rw [precedes_iff] at first second ⊢
  refine ⟨Scalar.LawfulSort.trans _ _ _ first.1 second.1, fun back => ?_⟩
  have earlier := first.2 (Scalar.LawfulSort.trans _ _ _ second.1 back)
  have later := second.2 (Scalar.LawfulSort.trans _ _ _ back first.1)
  omega

theorem precedes_total (a b : Link g) : (a.precedes b || b.precedes a) = true := by
  rw [Bool.or_eq_true, precedes_iff, precedes_iff]
  rcases Bool.or_eq_true _ _ ▸ Scalar.LawfulSort.total a.length b.length with before | after
  · by_cases back : Scalar.sortsBefore b.length a.length = true
    · simp only [before, back, true_and, forall_const]
      omega
    · exact .inl ⟨before, fun tie => absurd tie back⟩
  · by_cases back : Scalar.sortsBefore a.length b.length = true
    · simp only [after, back, true_and, forall_const]
      omega
    · exact .inr ⟨after, fun tie => absurd tie back⟩

/-- No two links of a geometry tie. -/
theorem eq_of_precedes {radius : K} {a b : Link g} (first : a ∈ within g radius) (second : b ∈ within g radius)
    (before : a.precedes b = true) (after : b.precedes a = true) : a = b := by
  rw [precedes_iff] at before after
  have order := before.2 after.1
  have reverse := after.2 before.1
  have firsts : a.first = b.first := by omega
  have seconds : a.second = b.second := by omega
  obtain ⟨_, _, length⟩ := mem_within.mp first
  obtain ⟨_, _, otherLength⟩ := mem_within.mp second
  obtain ⟨_, i, j⟩ := a
  obtain ⟨_, k, l⟩ := b
  simp only at firsts seconds length otherLength
  rw [length, otherLength, firsts, seconds]

/-- Sorted, the links do not depend on the order in which they are found. -/
theorem mergeSort_eq_of_perm {radius : K} {links : List (Link g)} (listed : links.Perm (within g radius)) :
    links.mergeSort precedes = (within g radius).mergeSort precedes := by
  have sorted (links : List (Link g)) : (links.mergeSort precedes).Pairwise fun a b => a.precedes b = true := by
    apply List.pairwise_mergeSort
    · intro a b c first second
      exact precedes_trans first second
    · exact precedes_total
  refine List.Perm.eq_of_pairwise ?_ (sorted _) (sorted _)
    (((List.mergeSort_perm _ _).trans listed).trans (List.mergeSort_perm _ _).symm)
  intro a b first second
  exact eq_of_precedes (listed.subset (List.mem_mergeSort.mp first)) (List.mem_mergeSort.mp second)

end

end Link

namespace Partition

variable {K : Type} [Scalar K] {g : Geometry K} {radius : K} {maxSize : Nat}

theorem linked_of_perm (room : 1 ≤ maxSize) {links : List (Link g)} (listed : links.Perm (Link.within g radius)) :
    Linked (Link.nearness g radius) maxSize (ofLinks maxSize (links.mergeSort Link.precedes)) ∧
      ∀ i j, (Link.nearness g radius).Adj i j →
        (ofLinks maxSize (links.mergeSort Link.precedes)).Decided maxSize i j := by
  have sorted := (List.mergeSort_perm links Link.precedes).trans listed
  obtain ⟨linked, decided⟩ := ofLinks_linked room fun link member => Link.near_of_mem_within (sorted.subset member)
  refine ⟨linked, fun i j near => ?_⟩
  obtain ⟨link, member, between⟩ := Link.exists_of_near near
  have ruled := decided link (sorted.symm.subset member)
  rcases between with ⟨rfl, rfl⟩ | ⟨rfl, rfl⟩
  · exact ruled
  · exact ruled.symm

end Partition

/-- Whatever the sites of a geometry, the radius and the size limit, and in whatever order the links between
    near sites are found, every lookup in the sets ends and there are groups. The sites are shared out among
    them in the order of their smallest sites. Every group is ascending, within the limit and connected by near
    sites, and of two groups with near sites the sizes add up to more than the limit. So without a limit the
    groups are the connected components. Whichever links have been joined, the parents of every site lead up to
    a root in few steps, the size of a root is that of its set, and a lookup ends there and changes no set. -/
theorem partition_single_linkage {K : Type} [Scalar K] [Scalar.LawfulSort K] (g : Geometry K) (radius : K) {maxSize : Nat}
    (room : 1 ≤ maxSize) {links : List (Link g)} (listed : links.Perm (Link.within g radius)) :
    ∃ groups, partition? maxSize links = some groups ∧
      Partition.SingleLinkage (Link.nearness g radius) maxSize groups ∧
      (g.size ≤ maxSize → ∀ i j, (∃ group ∈ groups, i ∈ group ∧ j ∈ group) ↔ (Link.nearness g radius).Reachable i j) ∧
      partition? maxSize (Link.within g radius) = some groups ∧
      ∀ joined : List (Link g), ∃ sets, DisjointSets.unite? maxSize joined = some sets ∧ sets.Kept := by
  obtain ⟨linked, decided⟩ := Partition.linked_of_perm room listed
  refine ⟨_, partition?_eq_some maxSize links, linked.singleLinkage decided, ?_, ?_, ?_⟩
  · intro unlimited i j
    rw [Partition.together_iff linked.settled]
    exact linked.labels_eq_iff decided unlimited i j
  · rw [partition?_eq_some, Link.mergeSort_eq_of_perm listed]
  · intro joined
    obtain ⟨sets, united, represents⟩ := DisjointSets.unite?_represents maxSize joined
    exact ⟨sets, united, represents.kept⟩

/-- Three sites in a row, the outer ones as far from the middle one. -/
def Geometry.row : Geometry ℚ where
  size := 3
  sites := #v[⟨⟨0, 0, 0⟩, .normal⟩, ⟨⟨1, 0, 0⟩, .normal⟩, ⟨⟨2, 0, 0⟩, .normal⟩]
  params := .standard
  distances := #v[#v[0, 0.384, 0.768], #v[0.384, 0, 0.384], #v[0.768, 0.384, 0]]
  potentials := #v[#v[0, 0.5, 0.25], #v[0.5, 0, 0.5], #v[0.25, 0.5, 0]]

/-- Half a nanometre does not reach from the first site to the last, but over the middle one the two share a
    group of three. Groups of two at most leave one of them out, whichever link is found first. -/
theorem partition_single_linkage_row :
    (∃ groups, partition? 3 (Link.within Geometry.row (1 / 2)).reverse = some groups ∧
      ∃ group ∈ groups, ⟨0, by decide⟩ ∈ group ∧ ⟨2, by decide⟩ ∈ group) ∧
    ¬ (Link.nearness Geometry.row (1 / 2)).Adj ⟨0, by decide⟩ ⟨2, by decide⟩ ∧
    ∃ groups, partition? 2 (Link.within Geometry.row (1 / 2)).reverse = some groups ∧
      ∀ group ∈ groups, group.length ≤ 2 := by
  have near (i j : Fin Geometry.row.size) : (Link.nearness Geometry.row (1 / 2)).Adj i j ↔
      i ≠ j ∧ (i < j ∧ Link.within.isClose Geometry.row (1 / 2) i j ∨ j < i ∧ Link.within.isClose Geometry.row (1 / 2) j i) :=
    SimpleGraph.fromRel_adj _ i j
  have listed := List.reverse_perm (Link.within Geometry.row (1 / 2))
  obtain ⟨whole, formed, _, components, _⟩ := partition_single_linkage Geometry.row (1 / 2) (by decide : 1 ≤ 3) listed
  obtain ⟨capped, cappedFormed, linkage, _⟩ := partition_single_linkage Geometry.row (1 / 2) (by decide : 1 ≤ 2) listed
  refine ⟨⟨whole, formed, (components (by decide) _ _).mpr ?_⟩, ?_, capped, cappedFormed, linkage.small⟩
  · have first : (Link.nearness Geometry.row (1 / 2)).Adj ⟨0, by decide⟩ ⟨1, by decide⟩ := (near _ _).mpr (by decide +kernel)
    have second : (Link.nearness Geometry.row (1 / 2)).Adj ⟨1, by decide⟩ ⟨2, by decide⟩ := (near _ _).mpr (by decide +kernel)
    exact first.reachable.trans second.reachable
  · rw [near]
    decide +kernel

/-- Over exact arithmetic the groups of a layout are linked by the distances of its sites. -/
theorem single_linkage_ofLayout {L : Type} [ExactElementary L] (layout : Layout) (params : Parameters L) {radius : L}
    (nonneg : 0 ≤ radius) {maxSize : Nat} (room : 1 ≤ maxSize) :
    ∃ groups, partition? maxSize (Link.within (Geometry.ofLayout layout params) radius) = some groups ∧
      Partition.SingleLinkage (.fromRel fun i j => (Geometry.ofLayout layout params).distance i j < radius) maxSize
        groups := by
  obtain ⟨linked, decided⟩ := Partition.linked_of_perm room
    (List.Perm.refl (Link.within (Geometry.ofLayout layout params) radius))
  rw [Link.nearness_ofLayout layout params nonneg] at linked decided
  exact ⟨_, partition?_eq_some maxSize _, linked.singleLinkage decided⟩

end DanglingBond
