import Mathlib
import DanglingBond.Proofs.Search.Clustered

/-!
Pruning leaves the greatest self-consistent family of candidates. A family is self-consistent when every
candidate may be stable at each of its sites between the sums of the smallest and of the largest potentials
that the other clusters of the same family induce (`SelfConsistent`). A larger family bounds less, so what
stands in a family stands in every larger one (`Stands.mono`), and no self-consistent family ever loses a
candidate, whichever clusters are filtered and in whatever order (`strikeAll_within`). When nothing more
is struck out the family is self-consistent itself, and thereby the greatest one (`prune_greatest`).
-/

namespace DanglingBond

/-- Leaving out the entries of one number keeps two lists related. -/
theorem forall₂_eraseIdx {α β : Type} {R : α → β → Prop} {as : List α} {bs : List β} (related : List.Forall₂ R as bs)
    (index : Nat) : List.Forall₂ R (as.eraseIdx index) (bs.eraseIdx index) := by
  rw [List.eraseIdx_eq_take_drop_succ, List.eraseIdx_eq_take_drop_succ]
  exact List.rel_append (List.forall₂_take index related) (List.forall₂_drop (index + 1) related)

section
variable {K : Type} {g : Geometry K}

namespace Cluster

/-- The same sites, and no candidate that the wider cluster lacks. -/
structure Within (narrow wide : Cluster g) : Prop where
  sites : narrow.sites = wide.sites
  candidates : narrow.candidates ⊆ wide.candidates

/-- What is left of a cluster when some of its candidates are struck out. -/
structure LeftOf (left cluster : Cluster g) : Prop where
  sites : left.sites = cluster.sites
  candidates : ∃ keep : List Charge → Bool, left.candidates = cluster.candidates.filter keep

theorem LeftOf.refl (cluster : Cluster g) : cluster.LeftOf cluster :=
  ⟨rfl, fun _ => true, (List.filter_eq_self.mpr fun _ _ => rfl).symm⟩

theorem LeftOf.trans {left between cluster : Cluster g} (later : left.LeftOf between) (earlier : between.LeftOf cluster) :
    left.LeftOf cluster := by
  obtain ⟨sites, keep, candidates⟩ := later
  obtain ⟨sites', keep', candidates'⟩ := earlier
  refine ⟨sites.trans sites', fun candidate => keep candidate && keep' candidate, ?_⟩
  rw [candidates, candidates', List.filter_filter]

theorem LeftOf.sublist {left cluster : Cluster g} (struck : left.LeftOf cluster) :
    left.candidates.Sublist cluster.candidates := by
  obtain ⟨keep, candidates⟩ := struck.candidates
  rw [candidates]
  exact List.filter_sublist

@[ext] theorem ext {cluster other : Cluster g} (sites : cluster.sites = other.sites)
    (candidates : cluster.candidates = other.candidates) : cluster = other := by
  cases cluster
  cases other
  exact congrArg₂ Cluster.mk sites candidates

theorem LeftOf.within {left cluster : Cluster g} (struck : left.LeftOf cluster) : left.Within cluster :=
  ⟨struck.sites, struck.sublist.subset⟩

/-- Candidates may be listed twice, but two remainders with the same candidates list them equally often. -/
theorem LeftOf.antisymm {left other cluster : Cluster g} (struck : left.LeftOf cluster) (struck' : other.LeftOf cluster)
    (within : left.Within other) (within' : other.Within left) : left = other := by
  obtain ⟨keep, candidates⟩ := struck.candidates
  obtain ⟨keep', candidates'⟩ := struck'.candidates
  have same : left.candidates = other.candidates := by
    rw [candidates, candidates']
    refine List.filter_congr fun candidate member => Bool.eq_iff_iff.mpr ⟨?_, ?_⟩
    · intro kept
      have inside : candidate ∈ left.candidates := candidates ▸ List.mem_filter.mpr ⟨member, kept⟩
      exact (List.mem_filter.mp (candidates' ▸ within.candidates inside)).2
    · intro kept
      have inside : candidate ∈ other.candidates := candidates' ▸ List.mem_filter.mpr ⟨member, kept⟩
      exact (List.mem_filter.mp (candidates ▸ within'.candidates inside)).2
  exact ext within.sites same

theorem LeftOf.eq_of_length_le {left cluster : Cluster g} (struck : left.LeftOf cluster)
    (length : cluster.candidates.length ≤ left.candidates.length) : left = cluster :=
  ext struck.sites (struck.sublist.eq_of_length_le length)

end Cluster

namespace Clustered

theorem leftOf_trans {left between clusters : List (Cluster g)} (later : List.Forall₂ Cluster.LeftOf left between)
    (earlier : List.Forall₂ Cluster.LeftOf between clusters) : List.Forall₂ Cluster.LeftOf left clusters := by
  induction later generalizing clusters with
  | nil => exact earlier
  | cons head _ ih =>
    cases earlier with
    | cons first others => exact .cons (head.trans first) (ih others)

theorem leftOf_antisymm {left other clusters : List (Cluster g)} (struck : List.Forall₂ Cluster.LeftOf left clusters)
    (struck' : List.Forall₂ Cluster.LeftOf other clusters) (within : List.Forall₂ Cluster.Within left other)
    (within' : List.Forall₂ Cluster.Within other left) : left = other := by
  induction struck generalizing other with
  | nil =>
    cases within
    rfl
  | cons head _ ih =>
    cases struck' with
    | cons head' rest' =>
      obtain _ | ⟨first, others⟩ := within
      obtain _ | ⟨first', others'⟩ := within'
      rw [head.antisymm head' first first', ih rest' others others']

theorem candidateCount_cons (cluster : Cluster g) (clusters : List (Cluster g)) :
    candidateCount (cluster :: clusters) = cluster.candidates.length + candidateCount clusters := by
  simp only [candidateCount, ← List.sum_eq_foldl, List.map_cons, List.sum_cons]

theorem candidateCount_le {left clusters : List (Cluster g)} (struck : List.Forall₂ Cluster.LeftOf left clusters) :
    candidateCount left ≤ candidateCount clusters := by
  induction struck with
  | nil => exact le_rfl
  | cons head _ ih =>
    rw [candidateCount_cons, candidateCount_cons]
    exact Nat.add_le_add head.sublist.length_le ih

/-- Where no candidate is missing nothing was struck out. -/
theorem eq_of_candidateCount_le {left clusters : List (Cluster g)} (struck : List.Forall₂ Cluster.LeftOf left clusters)
    (count : candidateCount clusters ≤ candidateCount left) : left = clusters := by
  induction struck with
  | nil => rfl
  | cons head rest ih =>
    rw [candidateCount_cons, candidateCount_cons] at count
    have fewer := head.sublist.length_le
    have others := candidateCount_le rest
    rw [head.eq_of_length_le (by omega), ih (by omega)]

/-- The family of what one assignment gives to the clusters. -/
def restrictions (clusters : List (Cluster g)) (charges : Vector Charge g.size) : List (Cluster g) :=
  clusters.map fun cluster => ⟨cluster.sites, [Cluster.candidateOf charges cluster.sites]⟩

theorem restrictions_within {clusters : List (Cluster g)} {charges : Vector Charge g.size} (holds : Holds clusters charges) :
    List.Forall₂ Cluster.Within (restrictions clusters charges) clusters :=
  List.forall₂_map_left_iff.mpr (List.forall₂_same.mpr fun cluster member =>
    ⟨rfl, List.forall_mem_singleton.mpr (holds cluster member)⟩)

theorem holds_of_restrictions_within {clusters wide : List (Cluster g)} {charges : Vector Charge g.size}
    (within : List.Forall₂ Cluster.Within (restrictions clusters charges) wide) : Holds wide charges := by
  replace within := List.forall₂_map_left_iff.mp within
  induction within with
  | nil => exact List.forall_mem_nil _
  | cons head _ ih =>
    obtain ⟨sites, candidates⟩ := head
    refine List.forall_mem_cons.mpr ⟨?_, ih⟩
    rw [← sites]
    exact candidates List.mem_cons_self

end Clustered

end

variable {K : Type} [ExactScalar K] {g : Geometry K}

namespace Cluster

/-- The potentials that the candidates induce at a site. -/
def contributions (cluster : Cluster g) (site : Fin g.size) : Set K :=
  {v | ∃ candidate ∈ cluster.candidates, contribution cluster.sites candidate site = v}

theorem reach_eq_between_iff {cluster : Cluster g} {site : Fin g.size} {low high : K} :
    cluster.reach[site] = .between low high ↔
      IsLeast (cluster.contributions site) low ∧ IsGreatest (cluster.contributions site) high := by
  simp only [reach, Vector.at_ofFn, PotentialRange.hull_eq_between_iff, List.min?_eq_some_iff, List.max?_eq_some_iff,
    IsLeast, IsGreatest, lowerBounds, upperBounds, contributions, List.mem_map, Set.mem_ofPred_eq]

/-- A cluster with candidates has a smallest and a largest contribution to every site. -/
theorem exists_reach {cluster : Cluster g} {candidate : List Charge} (member : candidate ∈ cluster.candidates)
    (site : Fin g.size) : ∃ low high, cluster.reach[site] = .between low high := by
  have listed : contribution cluster.sites candidate site ∈
      cluster.candidates.map fun candidate => contribution cluster.sites candidate site := List.mem_map_of_mem member
  simp only [reach, Vector.at_ofFn]
  exact (PotentialRange.hull_contains listed).exists_between

end Cluster

namespace Clustered

/-- The smallest potentials that the clusters induce at a site sum up to `low`, and the largest to `high`. -/
inductive Spans (site : Fin g.size) : List (Cluster g) → K → K → Prop
  | nil : Spans site [] 0 0
  | cons {cluster : Cluster g} {clusters : List (Cluster g)} {low high low' high' : K} :
      IsLeast (cluster.contributions site) low → IsGreatest (cluster.contributions site) high →
      Spans site clusters low' high' → Spans site (cluster :: clusters) (low + low') (high + high')

/-- The candidate may be stable at each of its sites, with what it induces there itself and with what the
    other clusters induce at least and at most. -/
def Stands (checker : Checker K) (others : List (Cluster g)) (sites : List (Fin g.size)) (candidate : List Charge) :
    Prop :=
  ∀ entry ∈ sites.zip candidate, ∃ low high, Spans entry.1 others low high ∧
    checker.MayBeStable g.params entry.2 (Cluster.contribution sites candidate entry.1 + low)
      (Cluster.contribution sites candidate entry.1 + high)

/-- Every candidate of the family stands among the other clusters of the same family. -/
def SelfConsistent (checker : Checker K) (family : List (Cluster g)) : Prop :=
  ∀ (index : Nat) (inside : index < family.length), ∀ candidate ∈ family[index].candidates,
    Stands checker (family.eraseIdx index) family[index].sites candidate

theorem foldl_reach_eq_between_iff {site : Fin g.size} {clusters : List (Cluster g)} {start : Reach g} {low high : K} :
    ((clusters.map Cluster.reach).foldl Reach.add start)[site] = .between low high ↔
      ∃ low₁ high₁ low₂ high₂, start[site] = .between low₁ high₁ ∧ Spans site clusters low₂ high₂ ∧
        low₁ + low₂ = low ∧ high₁ + high₂ = high := by
  induction clusters generalizing start with
  | nil =>
    constructor
    · intro before
      exact ⟨low, high, 0, 0, before, .nil, add_zero low, add_zero high⟩
    · rintro ⟨low₁, high₁, _, _, before, ⟨⟩, rfl, rfl⟩
      rw [add_zero, add_zero]
      exact before
  | cons cluster clusters ih =>
    rw [List.map_cons, List.foldl_cons, ih, Reach.at_add]
    simp only [PotentialRange.add_eq_between_iff, Cluster.reach_eq_between_iff]
    constructor
    · rintro ⟨_, _, low₃, high₃, ⟨low₁, high₁, low₂, high₂, before, ⟨least, greatest⟩, rfl, rfl⟩, later, rfl, rfl⟩
      exact ⟨low₁, high₁, _, _, before, .cons least greatest later, (add_assoc _ _ _).symm, (add_assoc _ _ _).symm⟩
    · rintro ⟨low₁, high₁, _, _, before, _ | ⟨least, greatest, later⟩, rfl, rfl⟩
      exact ⟨_, _, _, _, ⟨low₁, high₁, _, _, before, ⟨least, greatest⟩, rfl, rfl⟩, later, add_assoc _ _ _, add_assoc _ _ _⟩

/-- The bounds from outside of a cluster, as a round of pruning computes them. -/
def outside (clusters : List (Cluster g)) (index : Nat) : Reach g :=
  ((clusters.map Cluster.reach).eraseIdx index).foldl Reach.add .none

theorem outside_eq_between_iff {clusters : List (Cluster g)} {index : Nat} {site : Fin g.size} {low high : K} :
    (outside clusters index)[site] = .between low high ↔ Spans site (clusters.eraseIdx index) low high := by
  rw [outside, List.eraseIdx_map, foldl_reach_eq_between_iff, Reach.at_none, PotentialRange.zero]
  constructor
  · rintro ⟨_, _, _, _, ⟨⟩, spans, rfl, rfl⟩
    rw [zero_add, zero_add]
    exact spans
  · intro spans
    exact ⟨0, 0, low, high, rfl, spans, zero_add low, zero_add high⟩

theorem survives_iff_stands {checker : Checker K} {clusters : List (Cluster g)} {index : Nat}
    {sites : List (Fin g.size)} {candidate : List Charge} :
    Survives checker (outside clusters index) sites candidate ↔
      Stands checker (clusters.eraseIdx index) sites candidate := by
  simp only [Survives, Stands, Checker.mayBeStableWith_iff, outside_eq_between_iff]

/-- A larger family has wider bounds. -/
theorem Spans.mono {site : Fin g.size} {narrow wide : List (Cluster g)} (within : List.Forall₂ Cluster.Within narrow wide)
    {low high : K} (spans : Spans site narrow low high) :
    ∃ low' high', Spans site wide low' high' ∧ low' ≤ low ∧ high ≤ high' := by
  induction within generalizing low high with
  | nil => exact ⟨low, high, spans, le_rfl, le_rfl⟩
  | @cons cluster wider clusters others first _ ih =>
    obtain _ | ⟨least, greatest, later⟩ := spans
    obtain ⟨low', high', spans, below, above⟩ := ih later
    have included : cluster.contributions site ⊆ wider.contributions site := by
      rintro _ ⟨candidate, member, rfl⟩
      exact ⟨candidate, first.candidates member, by rw [first.sites]⟩
    obtain ⟨candidate, member, _⟩ := least.1
    obtain ⟨lowest, highest, reach⟩ := Cluster.exists_reach (first.candidates member) site
    obtain ⟨least', greatest'⟩ := Cluster.reach_eq_between_iff.mp reach
    exact ⟨lowest + low', highest + high', .cons least' greatest' spans, add_le_add (least.mono least' included) below,
      add_le_add (greatest.mono greatest' included) above⟩

/-- What stands among some clusters stands among clusters with more candidates. -/
theorem Stands.mono {checker : Checker K} {narrow wide : List (Cluster g)}
    (within : List.Forall₂ Cluster.Within narrow wide) {sites : List (Fin g.size)} {candidate : List Charge}
    (stands : Stands checker narrow sites candidate) : Stands checker wide sites candidate := by
  intro entry member
  obtain ⟨low, high, spans, may⟩ := stands entry member
  obtain ⟨low', high', wider, below, above⟩ := spans.mono within
  exact ⟨low', high', wider, may.mono (add_le_add_right below _) (add_le_add_right above _)⟩

/-- Strikes out of the clusters whose turn it is the candidates that the present bounds of the others exclude. -/
def strike (checker : Checker K) (clusters : List (Cluster g)) (turn : List Nat) : List (Cluster g) :=
  clusters.mapIdx fun index cluster =>
    if index ∈ turn then
      { cluster with
        candidates := cluster.candidates.filter fun candidate =>
          Survives checker (outside clusters index) cluster.sites candidate }
    else cluster

section
variable {checker : Checker K} {clusters : List (Cluster g)} {turn : List Nat}

/-- A round of pruning is the turn of all clusters. -/
theorem pruneOnce_eq_strike (checker : Checker K) (clusters : List (Cluster g)) :
    pruneOnce checker clusters = strike checker clusters (List.range clusters.length) := by
  refine List.ext_getElem (by simp [pruneOnce, strike]) fun index first second => ?_
  have inside : index < clusters.length := by simpa [strike] using second
  simp only [pruneOnce, strike, List.getElem_mapIdx, List.mem_range, inside, if_true]
  rfl

@[simp] theorem strike_length : (strike checker clusters turn).length = clusters.length := List.length_mapIdx

theorem mem_strike {index : Nat} {candidate : List Charge} (inside : index < clusters.length)
    (left : index < (strike checker clusters turn).length) :
    candidate ∈ (strike checker clusters turn)[index].candidates ↔
      candidate ∈ clusters[index].candidates ∧
        (index ∈ turn → Stands checker (clusters.eraseIdx index) clusters[index].sites candidate) := by
  rw [← survives_iff_stands]
  by_cases named : index ∈ turn
  · simp [strike, named]
  · simp [strike, named]

theorem strike_leftOf (checker : Checker K) (clusters : List (Cluster g)) (turn : List Nat) :
    List.Forall₂ Cluster.LeftOf (strike checker clusters turn) clusters := by
  refine List.forall₂_iff_get.mpr ⟨strike_length, fun index _ inside => ?_⟩
  by_cases named : index ∈ turn
  · simp only [strike, named, List.get_eq_getElem, List.getElem_mapIdx, if_true]
    exact ⟨rfl, _, rfl⟩
  · simp only [strike, named, List.get_eq_getElem, List.getElem_mapIdx, if_false]
    exact .refl _

/-- No turn strikes anything out of a self-consistent family. -/
theorem strike_within {family : List (Cluster g)} (consistent : SelfConsistent checker family)
    (within : List.Forall₂ Cluster.Within family clusters) (turn : List Nat) :
    List.Forall₂ Cluster.Within family (strike checker clusters turn) := by
  have length := within.length_eq
  refine List.forall₂_iff_get.mpr ⟨length.trans strike_length.symm, fun index inside left => ?_⟩
  have listed : index < clusters.length := length ▸ inside
  obtain ⟨sites, candidates⟩ := within.get inside listed
  have kept := ((strike_leftOf checker clusters turn).get left listed).sites
  refine ⟨sites.trans kept.symm, fun candidate member => (mem_strike listed left).mpr ⟨candidates member, fun _ => ?_⟩⟩
  have stands := (consistent index inside candidate member).mono (forall₂_eraseIdx within index)
  rwa [show family[index].sites = clusters[index].sites from sites] at stands

/-- Where the turn of a cluster strikes nothing out, all its candidates stand. -/
theorem stands_of_strike_eq (settled : strike checker clusters turn = clusters) {index : Nat} (named : index ∈ turn)
    (inside : index < clusters.length) {candidate : List Charge} (member : candidate ∈ clusters[index].candidates) :
    Stands checker (clusters.eraseIdx index) clusters[index].sites candidate := by
  have left : index < (strike checker clusters turn).length := by rwa [strike_length]
  rw [← List.getElem_of_eq settled left] at member
  exact ((mem_strike inside left).mp member).2 named

/-- One turn after the other. -/
def strikeAll (checker : Checker K) (clusters : List (Cluster g)) (schedule : List (List Nat)) : List (Cluster g) :=
  schedule.foldl (strike checker) clusters

theorem strikeAll_leftOf (checker : Checker K) (clusters : List (Cluster g)) (schedule : List (List Nat)) :
    List.Forall₂ Cluster.LeftOf (strikeAll checker clusters schedule) clusters := by
  induction schedule generalizing clusters with
  | nil => exact List.forall₂_same.mpr fun cluster _ => .refl cluster
  | cons turn schedule ih => exact leftOf_trans (ih _) (strike_leftOf checker clusters turn)

/-- In whatever order the clusters are filtered, a self-consistent family loses nothing. -/
theorem strikeAll_within {family : List (Cluster g)} (consistent : SelfConsistent checker family)
    (within : List.Forall₂ Cluster.Within family clusters) (schedule : List (List Nat)) :
    List.Forall₂ Cluster.Within family (strikeAll checker clusters schedule) := by
  induction schedule generalizing clusters with
  | nil => exact within
  | cons turn schedule ih => exact ih (strike_within consistent within turn)

/-- Without a time limit pruning ends. It is a number of rounds in which it is the turn of all clusters, and
    what is left is self-consistent unless some cluster has run out of candidates. -/
theorem prune?_spec (checker : Checker K) (round : Nat) (clusters : List (Cluster g)) :
    ∃ rounds result, prune? (fun _ => false) checker round clusters = some result ∧
      strikeAll checker clusters (List.replicate rounds (List.range clusters.length)) = result ∧
      (AllOpen result → SelfConsistent checker result) := by
  fun_induction prune? (fun _ => false) checker round clusters with
  | case1 round clusters expired => contradiction
  | case2 round clusters _ pruned progress ih =>
    have turn : pruned = strike checker clusters (List.range clusters.length) := pruneOnce_eq_strike checker clusters
    obtain ⟨rounds, result, finished, ran, consistent⟩ := ih
    refine ⟨rounds + 1, result, finished, ?_, consistent⟩
    rw [← ran, turn, strike_length, List.replicate_succ]
    rfl
  | case3 round clusters _ pruned settled =>
    have turn : pruned = strike checker clusters (List.range clusters.length) := pruneOnce_eq_strike checker clusters
    refine ⟨1, pruned, rfl, turn.symm, fun allOpen => ?_⟩
    have count : candidateCount clusters ≤ candidateCount pruned := not_lt.mp fun less => settled ⟨allOpen, less⟩
    rw [turn] at count
    have fixed := eq_of_candidateCount_le (strike_leftOf checker clusters _) count
    rw [turn, fixed]
    intro index inside candidate member
    exact stands_of_strike_eq fixed (List.mem_range.mpr inside) inside member

end

/-- An assignment whose charges are all stable is self-consistent by itself. -/
theorem restrictions_selfConsistent {checker : Checker K} {clusters : List (Cluster g)}
    (sites : (sitesOf clusters).Perm (List.finRange g.size)) {charges : Vector Charge g.size}
    (stable : ∀ i : Fin g.size, checker.StateStable g.params charges[i] (Surface.potentialOf g charges i)) :
    SelfConsistent checker (restrictions clusters charges) := by
  have same : sitesOf (restrictions clusters charges) = sitesOf clusters := by simp [sitesOf, restrictions, List.flatMap_map]
  have alone : ∀ cluster ∈ restrictions clusters charges,
      cluster.candidates = [Cluster.candidateOf charges cluster.sites] := by
    intro cluster member
    obtain ⟨_, _, rfl⟩ := List.mem_map.mp member
    rfl
  intro index inside candidate member
  rw [alone _ (List.getElem_mem inside), List.mem_singleton] at member
  rw [member, ← survives_iff_stands]
  refine survives_of_stable (same ▸ sites) stable (fun cluster listed => ?_) inside
  rw [alone cluster listed]
  exact List.mem_cons_self

end Clustered

open Clustered

/-- Pruning clusters that share out the sites among them, by a checker of any tolerance and without a time
    limit, always ends. It only strikes out candidates. Unless some cluster has run out of candidates, the
    result is self-consistent, and in every case it holds every self-consistent family that the clusters held:
    so it is the greatest one. Filtering the clusters in any other order, one or several at a time, until no
    cluster loses anything more ends with the same. No part of a population-stable assignment is ever lost. -/
theorem prune_greatest (checker : Checker K) {initial : List (Cluster g)}
    (sites : (sitesOf initial).Perm (List.finRange g.size)) :
    ∃ result, prune? (fun _ => false) checker 0 initial = some result ∧
      List.Forall₂ (fun pruned cluster => pruned.sites = cluster.sites ∧
        pruned.candidates.Sublist cluster.candidates) result initial ∧
      (AllOpen result → SelfConsistent checker result) ∧
      (∀ family, SelfConsistent checker family → List.Forall₂ Cluster.Within family initial →
        List.Forall₂ Cluster.Within family result) ∧
      (AllOpen result → ∀ schedule final, strikeAll checker initial schedule = final →
        (∀ index, strike checker final [index] = final) → final = result) ∧
      ∀ charges, checker.PopulationStable g.params (Surface.fresh g charges) →
        Holds initial charges → Holds result charges := by
  obtain ⟨rounds, result, finished, pruned, consistent⟩ := prune?_spec checker 0 initial
  have left : List.Forall₂ Cluster.LeftOf result initial := pruned ▸ strikeAll_leftOf checker initial _
  have keeps {family : List (Cluster g)} (steady : SelfConsistent checker family)
      (within : List.Forall₂ Cluster.Within family initial) : List.Forall₂ Cluster.Within family result :=
    pruned ▸ strikeAll_within steady within _
  refine ⟨result, finished, left.imp fun _ _ struck => ⟨struck.sites, struck.sublist⟩, consistent,
    fun _ => keeps, ?_, ?_⟩
  · intro allOpen schedule final ran settled
    have struck : List.Forall₂ Cluster.LeftOf final initial := ran ▸ strikeAll_leftOf checker initial schedule
    have steady : SelfConsistent checker final := fun index inside candidate member =>
      stands_of_strike_eq (settled index) List.mem_cons_self inside member
    have within : List.Forall₂ Cluster.Within final result := keeps steady (struck.imp fun _ _ => (·.within))
    have within' : List.Forall₂ Cluster.Within result final :=
      ran ▸ strikeAll_within (consistent allOpen) (left.imp fun _ _ => (·.within)) schedule
    exact leftOf_antisymm struck left within within'
  · intro charges stable holds
    have stable := Surface.fresh_populationStable_iff.mp stable
    exact holds_of_restrictions_within (keeps (restrictions_selfConsistent sites stable) (restrictions_within holds))

/-- Two sites, each in a cluster of its own with all three charges. -/
def Clustered.pairClusters : List (Cluster Geometry.pair) :=
  (List.finRange Geometry.pair.size).map fun site => Cluster.full 3 [site]

/-- Half a volt lets neither site be positive, and pruning strikes that out; what is left is self-consistent. -/
theorem prune_greatest_pair :
    ∃ result, prune? (fun _ => false) .standard 0 pairClusters = some result ∧
      result.map (·.candidates) = [[[.negative], [.neutral]], [[.negative], [.neutral]]] ∧
      SelfConsistent .standard result := by
  have sites : (sitesOf pairClusters).Perm (List.finRange Geometry.pair.size) := by decide
  obtain ⟨result, finished, _, consistent, _⟩ := prune_greatest .standard sites
  have pruned : (prune? (fun _ => false) .standard 0 pairClusters).map (·.map (·.candidates)) =
      some [[[.negative], [.neutral]], [[.negative], [.neutral]]] := by decide +kernel
  rw [finished] at pruned
  have left : result.map (·.candidates) = [[[.negative], [.neutral]], [[.negative], [.neutral]]] := Option.some.inj pruned
  refine ⟨result, finished, left, consistent fun cluster member => ?_⟩
  have listed : cluster.candidates ∈ result.map (·.candidates) := List.mem_map_of_mem member
  rw [left] at listed
  intro empty
  rw [empty] at listed
  exact absurd listed (by decide)

end DanglingBond
