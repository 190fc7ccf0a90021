import Mathlib
import DanglingBond.Proofs.Search.Descent
import DanglingBond.Proofs.Search.Grouping
import DanglingBond.Proofs.Search.Outcome
import DanglingBond.Random.ChaCha
import DanglingBond.Search.Simulation

/-!
The clustered search is exact. The clusters hold every site once, and among the candidates of each are
the charges that its sites take in a valid assignment (`Sufficient`). Striking out candidates keeps this,
since the bounds of the other clusters contain what their sites induce. Composing the clusters therefore
yields exactly the valid assignments, or some of them when the time limit cuts it (`clustered_exact`).
-/

namespace DanglingBond

open Placement Descent

namespace Reach

variable {K : Type} [Scalar K] {g : Geometry K}

@[simp] theorem at_none (i : Fin g.size) : (none : Reach g)[i] = .zero := by simp [none]

@[simp] theorem at_add (a b : Reach g) (i : Fin g.size) : (add a b)[i] = a[i].add b[i] := by simp [add]

end Reach

namespace Cluster

theorem mem_assignments {states : List Charge} {n : Nat} {candidate : List Charge} :
    candidate ∈ assignments states n ↔ candidate.length = n ∧ ∀ state ∈ candidate, state ∈ states := by
  induction n generalizing candidate with
  | zero =>
    rw [assignments, List.mem_singleton, List.length_eq_zero_iff]
    constructor
    · rintro rfl
      exact ⟨rfl, fun _ member => absurd member List.not_mem_nil⟩
    · exact And.left
  | succ n ih =>
    simp only [assignments, List.mem_flatMap, List.mem_map]
    constructor
    · rintro ⟨state, offered, rest, member, rfl⟩
      obtain ⟨length, states⟩ := ih.mp member
      exact ⟨by rw [List.length_cons, length], List.forall_mem_cons.mpr ⟨offered, states⟩⟩
    · rintro ⟨length, offered⟩
      cases candidate with
      | nil => contradiction
      | cons state rest =>
        obtain ⟨first, others⟩ := List.forall_mem_cons.mp offered
        exact ⟨state, first, rest, ih.mpr ⟨Nat.succ.inj length, others⟩, rfl⟩

theorem assignments_distinct {states : List Charge} (distinct : states.Nodup) (n : Nat) : (assignments states n).Nodup := by
  induction n with
  | zero => exact List.nodup_singleton []
  | succ n ih =>
    refine List.nodup_flatMap.mpr ⟨?_, ?_⟩
    · intro state _
      exact ih.map (List.cons_injective)
    · refine distinct.imp ?_
      intro state other different candidate first second
      obtain ⟨rest, _, rfl⟩ := List.mem_map.mp first
      obtain ⟨otherRest, _, same⟩ := List.mem_map.mp second
      exact different (List.head_eq_of_cons_eq same).symm

section
variable {K : Type} {g : Geometry K}

/-- The charges that an assignment gives to the sites, in the order of the sites. -/
def candidateOf (charges : Vector Charge g.size) (sites : List (Fin g.size)) : List Charge :=
  sites.map fun site => charges[site]

theorem zip_candidateOf (charges : Vector Charge g.size) (sites : List (Fin g.size)) :
    sites.zip (candidateOf charges sites) = restrict charges sites := by
  induction sites with
  | nil => rfl
  | cons site sites ih =>
    rw [candidateOf, List.map_cons, List.zip_cons_cons, restrict_cons]
    exact congrArg ((site, charges[site]) :: ·) ih

end

variable {K : Type} [ExactScalar K] {g : Geometry K}

theorem contribution_eq (sites : List (Fin g.size)) (candidate : List Charge) (i : Fin g.size) :
    contribution sites candidate i = induced (sites.zip candidate) i :=
  Scalar.sumList_eq _

theorem reach_contains {cluster : Cluster g} {charges : Vector Charge g.size}
    (kept : candidateOf charges cluster.sites ∈ cluster.candidates) (i : Fin g.size) :
    cluster.reach[i].Contains (induced (restrict charges cluster.sites) i) := by
  rw [← zip_candidateOf, ← contribution_eq]
  simp only [reach, Vector.at_ofFn]
  exact PotentialRange.hull_contains (List.mem_map_of_mem kept)

/-- The candidates of a cluster are different and charge each of its sites with a charge of the base. -/
structure Fits (cluster : Cluster g) : Prop where
  distinct : cluster.candidates.Nodup
  length : ∀ candidate ∈ cluster.candidates, candidate.length = cluster.sites.length
  uses : ∀ candidate ∈ cluster.candidates, ∀ state ∈ candidate, state ∈ Charge.ofBase g.params.base
  kept : ∀ charges, g.IsValid charges → candidateOf charges cluster.sites ∈ cluster.candidates

theorem full_fits (sites : List (Fin g.size)) : (full g.params.base sites).Fits := by
  refine ⟨assignments_distinct (Charge.ofBase_nodup _) _, ?_, ?_, ?_⟩
  · intro candidate member
    exact (mem_assignments.mp member).1
  · intro candidate member
    exact (mem_assignments.mp member).2
  · intro charges valid
    refine mem_assignments.mpr ⟨List.length_map _, ?_⟩
    intro state member
    obtain ⟨site, _, rfl⟩ := List.mem_map.mp member
    exact valid.1 site

end Cluster

namespace Clustered

section
variable {K : Type} {g : Geometry K}

/-- The sites of all clusters, cluster by cluster. -/
def sitesOf (clusters : List (Cluster g)) : List (Fin g.size) := clusters.flatMap (·.sites)

/-- Each cluster has the charges that the assignment gives to its sites among its candidates. -/
def Holds (clusters : List (Cluster g)) (charges : Vector Charge g.size) : Prop :=
  ∀ cluster ∈ clusters, Cluster.candidateOf charges cluster.sites ∈ cluster.candidates

end

variable {K : Type} [ExactScalar K] {g : Geometry K}

/-- Every site is in one cluster, and no cluster lacks what a valid assignment needs. -/
structure Sufficient (clusters : List (Cluster g)) : Prop where
  sites : (sitesOf clusters).Perm (List.finRange g.size)
  fits : ∀ cluster ∈ clusters, cluster.Fits

theorem none_contains (i : Fin g.size) : (Reach.none : Reach g)[i].Contains 0 := by
  rw [Reach.at_none]
  exact PotentialRange.zero_contains

theorem add_contains {a b : Reach g} {i : Fin g.size} {v w : K} (first : a[i].Contains v) (second : b[i].Contains w) :
    (Reach.add a b)[i].Contains (v + w) := by
  rw [Reach.at_add]
  exact first.add second

theorem induced_sitesOf_cons (charges : Vector Charge g.size) (cluster : Cluster g) (clusters : List (Cluster g))
    (i : Fin g.size) : induced (restrict charges (sitesOf (cluster :: clusters))) i =
      induced (restrict charges cluster.sites) i + induced (restrict charges (sitesOf clusters)) i := by
  rw [sitesOf, List.flatMap_cons, restrict_append, induced_append]
  rfl

/-- The bounds of several clusters contain what their sites induce together. -/
theorem foldl_reach_contains {clusters : List (Cluster g)} {charges : Vector Charge g.size}
    (holds : Holds clusters charges) (i : Fin g.size) {start : Reach g} {v : K} (before : start[i].Contains v) :
    ((clusters.map Cluster.reach).foldl Reach.add start)[i].Contains
      (v + induced (restrict charges (sitesOf clusters)) i) := by
  induction clusters generalizing start v with
  | nil => simpa [sitesOf, restrict, induced] using before
  | cons cluster clusters ih =>
    obtain ⟨first, others⟩ := List.forall_mem_cons.mp holds
    have next := add_contains before (Cluster.reach_contains first i)
    rw [induced_sitesOf_cons, ← add_assoc]
    exact ih others next

theorem reachOfAll_contains {clusters : List (Cluster g)} (fits : ∀ cluster ∈ clusters, cluster.Fits)
    {charges : Vector Charge g.size} (valid : g.IsValid charges) (i : Fin g.size) :
    (reachOfAll clusters)[i].Contains (induced (restrict charges (sitesOf clusters)) i) := by
  induction clusters with
  | nil => exact none_contains i
  | cons cluster clusters ih =>
    obtain ⟨first, others⟩ := List.forall_mem_cons.mp fits
    rw [induced_sitesOf_cons, add_comm]
    exact add_contains (ih others) (Cluster.reach_contains (first.kept charges valid) i)

/-- What the clusters hold of an assignment whose charges are all stable is never struck out. -/
theorem survives_of_stable {checker : Checker K} {clusters : List (Cluster g)}
    (sites : (sitesOf clusters).Perm (List.finRange g.size)) {charges : Vector Charge g.size}
    (stable : ∀ i : Fin g.size, checker.StateStable g.params charges[i] (Surface.potentialOf g charges i))
    (holds : Holds clusters charges) {index : Nat} (inside : index < clusters.length) :
    Survives checker (((clusters.map Cluster.reach).eraseIdx index).foldl Reach.add .none) clusters[index].sites
      (Cluster.candidateOf charges clusters[index].sites) := by
  intro entry member
  rw [Cluster.zip_candidateOf] at member
  obtain ⟨site, _, rfl⟩ := List.mem_map.mp member
  have all : (sitesOf (clusters[index] :: clusters.eraseIdx index)).Perm (List.finRange g.size) :=
    ((List.getElem_cons_eraseIdx_perm inside).flatMap_right _).trans sites
  have others : Holds (clusters.eraseIdx index) charges := fun cluster other =>
    holds cluster (List.mem_of_mem_eraseIdx other)
  have outside := foldl_reach_contains others site (none_contains site)
  rw [zero_add] at outside
  have stable := stable site
  rw [potentialOf_eq_induced all, induced_sitesOf_cons] at stable
  rw [Cluster.contribution_eq, Cluster.zip_candidateOf, List.eraseIdx_map]
  exact stable.mayBeStableWith outside

theorem pruneOnce_sufficient {clusters : List (Cluster g)} (sufficient : Sufficient clusters) :
    Sufficient (pruneOnce .standard clusters) := by
  constructor
  · have same : (pruneOnce .standard clusters).map (·.sites) = clusters.map (·.sites) :=
      List.ext_getElem (by simp [pruneOnce]) (by simp [pruneOnce])
    rw [sitesOf, List.flatMap_def, same, ← List.flatMap_def]
    exact sufficient.sites
  · intro cluster member
    obtain ⟨index, inside, rfl⟩ := List.mem_mapIdx.mp member
    have before := sufficient.fits clusters[index] (List.getElem_mem inside)
    refine ⟨before.distinct.filter _, ?_, ?_, ?_⟩
    · intro candidate left
      exact before.length candidate (List.mem_of_mem_filter left)
    · intro candidate left
      exact before.uses candidate (List.mem_of_mem_filter left)
    · intro charges valid
      refine List.mem_filter.mpr ⟨before.kept charges valid, ?_⟩
      have holds : Holds clusters charges := fun cluster listed => (sufficient.fits cluster listed).kept charges valid
      exact decide_eq_true (survives_of_stable sufficient.sites valid.stateStable holds inside)

/-- However many rounds it takes, pruning leaves what the valid assignments need. -/
theorem prune?_sufficient {isExpired : Nat → Bool} {round : Nat} {clusters pruned : List (Cluster g)}
    (sufficient : Sufficient clusters) (finished : prune? isExpired .standard round clusters = some pruned) :
    Sufficient pruned := by
  fun_induction prune? isExpired .standard round clusters with
  | case1 => contradiction
  | case2 round clusters running next progress ih => exact ih (pruneOnce_sufficient sufficient) finished
  | case3 round clusters running next settled =>
    obtain rfl := Option.some.inj finished
    exact pruneOnce_sufficient sufficient

/-- An early empty cluster means that there is no valid assignment. -/
theorem allOpen_of_valid {clusters : List (Cluster g)} (sufficient : Sufficient clusters)
    {charges : Vector Charge g.size} (valid : g.IsValid charges) : AllOpen clusters := by
  intro cluster member
  exact List.ne_nil_of_mem ((sufficient.fits cluster member).kept charges valid)

/-- Cluster by cluster, the levels charge all sites. -/
theorem levels_plan {clusters : List (Cluster g)} (fits : ∀ cluster ∈ clusters, cluster.Fits)
    {placed : List (Fin g.size)} (all : (placed ++ sitesOf clusters).Perm (List.finRange g.size)) :
    Plan placed (levels clusters) (sitesOf clusters) := by
  induction clusters generalizing placed with
  | nil => exact .done placed
  | cons cluster clusters ih =>
    obtain ⟨first, others⟩ := List.forall_mem_cons.mp fits
    have next : ((placed ++ cluster.sites) ++ sitesOf clusters).Perm (List.finRange g.size) := by
      rw [List.append_assoc]
      exact all
    show Plan placed (levels (cluster :: clusters)) (cluster.sites ++ sitesOf clusters)
    refine .level ?_ ?_ ?_ ?_ ?_ (ih others next)
    · intro option offer
      obtain ⟨candidate, member, rfl⟩ := List.mem_map.mp offer
      exact List.map_fst_zip (first.length candidate member).ge
    · refine List.Nodup.map_on ?_ first.distinct
      intro candidate member other otherMember same
      have states := congrArg (List.map Prod.snd) same
      rwa [List.map_snd_zip (first.length candidate member).le,
        List.map_snd_zip (first.length other otherMember).le] at states
    · intro option offer entry inside
      obtain ⟨candidate, member, rfl⟩ := List.mem_map.mp offer
      exact first.uses candidate member entry.2 (List.of_mem_zip inside).2
    · intro charges valid
      rw [← Cluster.zip_candidateOf]
      exact List.mem_map_of_mem (first.kept charges valid)
    · intro charges valid i
      have contains := reachOfAll_contains others valid i
      rwa [potentialOf_eq_induced next, restrict_append, induced_append, add_sub_cancel_left]

/-- What several branches have done together: their findings in their order, and whether the time limit
    was reached in some of them. -/
def gathered (branches : List (Progress g)) : Progress g :=
  { Progress.start with
    found := (branches.flatMap fun branch => branch.found.reverse).reverse
    timedOut := branches.any (·.timedOut) }

/-- Branches that explore what comes of one option each explore all choices together. -/
theorem gathered_explored {complete : Vector Charge g.size → List (Surface g)} {later : List (Placement g)}
    (options : List (Placement g)) (branch : Nat → Placement g → Progress g)
    (explored : ∀ number, ∀ option ∈ options, ∃ visited,
      Explored complete option later (Progress.start.enter option) (branch number option) visited) :
    ∃ visited, Explored complete [] (options.flatMap fun option => later.map (option ++ ·)) Progress.start
      (gathered (options.mapIdx branch)) visited := by
  induction options generalizing branch with
  | nil =>
    refine ⟨[], List.nil_sublist _, rfl, rfl, id, ?_⟩
    intro _ choice member
    contradiction
  | cons option options ih =>
    obtain ⟨visited, first⟩ := explored 0 option List.mem_cons_self
    obtain ⟨others, rest⟩ := ih (fun number => branch (number + 1)) fun number other member =>
      explored (number + 1) other (List.mem_cons_of_mem option member)
    have first : Explored complete ([] ++ option) later (Progress.start.enter option) (branch 0 option) visited := first
    have below := first.below
    refine ⟨visited.map (option ++ ·) ++ others, below.visits.append rest.visits, ?_, rfl, nofun, ?_⟩
    · have front : (branch 0 option).found.reverse =
          (visited.map (option ++ ·)).flatMap fun choice => complete (leaf [] choice) := by
        rw [show (branch 0 option).found = _ from below.found]
        simp [Progress.start]
      have back : (options.mapIdx fun number => branch (number + 1)).flatMap (fun branch => branch.found.reverse) =
          others.flatMap fun choice => complete (leaf [] choice) := by
        have found := rest.found
        rw [gathered, show (Progress.start : Progress g).found = [] from rfl, List.append_nil] at found
        exact List.reverse_injective found
      rw [gathered, List.mapIdx_cons, List.flatMap_cons, front, back, ← List.flatMap_append]
      exact (List.append_nil _).symm
    · intro running choice member missed
      rw [gathered, List.mapIdx_cons, List.any_cons, Bool.or_eq_false_iff] at running
      obtain ⟨early, late⟩ := not_or.mp (mt List.mem_append.mpr missed)
      rcases List.mem_append.mp member with inFirst | inOthers
      · exact below.missed running.1 choice inFirst early
      · exact rest.missed running.2 choice inOthers late

/-- Composing the clusters explores all ways to charge them. -/
theorem compose_explored {clusters : List (Cluster g)} {sites : List (Fin g.size)}
    (plan : Plan [] (levels clusters) sites) (some : clusters ≠ []) (isExpired : Nat → Nat → Bool) :
    ∃ visited, Explored (complete (Surface.ofGeometry g)) [] (choices (levels clusters)) Progress.start
      (gathered (compose isExpired .standard clusters)) visited := by
  cases clusters with
  | nil => contradiction
  | cons cluster clusters =>
    cases plan with
    | level sites distinct uses offered covers behind =>
      refine gathered_explored _ _ ?_
      intro number option offer
      have known := start_known option
      let descent : Descent g := ⟨.standard, isExpired number, pollInterval, complete (Surface.ofGeometry g)⟩
      have standard : descent.checker = .standard := rfl
      rw [← sites option offer] at covers behind
      exact feasible_explored standard covers known (run_explored standard behind _ known)

theorem complete_eq (charges : Vector Charge g.size) :
    complete (Surface.ofGeometry g) charges = (Surface.ofGeometry g).validOf [charges] := by
  rw [complete, Surface.refresh_assignCharges (Surface.ofGeometry_plain g)]
  exact (Surface.validOf_singleton (Surface.ofGeometry_plain g) charges).symm

/-- Composing sufficient clusters finds the valid ones among different assignments, all of them unless
    the time limit was reached in some branch. -/
theorem compose_spec {clusters : List (Cluster g)} (sufficient : Sufficient clusters) (occupied : 0 < g.size)
    (isExpired : Nat → Nat → Bool) :
    ∃ assignments, (Surface.ofGeometry g).Selects
        ((compose isExpired .standard clusters).flatMap fun branch => branch.found.reverse) assignments ∧
      ((compose isExpired .standard clusters).any (·.timedOut) = false →
        ∀ charges, g.IsValid charges → charges ∈ assignments) := by
  have plan : Plan (sites ([] : Placement g)) (levels clusters) (sitesOf clusters) :=
    levels_plan sufficient.fits sufficient.sites
  have some : clusters ≠ [] := by
    rintro rfl
    have none := sufficient.sites.length_eq
    simp [sitesOf] at none
    omega
  obtain ⟨visited, explored⟩ := compose_explored plan some isExpired
  have all (i : Fin g.size) : i ∈ sitesOf clusters := sufficient.sites.mem_iff.mpr (List.mem_finRange i)
  have agrees (choice : Placement g) (chosen : choice ∈ choices (levels clusters)) (completed : Vector Charge g.size)
      (member : completed ∈ [leaf [] choice]) : Agrees completed choice := by
    rw [List.mem_singleton.mp member]
    exact plan.leaf_agrees (sufficient.sites.nodup_iff.mpr (List.nodup_finRange _)) chosen
  have uses (choice : Placement g) (chosen : choice ∈ choices (levels clusters)) (completed : Vector Charge g.size)
      (member : completed ∈ [leaf [] choice]) (i : Fin g.size) : completed[i] ∈ Charge.ofBase g.params.base := by
    rw [List.mem_singleton.mp member]
    exact plan.leaf_uses (fun _ inside => absurd inside List.not_mem_nil) chosen i
  have reached (charges : Vector Charge g.size) (valid : g.IsValid charges) :
      Agrees charges ([] : Placement g) ∧ charges ∈ [leaf [] (restrict charges (sitesOf clusters))] := by
    refine ⟨agrees_nil charges, List.mem_singleton.mpr (Vector.ext_at fun i => ?_)⟩
    exact (leaf_restrict (agrees_nil charges) (all i)).symm
  obtain ⟨assignments, selects, missing⟩ := explored.spec plan rfl complete_eq
    (fun charges => List.nodup_singleton charges) agrees uses reached
  exact ⟨assignments, ⟨(List.reverse_perm _).symm.trans selects.kept, selects.distinct, selects.uses⟩, missing⟩

theorem full_sufficient (settings : ClusteredSettings K) :
    Sufficient (((partition? settings.maxSize (Link.within g settings.radius)).getD []).map
      (Cluster.full g.params.base)) := by
  rw [partition?_eq_some, Option.getD_some]
  constructor
  · have sites := Partition.groups_perm (Partition.ofLinks_settled settings.maxSize
      ((Link.within g settings.radius).mergeSort Link.precedes))
    rw [← List.flatMap_id'] at sites
    rw [sitesOf, List.flatMap_map]
    exact sites
  · intro cluster member
    obtain ⟨group, _, rfl⟩ := List.mem_map.mp member
    exact Cluster.full_fits group

/-- What comes of the clusters once they are pruned, and how the search for it ends. -/
def composed (isExpired : Checkpoint → Bool) : Option (List (Cluster g)) → List (Surface g) × SearchStatus
  | none => ([], .timedOut)
  | some clusters =>
    if AllOpen clusters then
      let branches := compose (fun number count => isExpired (.branch number count)) .standard clusters
      (branches.flatMap fun branch => branch.found.reverse,
        if branches.any (·.timedOut) then .timedOut else .complete)
    else ([], .complete)

theorem composed_spec {pruned : Option (List (Cluster g))} (sufficient : ∀ clusters ∈ pruned, Sufficient clusters)
    (occupied : 0 < g.size) (isExpired : Checkpoint → Bool) :
    ∃ assignments, (Surface.ofGeometry g).Selects (composed isExpired pruned).1 assignments ∧
      ((composed isExpired pruned).2 = .complete → ∀ charges, g.IsValid charges → charges ∈ assignments) := by
  cases pruned with
  | none => exact ⟨[], Surface.selects_nothing _, nofun⟩
  | some clusters =>
    have sufficient := sufficient clusters rfl
    rw [composed]
    by_cases allOpen : AllOpen clusters
    · rw [if_pos allOpen]
      obtain ⟨assignments, selects, missing⟩ := compose_spec sufficient occupied
        fun number count => isExpired (.branch number count)
      refine ⟨assignments, selects, fun complete => missing ?_⟩
      by_contra expired
      have stopped : SearchStatus.complete = .timedOut := complete.symm.trans (if_pos (by simpa using expired))
      contradiction
    · rw [if_neg allOpen]
      refine ⟨[], Surface.selects_nothing _, ?_⟩
      intro _ charges valid
      exact absurd (allOpen_of_valid sufficient valid) allOpen

theorem search_spec {σ : Type} (environment : Environment σ) (settings : ClusteredSettings K) (occupied : 0 < g.size) :
    (search environment settings g).Sound ∧
      ((search environment settings g).status = .complete → (search environment settings g).Exhausts) := by
  have sufficient {clusters : List (Cluster g)} (finished : clusters ∈ prune?
      (fun round => environment.clock.isExpired settings.timeout (.round round)) .standard 0
      (((partition? settings.maxSize (Link.within g settings.radius)).getD []).map (Cluster.full g.params.base))) :
      Sufficient clusters := prune?_sufficient (full_sufficient settings) finished
  obtain ⟨assignments, selects, missing⟩ := composed_spec (fun _ finished => sufficient finished) occupied
    (environment.clock.isExpired settings.timeout)
  obtain ⟨sound, exhausts⟩ := Outcome.ofFound_spec .clustered selects (search environment settings g).status
    (environment.clock .finish)
  exact ⟨⟨sound.increasing, sound.valid, sound.clean, sound.accurate⟩, fun complete => exhausts (missing complete)⟩

end Clustered

/-- The clustered search is exact, whatever the radius, the largest cluster and the clock: it lists valid
    assignments only, each once and in charge-index order, on clean surfaces, and when it completes none
    is missing. Two searches that complete list the same assignments, however they form their clusters. -/
theorem clustered_exact {K σ : Type} [ExactScalar K] [RandomSource σ] (environment : Environment σ)
    (settings : ClusteredSettings K) {g : Geometry K} (occupied : 0 < g.size) (valid : g.params.validate = .ok ()) :
    ∃ outcome, simulate environment (.clustered settings) g = .ok outcome ∧ outcome.Sound ∧
      (outcome.status = .complete → outcome.Exhausts) ∧
      ∀ (otherEnvironment : Environment σ) (otherSettings : ClusteredSettings K) (other : Outcome g),
        simulate otherEnvironment (.clustered otherSettings) g = .ok other →
        outcome.status = .complete → other.status = .complete →
        outcome.configurations.map (·.charges) = other.configurations.map (·.charges) := by
  have searched (environment : Environment σ) (settings : ClusteredSettings K) :
      simulate environment (.clustered settings) g = .ok (Clustered.search environment settings g) := by
    rw [simulate, valid]
    exact if_neg (Nat.ne_of_gt occupied)
  obtain ⟨sound, exhausts⟩ := Clustered.search_spec environment settings occupied
  refine ⟨Clustered.search environment settings g, searched environment settings, sound, exhausts, ?_⟩
  intro otherEnvironment otherSettings other result complete otherComplete
  obtain rfl : Clustered.search otherEnvironment otherSettings g = other :=
    Except.ok.inj ((searched _ _).symm.trans result)
  obtain ⟨otherSound, otherExhausts⟩ := Clustered.search_spec otherEnvironment otherSettings occupied
  exact sound.charges_unique (exhausts complete) otherSound (otherExhausts otherComplete)

/-- On two sites, each in a cluster of its own, and without a time limit the search completes, and so
    does one that puts both into one cluster. -/
theorem clustered_exact_pair :
    ∃ outcome, simulate (⟨Clock.still, ChaCha.ofSeed, 0⟩ : Environment ChaCha) (.clustered ⟨0.1, 8, none⟩) Geometry.pair =
        .ok outcome ∧ outcome.status = .complete ∧ outcome.Sound ∧ outcome.Exhausts ∧
      ∃ other, simulate (⟨Clock.still, ChaCha.ofSeed, 0⟩ : Environment ChaCha) (.clustered .standard) Geometry.pair =
          .ok other ∧ outcome.configurations.map (·.charges) = other.configurations.map (·.charges) := by
  let environment : Environment ChaCha := ⟨Clock.still, ChaCha.ofSeed, 0⟩
  have occupied : 0 < Geometry.pair.size := by decide
  obtain ⟨outcome, searched, sound, exhausts, unique⟩ :=
    clustered_exact environment ⟨0.1, 8, none⟩ occupied Parameters.standard_valid
  obtain ⟨other, otherSearched, _⟩ := clustered_exact environment .standard occupied Parameters.standard_valid
  have completed : (simulate environment (.clustered ⟨0.1, 8, none⟩) Geometry.pair).toOption.map (·.status) =
      some .complete := by decide +kernel
  have otherCompleted : (simulate environment (.clustered .standard) Geometry.pair).toOption.map (·.status) =
      some .complete := by decide +kernel
  rw [searched] at completed
  rw [otherSearched] at otherCompleted
  have complete : outcome.status = .complete := Option.some.inj completed
  exact ⟨outcome, searched, complete, sound, exhausts complete, other, otherSearched,
    unique environment .standard other otherSearched complete (Option.some.inj otherCompleted)⟩

end DanglingBond
