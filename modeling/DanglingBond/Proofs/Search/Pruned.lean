import Mathlib
import DanglingBond.Proofs.Search.Descent
import DanglingBond.Proofs.Search.Outcome
import DanglingBond.Random.ChaCha
import DanglingBond.Search.Simulation

/-!
The pruned search is exact. Sites that are fixed negative are negative in every valid assignment, the
smaller base still offers all charges of one, the reach covers whatever the open sites induce, and the
dependent site takes every charge that is stable in the potential of the others. The search therefore
keeps exactly the valid assignments, or some of them when the time limit cuts it (`pruned_exact`).
-/

namespace DanglingBond

open Placement Descent

namespace Pruned

section
variable {K : Type} {g : Geometry K}

/-- The open sites: those still to come and the dependent one. -/
def openSites (dependent : Option (Fin g.size)) (later : List (Fin g.size)) : List (Fin g.size) :=
  later ++ dependent.toList

/-- The free site whose charge follows from those of all others. -/
def dependent (fixed : List (Fin g.size)) : Option (Fin g.size) := (free fixed).getLast?

/-- The free sites that the levels charge. -/
def order (fixed : List (Fin g.size)) : List (Fin g.size) := (free fixed).dropLast

def allNegative (fixed : List (Fin g.size)) : Placement g := fixed.map fun site => (site, .negative)

@[simp] theorem sites_allNegative (fixed : List (Fin g.size)) : (allNegative fixed).sites = fixed := by
  simp [allNegative, Placement.sites, Function.comp_def]

theorem openSites_free (fixed : List (Fin g.size)) : openSites (dependent fixed) (order fixed) = free fixed := by
  unfold openSites dependent order
  cases last : (free fixed).getLast? with
  | none => simp [List.getLast?_eq_none_iff.mp last]
  | some site => exact List.dropLast_append_getLast? site last

theorem open_perm {fixed : List (Fin g.size)} (distinct : fixed.Nodup) :
    (fixed ++ openSites (dependent fixed) (order fixed)).Perm (List.finRange g.size) := by
  have apart : List.Disjoint fixed (free fixed) := by
    intro i inside outside
    have notFixed := (List.mem_filter.mp outside).2
    exact (of_decide_eq_true notFixed) inside
  rw [openSites_free]
  refine (List.perm_ext_iff_of_nodup ?_ (List.nodup_finRange _)).mpr ?_
  · exact distinct.append ((List.nodup_finRange _).filter _) apart
  · intro i
    by_cases inside : i ∈ fixed
    · simp [inside]
    · simp [free, inside]

end

section
variable {K : Type} [Scalar K] {g : Geometry K}

theorem effectiveBase_two_or_three (base : g.params.base = 2 ∨ g.params.base = 3) (settings : PrunedSettings)
    (checker : Checker K) : effectiveBase settings checker g = 2 ∨ effectiveBase settings checker g = 3 := by
  unfold effectiveBase
  split
  · exact .inl rfl
  · exact base

/-- The smaller base offers no charge that the base of the parameters lacks. -/
theorem ofBase_effectiveBase {settings : PrunedSettings} {checker : Checker K} {state : Charge}
    (offered : state ∈ Charge.ofBase (effectiveBase settings checker g)) : state ∈ Charge.ofBase g.params.base := by
  unfold effectiveBase at offered
  split at offered
  · have two : state ∈ [Charge.negative, Charge.neutral] := offered
    unfold Charge.ofBase
    split
    · exact List.mem_of_mem_dropLast two
    · exact two
  · exact offered

end

variable {K : Type} [ExactScalar K] {g : Geometry K}

/-- The smaller base offers every charge of a valid assignment. -/
theorem mem_ofBase_effectiveBase (repulsive : g.Repulsive) (settings : PrunedSettings)
    {charges : Vector Charge g.size} (valid : g.IsValid charges) (i : Fin g.size) :
    charges[i] ∈ Charge.ofBase (effectiveBase settings .standard g) := by
  unfold effectiveBase
  by_cases smaller : settings.detectBase ∧ g.params.base = 3 ∧ ¬ Checker.standard.canPositiveOccur g
  · rw [if_pos smaller]
    have never : Checker.standard.canPositiveOccur g = false := by simpa using smaller.2.2
    have other := Checker.ne_positive_of_canPositiveOccur repulsive never valid i
    cases state : charges[i] with
    | negative => decide
    | neutral => decide
    | positive => exact absurd state other
  · rw [if_neg smaller]
    exact valid.1 i

theorem unassigned_eq (dependent : Option (Fin g.size)) (later : List (Fin g.size)) (i : Fin g.size) :
    (unassigned g dependent later)[i] = ((openSites dependent later).map (g.potential i)).sum := by
  induction later with
  | nil => cases dependent <;> simp [unassigned, openSites]
  | cons site later ih =>
    have expanded : openSites dependent (site :: later) = site :: openSites dependent later := rfl
    rw [expanded, List.map_cons, List.sum_cons, ← ih]
    simp [unassigned, add_comm]

/-- Sites induce at least what they do when negative, and at most what they do when positive, or
    nothing where no charge is positive. -/
theorem induced_bounds (repulsive : g.Repulsive) {base : Nat} (two_or_three : base = 2 ∨ base = 3)
    {charges : Vector Charge g.size} (uses : ∀ i : Fin g.size, charges[i] ∈ Charge.ofBase base)
    (sites : List (Fin g.size)) (i : Fin g.size) :
    -(sites.map (g.potential i)).sum ≤ induced (restrict charges sites) i ∧
      induced (restrict charges sites) i ≤ (if base = 3 then 1 else 0) * (sites.map (g.potential i)).sum := by
  induction sites with
  | nil => simp [induced, restrict]
  | cons site sites ih =>
    obtain ⟨lower, upper⟩ := ih
    have expanded : induced (restrict charges (site :: sites)) i =
        g.potential i site * (charges[site].value : K) + induced (restrict charges sites) i := induced_cons _ _ i
    have nonneg := repulsive.nonneg i site
    have least := mul_le_mul_of_nonneg_left (Charge.neg_one_le_value (K := K) charges[site]) nonneg
    have most : (charges[site].value : K) ≤ if base = 3 then 1 else 0 := by
      have offered := uses site
      rcases two_or_three with rfl | rfl
      · cases state : charges[site] with
        | negative => simp
        | neutral => simp
        | positive =>
          rw [state] at offered
          exact absurd offered (by decide)
      · exact Charge.value_le_one charges[site]
    have greatest := mul_le_mul_of_nonneg_left most nonneg
    rw [expanded, List.map_cons, List.sum_cons, mul_add]
    constructor
    · linarith
    · rw [mul_comm _ (g.potential i site)]
      linarith

theorem reachOf_covers (repulsive : g.Repulsive) {base : Nat} (two_or_three : base = 2 ∨ base = 3)
    (uses : ∀ charges, g.IsValid charges → ∀ i : Fin g.size, charges[i] ∈ Charge.ofBase base)
    {dependent : Option (Fin g.size)} {placed later : List (Fin g.size)}
    (all : (placed ++ openSites dependent later).Perm (List.finRange g.size)) :
    (reachOf base (unassigned g dependent later)).Covers placed := by
  intro charges valid i
  have remaining : Surface.potentialOf g charges i - induced (restrict charges placed) i =
      induced (restrict charges (openSites dependent later)) i := by
    rw [potentialOf_eq_induced all, restrict_append, induced_append, add_sub_cancel_left]
  have bounds := induced_bounds repulsive two_or_three (uses charges valid) (openSites dependent later) i
  rw [← unassigned_eq, ← remaining] at bounds
  simp only [reachOf, Vector.at_map]
  exact bounds

/-- One site after the other, the levels charge all sites but the fixed and the dependent ones. -/
theorem levels_plan (repulsive : g.Repulsive) {base : Nat} (two_or_three : base = 2 ∨ base = 3)
    (offers : ∀ state ∈ Charge.ofBase base, state ∈ Charge.ofBase g.params.base)
    (uses : ∀ charges, g.IsValid charges → ∀ i : Fin g.size, charges[i] ∈ Charge.ofBase base)
    {dependent : Option (Fin g.size)} {placed order : List (Fin g.size)}
    (all : (placed ++ openSites dependent order).Perm (List.finRange g.size)) :
    Plan placed (levels base dependent order) order := by
  induction order generalizing placed with
  | nil => exact .done placed
  | cons site later ih =>
    have next : ((placed ++ [site]) ++ openSites dependent later).Perm (List.finRange g.size) := by
      rw [List.append_assoc]
      exact all
    have covers := reachOf_covers repulsive two_or_three uses next
    show Plan placed (levels base dependent (site :: later)) ([site] ++ later)
    refine .level ?_ ?_ ?_ ?_ covers (ih next)
    · intro option offer
      obtain ⟨state, _, rfl⟩ := List.mem_map.mp offer
      rfl
    · exact (Charge.ofBase_nodup base).map fun first second same => by simpa using same
    · intro option offer entry inside
      obtain ⟨state, offered, rfl⟩ := List.mem_map.mp offer
      rw [List.mem_singleton.mp inside]
      exact offers state offered
    · intro charges valid
      exact List.mem_map.mpr ⟨charges[site], uses charges valid site, rfl⟩

/-- The assignments that come of charging the dependent site in all ways that are stable in the
    potential of the others. -/
def completions (base : Nat) (start : Surface g) (charges : Vector Charge g.size) : List (Vector Charge g.size) :=
  match start.dependent with
  | none => [charges]
  | some site => ((start.charged charges).admissibleDependent base).map (charges.put site ·)

private theorem tryStates_eq (reciprocal : g.Reciprocal) {start : Surface g} (plain : start.Plain) (site : Fin g.size)
    (charges : Vector Charge g.size) (states : List Charge) :
    complete.tryStates site (start.charged charges) states = start.validOf (states.map (charges.put site ·)) := by
  induction states generalizing charges with
  | nil => rfl
  | cons state states ih =>
    have again (other : Charge) : (charges.put site state).put site other = charges.put site other := by simp
    rw [complete.tryStates, Surface.charged_set reciprocal, ih, keepValid, ← Surface.validOf_singleton plain]
    simp only [again, List.map_cons]
    exact (Surface.validOf_append start [charges.put site state] _).symm

/-- A leaf keeps the valid ones among its completions. -/
theorem complete_eq (reciprocal : g.Reciprocal) {base : Nat} {start : Surface g} (plain : start.Plain)
    (charges : Vector Charge g.size) :
    complete base start charges = start.validOf (completions base start charges) := by
  unfold complete completions
  rw [Surface.refresh_assignCharges plain]
  cases start.dependent with
  | none => exact (Surface.validOf_singleton plain charges).symm
  | some site => exact tryStates_eq reciprocal plain site charges _

theorem mem_admissibleDependent {start : Surface g} (plain : start.Plain) {base : Nat} {charges : Vector Charge g.size}
    {site : Fin g.size} (dependent : start.dependent = some site) {state : Charge} :
    state ∈ (start.charged charges).admissibleDependent base ↔ state ∈ Charge.ofBase base ∧
      Checker.standard.StateStable g.params state (Surface.potentialOf g charges site) := by
  have same : (start.charged charges).dependent = some site := dependent
  have checker : (start.charged charges).checker = .standard := plain.checker
  rw [Surface.admissibleDependent, same]
  simp only [checker, Surface.charged_potential]
  simp [Checker.admissible]

theorem completions_distinct (base : Nat) (start : Surface g) (charges : Vector Charge g.size) :
    (completions base start charges).Nodup := by
  unfold completions
  cases dependent : start.dependent with
  | none => exact List.nodup_singleton charges
  | some site =>
    have injective (state other : Charge) (same : charges.put site state = charges.put site other) : state = other := by
      simpa using congrArg (fun other : Vector Charge g.size => other[site]) same
    refine List.Nodup.map injective ?_
    rw [Surface.admissibleDependent, show (start.charged charges).dependent = some site from dependent]
    exact (Charge.ofBase_nodup base).filter _

/-- A completion changes the charge of the dependent site only, and to one of the base. -/
theorem charges_of_mem_completions {base : Nat} {start : Surface g} (plain : start.Plain)
    {charges completed : Vector Charge g.size} (member : completed ∈ completions base start charges) (i : Fin g.size) :
    completed[i] = charges[i] ∨ start.dependent = some i ∧ completed[i] ∈ Charge.ofBase base := by
  unfold completions at member
  cases dependent : start.dependent with
  | none =>
    rw [dependent] at member
    rw [List.mem_singleton.mp member]
    exact .inl rfl
  | some site =>
    rw [dependent] at member
    obtain ⟨state, admissible, rfl⟩ := List.mem_map.mp member
    by_cases same : i = site
    · subst same
      refine .inr ⟨rfl, ?_⟩
      have offered := ((mem_admissibleDependent plain dependent).mp admissible).1
      simpa using offered
    · exact .inl (by simp [same])

/-- A valid assignment comes of the leaf that gives all other sites its charges: no site acts on
    itself, so the potential of the dependent site does not depend on its own charge. -/
theorem mem_completions (reciprocal : g.Reciprocal) {base : Nat} {start : Surface g} (plain : start.Plain)
    {charges valid : Vector Charge g.size} (isValid : g.IsValid valid)
    (offered : ∀ i : Fin g.size, valid[i] ∈ Charge.ofBase base)
    (others : ∀ i : Fin g.size, start.dependent ≠ some i → charges[i] = valid[i]) :
    valid ∈ completions base start charges := by
  unfold completions
  cases dependent : start.dependent with
  | none =>
    refine List.mem_singleton.mpr (Vector.ext_at fun i => ?_)
    exact (others i (by simp [dependent])).symm
  | some site =>
    have completed : charges.put site valid[site] = valid := by
      apply Vector.ext_at
      intro i
      by_cases same : i = site
      · simp [same]
      · have other : start.dependent ≠ some i := by simpa [dependent] using Ne.symm same
        simpa [same] using others i other
    have potential : Surface.potentialOf g charges site = Surface.potentialOf g valid site := by
      rw [← completed, Surface.potentialOf_put_self reciprocal]
    refine List.mem_map.mpr ⟨valid[site], (mem_admissibleDependent plain dependent).mpr ⟨offered site, ?_⟩, completed⟩
    rw [potential]
    exact isValid.stateStable site

/-- The surface on which the leaves judge their assignments. -/
def leafStart (fixed : List (Fin g.size)) : Surface g := { Surface.ofGeometry g with dependent := dependent fixed }

theorem leafStart_plain (fixed : List (Fin g.size)) : (leafStart fixed).Plain := ⟨rfl, rfl⟩

/-- The descent below the fixed sites explores all choices for the others. -/
theorem explore_explored {base : Nat} {fixed : List (Fin g.size)}
    (plan : Plan (allNegative fixed).sites (levels base (dependent fixed) (order fixed)) (order fixed))
    (covers : (reachOf base (unassigned g (dependent fixed) (order fixed))).Covers (allNegative fixed).sites)
    (isExpired : Checkpoint → Bool) :
    ∃ visited, Explored (complete base (leafStart fixed)) (allNegative fixed)
      (choices (levels base (dependent fixed) (order fixed))) (Progress.start.enter (allNegative fixed))
      (explore isExpired .standard base fixed) visited := by
  have known := start_known (allNegative fixed)
  by_cases expired : isExpired .start = true
  · have stopped : explore isExpired .standard base fixed =
        { Progress.start.enter (allNegative fixed) with timedOut := true } := if_pos expired
    rw [stopped]
    refine ⟨[], List.nil_sublist _, rfl, rfl, fun _ => rfl, ?_⟩
    intro running
    contradiction
  · let descent : Descent g :=
      ⟨.standard, fun count => isExpired (.step count), pollInterval, complete base (leafStart fixed)⟩
    have standard : descent.checker = .standard := rfl
    have explored := feasible_explored standard covers known (run_explored standard plan _ known)
    have descended : explore isExpired .standard base fixed = _ := if_neg expired
    rw [descended]
    exact explored

/-- What the descent finds are the valid ones among different assignments, all of them unless the time
    limit was reached. -/
theorem explore_spec (repulsive : g.Repulsive) {base : Nat} (two_or_three : base = 2 ∨ base = 3)
    (offers : ∀ state ∈ Charge.ofBase base, state ∈ Charge.ofBase g.params.base)
    (uses : ∀ charges, g.IsValid charges → ∀ i : Fin g.size, charges[i] ∈ Charge.ofBase base)
    {fixed : List (Fin g.size)} (distinct : fixed.Nodup)
    (negative : ∀ charges, g.IsValid charges → ∀ i ∈ fixed, charges[i] = .negative) (isExpired : Checkpoint → Bool) :
    ∃ assignments, (leafStart fixed).Selects (explore isExpired .standard base fixed).found assignments ∧
      ((explore isExpired .standard base fixed).timedOut = false → ∀ charges, g.IsValid charges → charges ∈ assignments) := by
  have all : ((allNegative fixed).sites ++ openSites (dependent fixed) (order fixed)).Perm (List.finRange g.size) := by
    rw [sites_allNegative]
    exact open_perm distinct
  have plan := levels_plan repulsive two_or_three offers uses all
  obtain ⟨visited, explored⟩ := explore_explored plan (reachOf_covers repulsive two_or_three uses all) isExpired
  have plain := leafStart_plain (g := g) fixed
  have different : ((allNegative fixed).sites ++ order fixed ++ (dependent fixed).toList).Nodup := by
    rw [List.append_assoc]
    exact all.nodup_iff.mpr (List.nodup_finRange _)
  obtain ⟨placedOnce, _, apart⟩ := List.nodup_append.mp different
  refine explored.spec plan rfl (complete_eq repulsive.toReciprocal plain) (completions_distinct _ _) ?_ ?_ ?_
  · intro choice chosen completed member
    have agrees := plan.leaf_agrees placedOnce chosen
    intro entry inside
    rcases charges_of_mem_completions plain member entry.1 with kept | ⟨last, _⟩
    · rw [kept]
      exact agrees entry (List.mem_append_right _ inside)
    · have site : entry.1 ∈ order fixed := by
        rw [← plan.sites_choices choice chosen]
        exact List.mem_map_of_mem inside
      have last : dependent fixed = some entry.1 := last
      exact absurd rfl (apart entry.1 (List.mem_append_right _ site) entry.1 (by simp [last]))
  · intro choice chosen completed member i
    rcases charges_of_mem_completions plain member i with kept | ⟨_, offered⟩
    · rw [kept]
      refine plan.leaf_uses ?_ chosen i
      intro entry inside
      obtain ⟨site, _, rfl⟩ := List.mem_map.mp inside
      exact Charge.negative_mem_ofBase _
    · exact offers _ offered
  · intro charges valid
    have agrees : Agrees charges (allNegative fixed) := by
      intro entry inside
      obtain ⟨site, member, rfl⟩ := List.mem_map.mp inside
      exact negative charges valid site member
    refine ⟨agrees, mem_completions repulsive.toReciprocal plain valid (uses charges valid) ?_⟩
    intro i notDependent
    apply leaf_restrict agrees
    have member := all.mem_iff.mpr (List.mem_finRange i)
    have open_or_last : i ∈ (allNegative fixed).sites ++ order fixed ∨ dependent fixed = some i := by
      simpa [openSites, or_assoc] using member
    exact open_or_last.resolve_right notDependent

theorem search_spec {σ : Type} (environment : Environment σ) (settings : PrunedSettings) (repulsive : g.Repulsive)
    (base : g.params.base = 2 ∨ g.params.base = 3) :
    (search environment settings g).Sound ∧
      ((search environment settings g).status = .complete → (search environment settings g).Exhausts) := by
  have distinct : (Checker.standard.negativeSites g).Nodup := (List.nodup_finRange _).filter _
  have negative (charges : Vector Charge g.size) (valid : g.IsValid charges) :
      ∀ i ∈ Checker.standard.negativeSites g, charges[i] = .negative :=
    fun i fixed => Checker.eq_negative_of_mem_negativeSites repulsive fixed valid
  obtain ⟨assignments, selects, missing⟩ := explore_spec repulsive
    (effectiveBase_two_or_three base settings .standard) (fun _ => ofBase_effectiveBase)
    (fun _ => mem_ofBase_effectiveBase repulsive settings) distinct negative
    (environment.clock.isExpired settings.timeout)
  obtain ⟨sound, exhausts⟩ := Outcome.ofFound_spec .pruned selects (search environment settings g).status
    (environment.clock .finish)
  refine ⟨((sound.withDetail _ _).withDetail _ _).withDetail _ _, ?_⟩
  intro complete
  refine exhausts (missing ?_)
  by_contra expired
  have stopped : (search environment settings g).status = .timedOut := if_pos (by simpa using expired)
  rw [complete] at stopped
  contradiction

end Pruned

/-- The pruned search is exact, whatever the clock shows: it lists valid assignments only, each once
    and in charge-index order, on clean surfaces, and when it completes none is missing. -/
theorem pruned_exact {K σ : Type} [ExactScalar K] [RandomSource σ] (environment : Environment σ)
    (settings : PrunedSettings) {g : Geometry K} (repulsive : g.Repulsive) (occupied : 0 < g.size)
    (valid : g.params.validate = .ok ()) :
    ∃ outcome, simulate environment (.pruned settings) g = .ok outcome ∧ outcome.Sound ∧
      (outcome.status = .complete → outcome.Exhausts) := by
  have base := (g.params.validate_eq_ok_iff.mp valid).2.2
  refine ⟨Pruned.search environment settings g, ?_, Pruned.search_spec environment settings repulsive base⟩
  rw [simulate, valid]
  exact if_neg (Nat.ne_of_gt occupied)

/-- On two sites and without a time limit the search completes. -/
theorem pruned_exact_pair :
    ∃ outcome, simulate (⟨Clock.still, ChaCha.ofSeed, 0⟩ : Environment ChaCha) (.pruned {}) Geometry.pair = .ok outcome ∧
      outcome.status = .complete ∧ outcome.Sound ∧ outcome.Exhausts := by
  obtain ⟨outcome, searched, sound, exhausts⟩ :=
    pruned_exact (⟨Clock.still, ChaCha.ofSeed, 0⟩ : Environment ChaCha) {} Geometry.pair_repulsive
      (by decide) Parameters.standard_valid
  have completed : (simulate (⟨Clock.still, ChaCha.ofSeed, 0⟩ : Environment ChaCha) (.pruned {}) Geometry.pair).toOption.map
      (·.status) = some .complete := by decide +kernel
  rw [searched] at completed
  have complete : outcome.status = .complete := Option.some.inj completed
  exact ⟨outcome, searched, complete, sound, exhausts complete⟩

end DanglingBond
