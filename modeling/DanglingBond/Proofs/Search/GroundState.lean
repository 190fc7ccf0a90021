import Mathlib
import DanglingBond.Proofs.Scalar.Share
import DanglingBond.Proofs.Search.Clustered
import DanglingBond.Proofs.Search.Exhaustive
import DanglingBond.Proofs.Search.Pruned
import DanglingBond.Proofs.Surface.Energy
import DanglingBond.Search.Simulation

/-!
Ground states without a search: the valid assignments whose energy is less than the stability tolerance
above that of any valid one (`Geometry.IsGroundState`). The ground states of a sound outcome that
exhausts the search space are these (`forall_groundStates_iff`), and every engine but the random one has
such an outcome when it completes (`simulate_sound`).
-/

namespace DanglingBond

/-- The charge at a coordinate, if there is a site. -/
def Geometry.chargeAt? {K : Type} (g : Geometry K) (charges : Vector Charge g.size) (coord : Coord) : Option Charge :=
  (g.indexOf? coord).map fun site => charges[site]

section

variable {K : Type} [ExactScalar K] {g : Geometry K}

structure Geometry.IsGroundState (g : Geometry K) (charges : Vector Charge g.size) : Prop where
  valid : g.IsValid charges
  lowest : ∀ other, g.IsValid other → g.energy charges - g.energy other < 1e-6

namespace Outcome

/-- The fold over the configurations ends with one of least energy among those it has seen. -/
theorem foldl_least (first : Surface g) (others : List (Surface g)) :
    let least := others.foldl (fun best s =>
      if Scalar.sortsBefore best.cachedEnergy s.cachedEnergy then best else s) first
    least ∈ first :: others ∧ ∀ s ∈ first :: others, least.cachedEnergy ≤ s.cachedEnergy := by
  have all : ∀ s ∈ first :: others, True := fun _ _ => trivial
  refine foldl_pick_spec (fun s t : Surface g => s.cachedEnergy ≤ t.cachedEnergy) (fun _ _ _ => le_trans) ?_ all
  intro s t _ _
  have sorted : Scalar.sortsBefore s.cachedEnergy t.cachedEnergy = true ↔ s.cachedEnergy ≤ t.cachedEnergy :=
    decide_eq_true_iff
  by_cases before : s.cachedEnergy ≤ t.cachedEnergy
  · rw [if_pos (sorted.mpr before)]
    exact ⟨.inl rfl, le_rfl, before⟩
  · rw [if_neg (sorted.not.mpr before)]
    exact ⟨.inr rfl, (not_le.mp before).le, le_rfl⟩

theorem mem_groundStates {outcome : Outcome g} {s : Surface g} :
    s ∈ outcome.groundStates ↔ s ∈ outcome.configurations ∧
      ∀ other ∈ outcome.configurations, s.cachedEnergy - other.cachedEnergy < 1e-6 := by
  unfold groundStates minimumEnergy? groundState?
  cases listed : outcome.configurations with
  | nil => simp
  | cons first others =>
    obtain ⟨member, least⟩ := foldl_least first others
    simp only [Option.map_some, List.mem_filter, decide_eq_true_eq]
    refine and_congr_right fun _ => ?_
    constructor
    · intro close other inside
      exact lt_of_le_of_lt (sub_le_sub_left (least other inside) _) close
    · exact fun close => close _ member

/-- The minimum energy is the least of the energies. -/
theorem minimumEnergy?_eq_some_iff {outcome : Outcome g} {energy : K} : outcome.minimumEnergy? = some energy ↔
    energy ∈ outcome.configurations.map (·.cachedEnergy) ∧ ∀ e ∈ outcome.configurations.map (·.cachedEnergy), energy ≤ e := by
  unfold minimumEnergy? groundState?
  cases listed : outcome.configurations with
  | nil => simp
  | cons first others =>
    obtain ⟨member, least⟩ := foldl_least first others
    simp only [Option.map_some, Option.some.injEq, List.forall_mem_map]
    constructor
    · rintro rfl
      exact ⟨List.mem_map_of_mem member, least⟩
    · rintro ⟨listed, lowest⟩
      obtain ⟨s, inside, rfl⟩ := List.mem_map.mp listed
      exact le_antisymm (least s inside) (lowest _ member)

theorem groundStates_eq_nil_iff {outcome : Outcome g} : outcome.groundStates = [] ↔ outcome.configurations = [] := by
  constructor
  · intro none
    by_contra some
    obtain ⟨first, others, listed⟩ := List.exists_cons_of_ne_nil some
    obtain ⟨member, least⟩ := foldl_least first others
    rw [← listed] at member least
    have ground := mem_groundStates.mpr ⟨member, fun other inside =>
      lt_of_le_of_lt (sub_nonpos.mpr (least other inside)) (by norm_num)⟩
    rw [none] at ground
    exact absurd ground List.not_mem_nil
  · intro none
    simp [List.eq_nil_iff_forall_not_mem, mem_groundStates, none]

/-- What holds of all ground states of an exhaustive outcome holds of all ground states there are. -/
theorem forall_groundStates_iff {outcome : Outcome g} (sound : outcome.Sound) (exhausts : outcome.Exhausts)
    {P : Vector Charge g.size → Prop} :
    (∀ s ∈ outcome.groundStates, P s.charges) ↔ ∀ charges, g.IsGroundState charges → P charges := by
  have energy {s : Surface g} (listed : s ∈ outcome.configurations) : s.cachedEnergy = g.energy s.charges :=
    (sound.accurate s listed).energy_eq
  constructor
  · intro all charges ground
    obtain ⟨s, listed, rfl⟩ := exhausts charges ground.valid
    refine all s (mem_groundStates.mpr ⟨listed, fun other inside => ?_⟩)
    rw [energy listed, energy inside]
    exact ground.lowest _ (sound.valid other inside)
  · intro all s ground
    obtain ⟨listed, lowest⟩ := mem_groundStates.mp ground
    refine all s.charges ⟨sound.valid s listed, fun charges valid => ?_⟩
    obtain ⟨other, inside, rfl⟩ := exhausts charges valid
    rw [← energy listed, ← energy inside]
    exact lowest other inside

theorem groundStates_ne_nil_iff {outcome : Outcome g} (sound : outcome.Sound) (exhausts : outcome.Exhausts) :
    outcome.groundStates ≠ [] ↔ ∃ charges, g.IsValid charges := by
  rw [ne_eq, groundStates_eq_nil_iff]
  constructor
  · intro some
    obtain ⟨s, listed⟩ := List.exists_mem_of_ne_nil _ some
    exact ⟨s.charges, sound.valid s listed⟩
  · rintro ⟨charges, valid⟩ none
    obtain ⟨s, listed, _⟩ := exhausts charges valid
    rw [none] at listed
    exact absurd listed List.not_mem_nil

end Outcome

variable {σ : Type} [RandomSource σ]

/-- Where there is something to search, every engine but the random one is sound, and exhaustive when it
    completes. -/
theorem simulate_sound {environment : Environment σ} {selection : Selection K} (exact : selection.engine ≠ .growth)
    (repulsive : g.Repulsive) (valid : g.params.validate = .ok ()) (occupied : 0 < g.size) {outcome : Outcome g}
    (searched : simulate environment selection g = .ok outcome) :
    outcome.Sound ∧ (outcome.status = .complete → outcome.Exhausts) := by
  have base := (g.params.validate_eq_ok_iff.mp valid).2.2
  rw [simulate_occupied environment selection valid (Nat.ne_of_gt occupied)] at searched
  cases selection with
  | exhaustive settings =>
    obtain ⟨overflow, fits⟩ := Exhaustive.search_spec environment settings repulsive.toReciprocal base
    rcases Nat.lt_or_ge (g.params.base ^ g.size) wordLimit with small | large
    · obtain ⟨found, _, result, _, sound, _, _, _, complete⟩ := fits small
      obtain rfl : found = outcome := Except.ok.inj (result.symm.trans searched)
      exact ⟨sound, fun completed => (complete completed).1⟩
    · exact nomatch (overflow large).symm.trans searched
  | pruned settings =>
    obtain rfl : Pruned.search environment settings g = outcome := Except.ok.inj searched
    exact Pruned.search_spec environment settings repulsive base
  | clustered settings =>
    obtain rfl : Clustered.search environment settings g = outcome := Except.ok.inj searched
    exact Clustered.search_spec environment settings occupied
  | growth settings => exact absurd rfl exact

/-- What a complete search of an engine other than the random one has found: nothing where there are no
    sites, and else exactly the valid assignments. -/
theorem simulate_complete {environment : Environment σ} {selection : Selection K} (exact : selection.engine ≠ .growth)
    (repulsive : g.params.validate = .ok () → g.Repulsive) {outcome : Outcome g}
    (searched : simulate environment selection g = .ok outcome) (complete : outcome.status = .complete) :
    (g.size = 0 → outcome.configurations = []) ∧ (g.size ≠ 0 → outcome.Sound ∧ outcome.Exhausts) := by
  have valid := validate_of_simulate searched
  constructor
  · intro nowhere
    obtain rfl := Except.ok.inj ((simulate_empty valid nowhere).symm.trans searched)
    exact List.mergeSort_nil
  · intro occupied
    obtain ⟨sound, exhausts⟩ := simulate_sound exact (repulsive valid) valid (Nat.pos_of_ne_zero occupied) searched
    exact ⟨sound, exhausts complete⟩

end

end DanglingBond
