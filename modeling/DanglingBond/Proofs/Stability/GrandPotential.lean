import Mathlib
import DanglingBond.Proofs.Stability.Validity
import DanglingBond.Proofs.Surface.Energy
import DanglingBond.Surface.Operation

/-!
The grand potential, which is the energy of an assignment together with what its charges take from the
transition levels. When one site is charged anew it changes by what that site alone can tell, its
local potential and the levels (`grandPotential_put`). Each of the thresholds of population stability
compares one such change with the tolerance (`stateStable_iff_costs`), so an assignment is population
stable exactly when no single electron more or less at a single site lowers the grand potential
(`populationStable_iff_minimal`).
-/

namespace DanglingBond

variable {K : Type} [ExactScalar K] {g : Geometry K}

namespace Parameters

/-- What a site with the given charge adds to the grand potential beyond the electrostatic energy. -/
def levelEnergy (params : Parameters K) : Charge → K
  | .negative => params.muMinus
  | .neutral => 0
  | .positive => -params.muPlus

/-- What it costs to charge a site anew in the local potential `v`. -/
def chargeCost (params : Parameters K) (v : K) (before after : Charge) : K :=
  (after.value - before.value) * v + (params.levelEnergy after - params.levelEnergy before)

variable (params : Parameters K) (v : K)

theorem chargeCost_symm (before after : Charge) : params.chargeCost v after before = -params.chargeCost v before after := by
  unfold chargeCost
  ring

theorem chargeCost_trans (before between after : Charge) :
    params.chargeCost v before after = params.chargeCost v before between + params.chargeCost v between after := by
  unfold chargeCost
  ring

theorem chargeCost_neutral_negative : params.chargeCost v .neutral .negative = -v + params.muMinus := by
  simp [chargeCost, levelEnergy]

theorem chargeCost_negative_neutral : params.chargeCost v .negative .neutral = -(-v + params.muMinus) := by
  rw [chargeCost_symm, chargeCost_neutral_negative]

theorem chargeCost_positive_neutral : params.chargeCost v .positive .neutral = -v + params.muPlus := by
  simp [chargeCost, levelEnergy]

theorem chargeCost_neutral_positive : params.chargeCost v .neutral .positive = -(-v + params.muPlus) := by
  rw [chargeCost_symm, chargeCost_positive_neutral]

end Parameters

/-- The energy of an assignment, and what each of its charges adds to it. -/
def Geometry.grandPotential (g : Geometry K) (params : Parameters K) (charges : Vector Charge g.size) : K :=
  g.energy charges + ∑ i : Fin g.size, params.levelEnergy charges[i]

/-- Charging one site anew changes the grand potential by the cost at that site. -/
theorem Geometry.grandPotential_put (reciprocal : g.Reciprocal) (params : Parameters K) (charges : Vector Charge g.size)
    (site : Fin g.size) (state : Charge) : g.grandPotential params (charges.put site state) =
      g.grandPotential params charges + params.chargeCost (Surface.potentialOf g charges site) charges[site] state := by
  have level (i : Fin g.size) : params.levelEnergy (charges.put site state)[i] =
      params.levelEnergy charges[i] +
        if i = site then params.levelEnergy state - params.levelEnergy charges[site] else 0 := by
    by_cases same : i = site
    · simp [same]
    · simp [same]
  simp only [grandPotential, level, Finset.sum_add_distrib, Finset.sum_ite_eq', Finset.mem_univ, if_true,
    energy_put reciprocal, Parameters.chargeCost]
  ring

/-- A charge is stable when to take or to give one electron costs more than minus the tolerance. -/
theorem Checker.stateStable_iff_costs (checker : Checker K) (params : Parameters K) (state : Charge) (v : K) :
    checker.StateStable params state v ↔
      ∀ other : Charge, other.sign = state.sign + 1 ∨ other.sign = state.sign - 1 →
        -checker.tolerance < params.chargeCost v state other := by
  constructor
  · intro stable other near
    cases state with
    | negative =>
      obtain rfl : other = .neutral := by revert near; cases other <;> decide
      rw [params.chargeCost_negative_neutral]
      exact neg_lt_neg stable
    | neutral =>
      obtain rfl | rfl : other = .negative ∨ other = .positive := by revert near; cases other <;> decide
      · rw [params.chargeCost_neutral_negative]
        exact stable.1
      · rw [params.chargeCost_neutral_positive]
        exact neg_lt_neg stable.2
    | positive =>
      obtain rfl : other = .neutral := by revert near; cases other <;> decide
      rw [params.chargeCost_positive_neutral]
      exact stable
  · intro costly
    cases state with
    | negative =>
      have cost := costly .neutral (.inl rfl)
      rw [params.chargeCost_negative_neutral] at cost
      exact neg_lt_neg_iff.mp cost
    | neutral =>
      have taken := costly .negative (.inr rfl)
      have given := costly .positive (.inl rfl)
      rw [params.chargeCost_neutral_negative] at taken
      rw [params.chargeCost_neutral_positive] at given
      exact ⟨taken, neg_lt_neg_iff.mp given⟩
    | positive =>
      have cost := costly .neutral (.inr rfl)
      rw [params.chargeCost_positive_neutral] at cost
      exact cost

/-- Population stability in terms of the grand potential before and after every single change. -/
theorem Surface.populationStable_iff_grandPotential (reciprocal : g.Reciprocal) {s : Surface g} (accurate : s.Accurate)
    (checker : Checker K) (params : Parameters K) : checker.PopulationStable params s ↔
      ∀ other, DifferByElectron s.charges other →
        g.grandPotential params s.charges - checker.tolerance < g.grandPotential params other := by
  rw [populationStable_iff]
  constructor
  · rintro stable other ⟨site, state, rfl, near⟩
    have cost := (checker.stateStable_iff_costs params _ _).mp (stable site) state near
    rw [accurate.potential_eq] at cost
    rw [Geometry.grandPotential_put reciprocal]
    linarith
  · intro higher site
    refine (checker.stateStable_iff_costs params _ _).mpr fun state near => ?_
    have above := higher _ ⟨site, state, rfl, near⟩
    rw [Geometry.grandPotential_put reciprocal] at above
    rw [accurate.potential_eq]
    linarith

/-- A clean surface is population stable, for whatever levels and tolerance, exactly when every assignment
    that differs at one site by one electron has a grand potential greater than its own less the
    tolerance. The surface says so itself, for the levels and the tolerance that it has. -/
theorem populationStable_iff_minimal (reciprocal : g.Reciprocal) {s : Surface g} (current : s.Current) :
    (∀ (checker : Checker K) (params : Parameters K), checker.PopulationStable params s ↔
      ∀ other, DifferByElectron s.charges other →
        g.grandPotential params s.charges - checker.tolerance < g.grandPotential params other) ∧
    (s.populationStable? = .ok true ↔ ∀ other, DifferByElectron s.charges other →
        g.grandPotential g.params s.charges - s.checker.tolerance < g.grandPotential g.params other) := by
  have minimal := Surface.populationStable_iff_grandPotential reciprocal current.accurate
  refine ⟨minimal, ?_⟩
  rw [Surface.populationStable?, Surface.ifClean, if_pos current.clean, Except.ok.injEq, decide_eq_true_eq]
  exact minimal s.checker g.params

/-- Beside a negative site half a volt away a neutral one keeps its charge, and so does the negative one. -/
theorem populationStable_iff_minimal_pair :
    ∃ s : Surface Geometry.pair, s.Current ∧ s.states = [.negative, .neutral] ∧ s.populationStable? = .ok true ∧
      ∀ other, DifferByElectron s.charges other →
        Geometry.pair.grandPotential .standard s.charges - 1e-6 < Geometry.pair.grandPotential .standard other := by
  have current := Surface.charged_current (Surface.ofGeometry Geometry.pair) #v[.negative, .neutral]
  have stable : ((Surface.ofGeometry Geometry.pair).charged #v[.negative, .neutral]).PopulationStable := by
    decide +kernel
  have answer := congrArg (Except.ok (ε := SurfaceError ℚ)) (decide_eq_true stable)
  exact ⟨_, current, rfl, answer,
    (populationStable_iff_minimal Geometry.pair_repulsive.toReciprocal current).2.mp answer⟩

end DanglingBond
