import Mathlib
import DanglingBond.Proofs.Stability.Validity
import DanglingBond.Proofs.Surface.Energy

/-!
Hops of one electron. From a negative site the judged energy of a hop is the change of the energy of the
assignment. From a neutral site, whose electron can only go to a positive one, the difference of the two
potentials is judged with the opposite sign (`hopEnergy_neutral`): such a hop passes when it does not
raise the energy by more than the tolerance less twice the potential between the sites. So configuration
stability says that no hop lowers the energy where no neutral site meets a positive one
(`configurationStable_iff_hops`), and not elsewhere (`neutral_positive_refused`).
-/

namespace DanglingBond

theorem Charge.sign_lt_cases {state other : Charge} (less : state.sign < other.sign) :
    state = .negative ∨ state = .neutral ∧ other = .positive := by
  revert less
  cases state <;> cases other <;> decide

/-- Every electron can hop to a more positive site. -/
theorem exists_hops {n : Nat} {charges : Vector Charge n} {source target : Fin n}
    (less : charges[source].sign < charges[target].sign) : ∃ moved, Hops charges moved source target := by
  have apart : target ≠ source := by
    rintro rfl
    exact lt_irrefl _ less
  obtain ⟨up, down, raised, lowered⟩ : ∃ up down : Charge,
      up.sign = charges[source].sign + 1 ∧ down.sign = charges[target].sign - 1 := by
    generalize charges[source] = state at less
    generalize charges[target] = other at less
    rcases Charge.sign_lt_cases less with rfl | ⟨rfl, rfl⟩
    · cases other with
      | negative => exact absurd less (by decide)
      | neutral => exact ⟨.neutral, .negative, rfl, rfl⟩
      | positive => exact ⟨.neutral, .neutral, rfl, rfl⟩
    · exact ⟨.positive, .neutral, rfl, rfl⟩
  refine ⟨(charges.put source up).put target down, ?_, ?_, ?_⟩
  · rw [Vector.at_put, if_neg apart.symm, Vector.at_put, if_pos rfl, raised]
  · rw [Vector.at_put, if_pos rfl, lowered]
  · intro i other same
    rw [Vector.at_put, if_neg same, Vector.at_put, if_neg other]

namespace Checker

variable {K : Type} [ExactScalar K]

theorem hopEnergy_negative (v w pair : K) : hopEnergy .negative v w pair = v - w - pair := by
  simp [hopEnergy]

/-- The electron of a neutral site is judged as if it came the other way. -/
theorem hopEnergy_neutral (v w pair : K) : hopEnergy .neutral v w pair = w - v - pair := by
  simp [hopEnergy]
  ring

end Checker

variable {K : Type} [ExactScalar K] {g : Geometry K}

namespace Surface

/-- What is asked of a hop in terms of the energies before and after it. -/
theorem hopEnergy_iff (reciprocal : g.Reciprocal) {s : Surface g} (accurate : s.Accurate) (tolerance : K)
    {source target : Fin g.size} (less : s.charges[source].sign < s.charges[target].sign)
    {moved : Vector Charge g.size} (hops : Hops s.charges moved source target) :
    ¬ Checker.hopEnergy s.charges[source] s.potentials[source] s.potentials[target] (g.potential source target) <
        -tolerance ↔
      (s.charges[source] = .negative → -tolerance ≤ g.energy moved - g.energy s.charges) ∧
      (s.charges[source] = .neutral →
        g.energy moved - g.energy s.charges + 2 * g.potential source target ≤ tolerance) := by
  rw [not_lt, hops.energy reciprocal, accurate.potential_eq, accurate.potential_eq]
  rcases Charge.sign_lt_cases less with negative | ⟨neutral, _⟩
  · simp [negative, Checker.hopEnergy_negative]
  · rw [neutral, Checker.hopEnergy_neutral]
    simp only [reduceCtorEq, false_implies, true_and, true_implies]
    constructor
    · intro passes
      linarith
    · intro passes
      linarith

/-- Configuration stability in terms of the energies before and after every hop. -/
theorem configurationStable_iff_energies (reciprocal : g.Reciprocal) {s : Surface g} (accurate : s.Accurate)
    (checker : Checker K) :
    checker.ConfigurationStable s ↔ ∀ source target moved, s.charges[source].sign < s.charges[target].sign →
      Hops s.charges moved source target →
        (s.charges[source] = .negative → -checker.tolerance ≤ g.energy moved - g.energy s.charges) ∧
        (s.charges[source] = .neutral →
          g.energy moved - g.energy s.charges + 2 * g.potential source target ≤ checker.tolerance) := by
  rw [configurationStable_iff]
  constructor
  · intro stable source target moved less hops
    exact (hopEnergy_iff reciprocal accurate _ less hops).mp (stable source target less)
  · intro passes source target less
    obtain ⟨moved, hops⟩ := exists_hops less
    exact (hopEnergy_iff reciprocal accurate _ less hops).mpr (passes source target moved less hops)

end Surface

/-- On a clean surface, whatever its charges and the tolerance, configuration stability says of every hop
    of an electron to a more positive site: from a negative site it does not lower the energy, and from
    a neutral site it does not raise it by more than the tolerance less twice the potential between the
    sites. So where no neutral site meets a positive one, it says that no hop lowers the energy. -/
theorem configurationStable_iff_hops (reciprocal : g.Reciprocal) {s : Surface g} (current : s.Current)
    (checker : Checker K) :
    (checker.ConfigurationStable s ↔ ∀ source target moved, s.charges[source].sign < s.charges[target].sign →
      Hops s.charges moved source target →
        (s.charges[source] = .negative → -checker.tolerance ≤ g.energy moved - g.energy s.charges) ∧
        (s.charges[source] = .neutral →
          g.energy moved - g.energy s.charges + 2 * g.potential source target ≤ checker.tolerance)) ∧
    ((∀ source target : Fin g.size, s.charges[source] = .neutral → s.charges[target] ≠ .positive) →
      (checker.ConfigurationStable s ↔ ∀ source target moved, s.charges[source].sign < s.charges[target].sign →
        Hops s.charges moved source target → -checker.tolerance ≤ g.energy moved - g.energy s.charges)) := by
  have judged := Surface.configurationStable_iff_energies reciprocal current.accurate checker
  refine ⟨judged, fun unmixed => judged.trans ?_⟩
  refine forall₅_congr fun source target moved less hops => ?_
  have negative : s.charges[source] = .negative :=
    (Charge.sign_lt_cases less).resolve_right fun mixed => unmixed source target mixed.1 mixed.2
  simp [negative]

/-- An electron of a negative site does not go to a positive one half a volt away. -/
theorem configurationStable_iff_hops_pair :
    ∃ s : Surface Geometry.pair, s.Current ∧ s.states = [.negative, .positive] ∧
      (Checker.standard : Checker ℚ).ConfigurationStable s ∧
      ∀ source target moved, s.charges[source].sign < s.charges[target].sign → Hops s.charges moved source target →
        -(Checker.standard : Checker ℚ).tolerance ≤ Geometry.pair.energy moved - Geometry.pair.energy s.charges := by
  have current := Surface.charged_current (Surface.ofGeometry Geometry.pair) #v[.negative, .positive]
  have stable : (Checker.standard : Checker ℚ).ConfigurationStable
      ((Surface.ofGeometry Geometry.pair).charged #v[.negative, .positive]) := by decide +kernel
  refine ⟨_, current, rfl, stable, ?_⟩
  refine ((configurationStable_iff_hops Geometry.pair_repulsive.toReciprocal current .standard).2 ?_).mp stable
  decide

/-- Of a neutral and a positive site either may be the positive one: the energy is zero both ways. Still the
    hop from the first to the second is judged to lower it. -/
theorem neutral_positive_refused :
    ∃ s : Surface Geometry.pair, s.Current ∧ s.states = [.neutral, .positive] ∧
      ¬ (Checker.standard : Checker ℚ).ConfigurationStable s ∧
      ∀ source target moved, s.charges[source].sign < s.charges[target].sign → Hops s.charges moved source target →
        -(Checker.standard : Checker ℚ).tolerance ≤ Geometry.pair.energy moved - Geometry.pair.energy s.charges := by
  refine ⟨(Surface.ofGeometry Geometry.pair).charged #v[.neutral, .positive], Surface.charged_current _ _, rfl,
    by decide +kernel, ?_⟩
  intro source target moved less hops
  have only : ∀ source target : Fin Geometry.pair.size,
      (#v[.neutral, .positive] : Vector Charge Geometry.pair.size)[source].sign <
        (#v[.neutral, .positive] : Vector Charge Geometry.pair.size)[target].sign →
        source = ⟨0, by decide⟩ ∧ target = ⟨1, by decide⟩ := by
    decide
  obtain ⟨rfl, rfl⟩ := only source target less
  rw [hops.energy Geometry.pair_repulsive.toReciprocal]
  decide +kernel

end DanglingBond
