import Mathlib
import DanglingBond.Proofs.Stability.Bounds

/-!
The all-negative assignment decides about all others. It brings every local potential as low as it can get,
and this potential stays when the site alone is charged anew, as a site does not feel its own charge
(`potentialOf_lone`). So a positive charge is stable somewhere in some assignment exactly if it is in
that potential (`canPositiveOccur_iff`). Where it is not, a third charge state adds nothing to what is
physically valid (`admits_base_iff`).
-/

namespace DanglingBond

/-- The geometry with as many charge states as the base says. -/
@[reducible] def Geometry.withBase {K : Type} (g : Geometry K) (base : Nat) : Geometry K :=
  { g with params := { g.params with base } }

variable {K : Type} [ExactScalar K] {g : Geometry K} {checker : Checker K}

/-- The only site that is not negative has the potential of the all-negative assignment. -/
theorem Surface.potentialOf_lone (reciprocal : g.Reciprocal) (site : Fin g.size) (state : Charge) :
    potentialOf g ((Vector.replicate g.size .negative).put site state) site = g.allNegativePotentials[site] := by
  rw [potentialOf_put_self reciprocal, potentialOf_eq, Checker.allNegativePotentials_eq, ← Finset.sum_neg_distrib]
  simp

namespace Checker

theorem canPositiveOccur_eq_true_iff :
    checker.canPositiveOccur g = true ↔
      ∃ site : Fin g.size, checker.StateStable g.params .positive g.allNegativePotentials[site] := by
  rw [← Bool.not_eq_false, canPositiveOccur_eq_false_iff, not_forall]
  refine exists_congr fun site => ?_
  rw [allNegativePotentials_eq, StateStable, neg_neg, not_le]

/-- Positive charges can occur exactly if one of them is population stable in some assignment. -/
theorem canPositiveOccur_iff (repulsive : g.Repulsive) :
    checker.canPositiveOccur g = true ↔ ∃ (charges : Vector Charge g.size) (site : Fin g.size),
      charges[site] = .positive ∧ checker.SiteStable g.params (Surface.fresh g charges) site.val := by
  simp only [Surface.siteStable_iff, Surface.fresh_charges, Surface.fresh_potential]
  constructor
  · intro occurs
    obtain ⟨site, stable⟩ := canPositiveOccur_eq_true_iff.mp occurs
    have charged : ((Vector.replicate g.size Charge.negative).put site .positive)[site] = Charge.positive := by simp
    refine ⟨_, site, charged, ?_⟩
    rw [charged, Surface.potentialOf_lone repulsive.toReciprocal]
    exact stable
  · rintro ⟨charges, site, positive, stable⟩
    rw [positive] at stable
    by_contra never
    exact not_stateStable_positive repulsive (Bool.not_eq_true _ ▸ never) charges site stable

/-- Where positive charges cannot occur, the physically valid assignments of both bases are the same. -/
theorem admits_base_iff (repulsive : g.Repulsive) (never : checker.canPositiveOccur g = false)
    (charges : Vector Charge g.size) : checker.Admits (g.withBase 2) charges ↔ checker.Admits (g.withBase 3) charges := by
  rw [admits_iff (g := g.withBase 2), admits_iff (g := g.withBase 3)]
  -- What is asked of potentials and hops does not look at the base, so only the charges are compared.
  refine and_congr_left fun judged => forall_congr' fun i => ?_
  have stable : checker.StateStable g.params charges[i] (Surface.potentialOf g charges i) := judged.1 i
  have excluded := not_stateStable_positive repulsive never charges i
  change charges[i] ∈ Charge.ofBase 2 ↔ charges[i] ∈ Charge.ofBase 3
  generalize charges[i] = state at stable
  cases state with
  | negative => decide
  | neutral => decide
  | positive => exact absurd stable excluded

end Checker

/-- One look at the all-negative assignment decides about all assignments, whatever the tolerance: positive
    charges can occur exactly if one is population stable in some assignment, if they cannot then the
    physically valid assignments of base two and of base three are the same, and at a site that is found
    to be negative no other charge is stable whatever the charges of the others are. -/
theorem extremes_decide (repulsive : g.Repulsive) (checker : Checker K) :
    (checker.canPositiveOccur g = true ↔ ∃ (charges : Vector Charge g.size) (site : Fin g.size),
      charges[site] = .positive ∧ checker.SiteStable g.params (Surface.fresh g charges) site.val) ∧
    (checker.canPositiveOccur g = false → ∀ charges : Vector Charge g.size,
      checker.Admits (g.withBase 2) charges ↔ checker.Admits (g.withBase 3) charges) ∧
    ∀ site ∈ checker.negativeSites g, ∀ charges : Vector Charge g.size,
      ¬ checker.StateStable g.params .neutral (Surface.potentialOf g charges site) ∧
        ¬ checker.StateStable g.params .positive (Surface.potentialOf g charges site) := by
  refine ⟨Checker.canPositiveOccur_iff repulsive, Checker.admits_base_iff repulsive, fun site fixed charges => ⟨?_, ?_⟩⟩
  · intro stable
    exact absurd (Checker.eq_negative_of_stateStable repulsive fixed stable) (by decide)
  · intro stable
    exact absurd (Checker.eq_negative_of_stateStable repulsive fixed stable) (by decide)

/-- Two sites, of which each induces half a volt at the other, with the given level between negative and neutral. -/
def Geometry.pairAt (muMinus : ℚ) : Geometry ℚ := { pair with params := { Parameters.standard with muMinus } }

theorem Geometry.pairAt_repulsive (muMinus : ℚ) : (pairAt muMinus).Repulsive :=
  ⟨⟨pair_repulsive.symm, pair_repulsive.self⟩, pair_repulsive.nonneg⟩

/-- With high levels one of the two sites can be positive. With low ones none can, and each is found to be negative. -/
theorem extremes_decide_pair :
    (∃ (charges : Vector Charge (Geometry.pairAt 0.5).size) (site : Fin (Geometry.pairAt 0.5).size),
      charges[site] = .positive ∧
        Checker.standard.SiteStable (Geometry.pairAt 0.5).params (Surface.fresh (Geometry.pairAt 0.5) charges) site.val) ∧
    (∀ charges : Vector Charge (Geometry.pairAt (-0.6)).size,
      (⟨0⟩ : Checker ℚ).Admits ((Geometry.pairAt (-0.6)).withBase 2) charges ↔
        (⟨0⟩ : Checker ℚ).Admits ((Geometry.pairAt (-0.6)).withBase 3) charges) ∧
    ∀ (site : Fin (Geometry.pairAt (-0.6)).size) (charges : Vector Charge (Geometry.pairAt (-0.6)).size),
      ¬ (⟨0⟩ : Checker ℚ).StateStable (Geometry.pairAt (-0.6)).params .neutral
        (Surface.potentialOf (Geometry.pairAt (-0.6)) charges site) := by
  obtain ⟨occurs, _, _⟩ := extremes_decide (Geometry.pairAt_repulsive 0.5) .standard
  obtain ⟨_, same, negative⟩ := extremes_decide (Geometry.pairAt_repulsive (-0.6)) ⟨0⟩
  refine ⟨occurs.mp (by decide +kernel), same (by decide +kernel), fun site charges => (negative site ?_ charges).1⟩
  revert site
  decide +kernel

end DanglingBond
