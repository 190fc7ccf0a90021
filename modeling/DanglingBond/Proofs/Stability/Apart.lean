import Mathlib
import DanglingBond.Proofs.Charge.Index
import DanglingBond.Proofs.Stability.Hop

/-!
Two sites near each other, with all others so far away that nothing there is felt. Where the nearness alone
drives one of the two neutral, that one neutral and all others negative is valid
(`Geometry.IsPairApart.isValid`).
-/

namespace DanglingBond

namespace Geometry

/-- Two sites are near each other, and every other potential is faint. -/
structure IsPairApart {K : Type} [ExactScalar K] (g : Geometry K) (first second : Fin g.size) (near faint : K) : Prop
    extends g.Repulsive where
  distinct : first ≠ second
  between : g.potential first second = near
  ordered : faint ≤ near
  others : ∀ i j, ¬ (i = first ∧ j = second) → ¬ (i = second ∧ j = first) → g.potential i j ≤ faint

namespace IsPairApart

variable {K : Type} [ExactScalar K] {g : Geometry K} {first second : Fin g.size} {near faint : K}
variable (pair : g.IsPairApart first second near faint)
include pair

theorem faint_nonneg : 0 ≤ faint := by
  have self := pair.others first first (fun both => pair.distinct both.2) (fun both => pair.distinct both.1)
  rwa [pair.self] at self

/-- Where all potentials but one are faint, they add up to little more than that one. -/
theorem sum_bounds {i k : Fin g.size} (small : ∀ j, j ≠ k → g.potential i j ≤ faint) :
    g.potential i k ≤ ∑ j, g.potential i j ∧ ∑ j, g.potential i j ≤ g.potential i k + g.size * faint := by
  constructor
  · exact Finset.single_le_sum (fun j _ => pair.nonneg i j) (Finset.mem_univ k)
  · have each (j : Fin g.size) : g.potential i j ≤ (if j = k then g.potential i k else 0) + faint := by
      by_cases same : j = k
      · simp [same, pair.faint_nonneg]
      · simpa [same] using small j same
    refine (Finset.sum_le_sum fun j _ => each j).trans (le_of_eq ?_)
    simp [Finset.sum_add_distrib]

theorem potential_le_near (i j : Fin g.size) : g.potential i j ≤ near := by
  by_cases forth : i = first ∧ j = second
  · rw [forth.1, forth.2, pair.between]
  · by_cases back : i = second ∧ j = first
    · rw [back.1, back.2, pair.symm, pair.between]
    · exact (pair.others i j forth back).trans pair.ordered

/-- With the first site neutral and all others negative, the potential at the first is that of the second, and
    the potentials elsewhere are faint. -/
theorem potential_bounds : ∀ i : Fin g.size,
    let v := Surface.potentialOf g ((Vector.replicate g.size .negative).put first .neutral) i
    if i = first then near ≤ -v ∧ -v ≤ near + g.size * faint else 0 ≤ -v ∧ -v ≤ g.size * faint := by
  intro i
  have induced : -Surface.potentialOf g ((Vector.replicate g.size .negative).put first .neutral) i =
      ∑ j, g.potential i j - g.potential i first := by
    rw [Surface.potentialOf_put, Surface.potentialOf_eq]
    simp
    ring
  simp only [induced]
  by_cases here : i = first
  · have bounds := pair.sum_bounds (i := first) (k := second) fun j other =>
      pair.others first j (fun both => other both.2) (fun both => pair.distinct both.1)
    rw [pair.between] at bounds
    rw [if_pos here, here, pair.self, sub_zero]
    exact bounds
  · have bounds := pair.sum_bounds (i := i) (k := first) fun j other =>
      pair.others i j (fun both => here both.1) (fun both => other both.2)
    rw [if_neg here]
    constructor <;> linarith

/-- Where the second site drives the first one neutral, that one neutral and all others negative is valid. -/
theorem isValid (small : g.size * faint ≤ 1e-7) (weak : g.params.muMinus ≤ 0) (strong : 0 ≤ near + g.params.muMinus)
    (deep : near + g.params.muPlus ≤ 0) : g.IsValid ((Vector.replicate g.size .negative).put first .neutral) := by
  have tolerance : (Checker.standard : Checker K).tolerance = 1e-6 := rfl
  have slack : (1e-7 : K) < 1e-6 := by norm_num
  have bounds := pair.potential_bounds
  refine Geometry.isValid_iff.mpr ⟨fun i => ?_, fun i => ?_, fun i j less => ?_⟩
  · rw [Vector.at_put]
    split
    · rw [Charge.ofBase]
      split <;> decide
    · rw [Vector.at_replicate]
      exact Charge.negative_mem_ofBase _
  · have bound := bounds i
    rw [Vector.at_put]
    by_cases here : i = first
    · simp only [if_pos here] at bound ⊢
      simp only [Checker.StateStable, tolerance]
      constructor <;> linarith
    · simp only [if_neg here, Vector.at_replicate] at bound ⊢
      simp only [Checker.StateStable, tolerance]
      linarith
  · -- The only hops are those to the first site.
    have target : j = first := by
      by_contra other
      simp only [Vector.at_put, if_neg other, Vector.at_replicate] at less
      split at less <;> exact absurd less (by decide)
    have source : i ≠ first := by
      rintro rfl
      rw [target] at less
      exact lt_irrefl _ less
    have away := bounds i
    have here := bounds j
    rw [if_neg source] at away
    rw [if_pos target] at here
    have most := pair.potential_le_near i j
    rw [Vector.at_put, if_neg source, Vector.at_replicate, Checker.hopEnergy_negative, not_lt, Checker.standardTolerance]
    linarith

end IsPairApart

end Geometry

end DanglingBond
