import Mathlib
import DanglingBond.Proofs.Stability.Bounds

/-!
Three sites in a row. If the middle one is near enough to both others to be driven neutral by them, and
the outer ones are too far apart to do this to each other, then exactly one assignment with two charges
is valid: the outer sites are negative and the middle one is neutral (`IsRow.isValid_iff`).
-/

namespace DanglingBond.Geometry

variable {K : Type} [ExactScalar K] {g : Geometry K} {left middle right : Fin g.size} {near far : K}

/-- The geometry has three sites. The middle one has the same potential with either of the others. -/
structure IsRow (g : Geometry K) (left middle right : Fin g.size) (near far : K) : Prop extends g.Reciprocal where
  sites : ∀ i, i = left ∨ i = middle ∨ i = right
  distinct : [left, middle, right].Nodup
  nearLeft : g.potential left middle = near
  nearRight : g.potential right middle = near
  outer : g.potential left right = far

namespace IsRow

variable (row : g.IsRow left middle right near far)
include row

theorem sum_eq (term : Fin g.size → K) : ∑ i, term i = term left + (term middle + term right) := by
  have univ : (Finset.univ : Finset (Fin g.size)) = {left, middle, right} := by
    ext i
    simpa using row.sites i
  obtain ⟨first, second, _⟩ := List.pairwise_cons.mp row.distinct |>.imp_right List.pairwise_cons.mp
  rw [univ, Finset.sum_insert (by simpa using first), Finset.sum_insert (by simpa using second), Finset.sum_singleton]

theorem canPositiveOccur_eq_false (ordered : far ≤ near) (deep : 2 * near + g.params.muPlus ≤ -1e-6) :
    Checker.standard.canPositiveOccur g = false := by
  refine Checker.canPositiveOccur_eq_false_iff.mpr fun i => ?_
  change _ ≤ -1e-6
  rw [row.sum_eq]
  rcases row.sites i with rfl | rfl | rfl
  · rw [row.self, row.nearLeft, row.outer]
    linarith
  · rw [row.self, row.symm i left, row.symm i right, row.nearLeft, row.nearRight]
    linarith
  · rw [row.self, row.symm i left, row.nearRight, row.outer]
    linarith

theorem isValid_iff (base : g.params.base = 2) (nonneg : 0 ≤ far) (ordered : far ≤ near)
    (weak : near + far + g.params.muMinus ≤ -1e-6) (strong : 1e-6 ≤ 2 * near + g.params.muMinus)
    (deep : 2 * near + g.params.muPlus < 1e-6) (charges : Vector Charge g.size) :
    g.IsValid charges ↔ charges[left] = .negative ∧ charges[middle] = .neutral ∧ charges[right] = .negative := by
  have atLeft : Surface.potentialOf g charges left = near * charges[middle].value + far * charges[right].value := by
    rw [Surface.potentialOf_eq, row.sum_eq, row.self, row.nearLeft, row.outer, zero_mul, zero_add]
  have atMiddle : Surface.potentialOf g charges middle = near * charges[left].value + near * charges[right].value := by
    rw [Surface.potentialOf_eq, row.sum_eq, row.self, row.symm middle left, row.symm middle right, row.nearLeft,
      row.nearRight, zero_mul, zero_add]
  have atRight : Surface.potentialOf g charges right = near * charges[middle].value + far * charges[left].value := by
    rw [Surface.potentialOf_eq, row.sum_eq, row.self, row.symm right left, row.nearRight, row.outer, zero_mul, add_zero,
      add_comm]
  have tolerance : (Checker.standard : Checker K).tolerance = 1e-6 := rfl
  -- The others lift an outer site by no more than this, which does not make it neutral.
  have lifted (a b : Charge) : -(near * a.value + far * b.value) ≤ near + far := by
    have := mul_le_mul_of_nonneg_left (a.neg_one_le_value (K := K)) (nonneg.trans ordered)
    have := mul_le_mul_of_nonneg_left (b.neg_one_le_value (K := K)) nonneg
    linarith
  constructor
  · intro valid
    have uses (i : Fin g.size) : charges[i] = .negative ∨ charges[i] = .neutral := by
      simpa [base, Charge.ofBase] using valid.1 i
    have first : charges[left] = .negative := by
      refine (uses left).resolve_right fun neutral => ?_
      have stable := valid.stateStable left
      rw [neutral, atLeft] at stable
      linarith [stable.1, lifted charges[middle] charges[right]]
    have last : charges[right] = .negative := by
      refine (uses right).resolve_right fun neutral => ?_
      have stable := valid.stateStable right
      rw [neutral, atRight] at stable
      linarith [stable.1, lifted charges[middle] charges[left]]
    refine ⟨first, (uses middle).resolve_left fun negative => ?_, last⟩
    have stable := valid.stateStable middle
    rw [negative, atMiddle, first, last, Charge.value_negative] at stable
    simp only [Checker.StateStable, tolerance] at stable
    linarith
  · rintro ⟨first, second, last⟩
    simp only [first, second, last, Charge.value_negative, Charge.value_neutral, mul_zero, zero_add]
      at atLeft atMiddle atRight
    refine Geometry.isValid_iff.mpr ⟨fun i => ?_, fun i => ?_, fun i j => ?_⟩
    · rcases row.sites i with rfl | rfl | rfl <;> simp [first, second, last, base, Charge.ofBase]
    · rcases row.sites i with rfl | rfl | rfl
      · simp only [first, atLeft, Checker.StateStable, tolerance]
        linarith
      · simp only [second, atMiddle, Checker.StateStable, tolerance]
        constructor <;> linarith
      · simp only [last, atRight, Checker.StateStable, tolerance]
        linarith
    · -- Only a hop from an outer site to the middle one is to a more positive site.
      have nearLeft := row.nearLeft
      have nearRight := row.nearRight
      rcases row.sites i with rfl | rfl | rfl <;> rcases row.sites j with rfl | rfl | rfl <;>
        simp only [first, second, last, Charge.sign, Checker.hopEnergy, atLeft, atMiddle, atRight, nearLeft, nearRight,
          Checker.standardTolerance] <;> norm_num
      · linarith
      · linarith

end IsRow

end DanglingBond.Geometry
