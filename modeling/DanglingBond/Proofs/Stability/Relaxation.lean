import Mathlib
import DanglingBond.Proofs.Charge.Index
import DanglingBond.Proofs.Stability.GrandPotential

/-!
The charge that a site takes when it is left to itself. It is one of the base (`relaxed_mem_ofBase`), and
to take it instead of one that is not stable lowers the grand potential by the tolerance at least
(`relaxed_cost`). It is found by the bare levels, without the tolerance, and still it is stable whenever a
charge of the base is (`relaxed_stable`).
-/

namespace DanglingBond.Checker

/-- Left to itself, no site leaves the base: only from base three on does one turn positive. -/
theorem relaxed_mem_ofBase {K : Type} [Scalar K] (params : Parameters K) (base : Nat) (v : K) :
    relaxed params base v ∈ Charge.ofBase base := by
  unfold relaxed
  by_cases low : -v + params.muMinus < 0
  · rw [if_pos low]
    exact Charge.negative_mem_ofBase base
  · rw [if_neg low]
    unfold Charge.ofBase
    by_cases three : 3 ≤ base
    · rw [if_pos three]
      split <;> decide
    · rw [if_neg three, if_neg fun high => three high.1]
      decide

theorem standard_tolerant {K : Type} [ExactScalar K] : 0 < (standard : Checker K).tolerance := by
  have tolerance : (standard : Checker K).tolerance = 1e-6 := rfl
  rw [tolerance]
  norm_num

variable {K : Type} [ExactScalar K] {checker : Checker K} {params : Parameters K} {state : Charge} {base : Nat} {v : K}

/-- An unstable charge loses at least the tolerance where the local potential leads it. -/
theorem relaxed_cost (tolerant : 0 < checker.tolerance) (unstable : ¬ checker.StateStable params state v)
    (moves : relaxed params base v ≠ state) : params.chargeCost v state (relaxed params base v) ≤ -checker.tolerance := by
  have toNegative := params.chargeCost_neutral_negative v
  have fromNegative := params.chargeCost_negative_neutral v
  have fromPositive := params.chargeCost_positive_neutral v
  have toPositive := params.chargeCost_neutral_positive v
  have levels := params.muPlus_lt_muMinus
  have strict := neg_lt_zero.mpr tolerant
  unfold relaxed at moves ⊢
  by_cases low : -v + params.muMinus < 0
  · rw [if_pos low] at moves ⊢
    cases state with
    | negative => contradiction
    | neutral =>
      have deep : ¬ -checker.tolerance < -v + params.muMinus := fun above => unstable ⟨above, by linarith⟩
      linarith
    | positive =>
      have deep := not_lt.mp unstable
      rw [params.chargeCost_trans v .positive .neutral .negative]
      linarith
  · rw [if_neg low] at moves ⊢
    by_cases high : 3 ≤ base ∧ 0 < -v + params.muPlus
    · rw [if_pos high] at moves ⊢
      cases state with
      | negative =>
        have raised := not_lt.mp unstable
        rw [params.chargeCost_trans v .negative .neutral .positive]
        linarith [high.2]
      | neutral =>
        have raised : ¬ -v + params.muPlus < checker.tolerance := fun below => unstable ⟨by linarith, below⟩
        linarith
      | positive => contradiction
    · rw [if_neg high] at moves ⊢
      cases state with
      | negative =>
        have raised := not_lt.mp unstable
        linarith
      | neutral => contradiction
      | positive =>
        have deep := not_lt.mp unstable
        linarith

/-- A charge that is unstable and has nowhere to go is a neutral one that would be positive in a greater
    base. -/
theorem relaxed_eq (tolerant : 0 < checker.tolerance) (unstable : ¬ checker.StateStable params state v)
    (stays : relaxed params base v = state) :
    base < 3 ∧ state = .neutral ∧ checker.tolerance ≤ -v + params.muPlus := by
  unfold relaxed at stays
  by_cases low : -v + params.muMinus < 0
  · rw [if_pos low] at stays
    subst stays
    exact absurd (low.trans tolerant) unstable
  · rw [if_neg low] at stays
    by_cases high : 3 ≤ base ∧ 0 < -v + params.muPlus
    · rw [if_pos high] at stays
      subst stays
      exact absurd ((neg_lt_zero.mpr tolerant).trans high.2) unstable
    · rw [if_neg high] at stays
      subst stays
      have raised : checker.tolerance ≤ -v + params.muPlus :=
        not_lt.mp fun below => unstable ⟨by linarith, below⟩
      refine ⟨?_, rfl, raised⟩
      by_contra three
      exact high ⟨not_lt.mp three, tolerant.trans_le raised⟩

/-- Where some charge of the base is stable, the one that the site takes is stable. -/
theorem relaxed_stable (tolerant : 0 < checker.tolerance) (member : state ∈ Charge.ofBase base)
    (stable : checker.StateStable params state v) : checker.StateStable params (relaxed params base v) v := by
  by_contra unstable
  -- Only a site that would be positive in a greater base is left with an unstable charge.
  obtain ⟨two, neutral, raised⟩ := relaxed_eq tolerant unstable rfl
  rw [Charge.ofBase, if_neg (Nat.not_le.mpr two)] at member
  have levels := params.muPlus_lt_muMinus
  cases state with
  | negative =>
    simp only [StateStable] at stable
    linarith
  | neutral =>
    rw [neutral] at unstable
    exact unstable stable
  | positive => simp at member

end DanglingBond.Checker
