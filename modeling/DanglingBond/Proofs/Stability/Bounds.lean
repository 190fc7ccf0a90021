import Mathlib
import DanglingBond.Proofs.Stability.Validity
import DanglingBond.Stability.Extremes
import DanglingBond.Stability.Range

/-!
Bounds on potentials. A range contains the potentials that it stands for (`PotentialRange.Contains`),
and a charge that is stable in a potential may be stable with every range around it
(`mayBeStableWith`). The all-negative assignment bounds all others from below, so what it tells about
positive charges and negative sites holds in every valid assignment.
-/

namespace DanglingBond

variable {K : Type} [ExactScalar K]

namespace PotentialRange

/-- The value lies in the range. -/
def Contains : PotentialRange K → K → Prop
  | .empty, _ => False
  | .between low high, v => low ≤ v ∧ v ≤ high

theorem Contains.exists_between {range : PotentialRange K} {v : K} (contains : range.Contains v) :
    ∃ low high, range = .between low high := by
  cases range with
  | empty => exact contains.elim
  | between low high => exact ⟨low, high, rfl⟩

theorem zero_contains : (zero : PotentialRange K).Contains 0 := ⟨le_rfl, le_rfl⟩

theorem Contains.add {a b : PotentialRange K} {v w : K} (first : a.Contains v) (second : b.Contains w) :
    (a.add b).Contains (v + w) := by
  cases a with
  | empty => exact first.elim
  | between low high =>
    cases b with
    | empty => exact second.elim
    | between low' high' => exact ⟨add_le_add first.1 second.1, add_le_add first.2 second.2⟩

theorem add_eq_between_iff {a b : PotentialRange K} {low high : K} :
    a.add b = .between low high ↔ ∃ low₁ high₁ low₂ high₂, a = .between low₁ high₁ ∧ b = .between low₂ high₂ ∧
      low₁ + low₂ = low ∧ high₁ + high₂ = high := by
  cases a with
  | empty => simp [add]
  | between low₁ high₁ =>
    cases b with
    | empty => simp [add]
    | between low₂ high₂ => simp [add]

/-- The hull of some values reaches from the smallest of them to the largest. -/
theorem hull_eq_between_iff {values : List K} {low high : K} :
    hull values = .between low high ↔ values.min? = some low ∧ values.max? = some high := by
  have numbers : (values.filter fun v => decide (v ≤ v)) = values := by simp
  have least : Scalar.least = (min : K → K → K) := funext₂ Scalar.least_eq
  have greatest : Scalar.greatest = (max : K → K → K) := funext₂ Scalar.greatest_eq
  rw [hull, numbers, least, greatest]
  cases values with
  | nil => simp
  | cons first others =>
    rw [List.min?_cons', List.max?_cons']
    simp

theorem hull_contains {values : List K} {v : K} (member : v ∈ values) : (hull values).Contains v := by
  obtain ⟨low, least⟩ := Option.isSome_iff_exists.mp (List.isSome_min?_of_mem member)
  obtain ⟨high, greatest⟩ := Option.isSome_iff_exists.mp (List.isSome_max?_of_mem member)
  rw [hull_eq_between_iff.mpr ⟨least, greatest⟩]
  exact ⟨(List.min?_eq_some_iff.mp least).2 v member, (List.max?_eq_some_iff.mp greatest).2 v member⟩

end PotentialRange

namespace Checker

theorem mayBeStableWith_iff {checker : Checker K} {params : Parameters K} {state : Charge} {known : K}
    {range : PotentialRange K} : checker.MayBeStableWith params state known range ↔
      ∃ low high, range = .between low high ∧ checker.MayBeStable params state (known + low) (known + high) := by
  cases range with
  | empty => simp [MayBeStableWith]
  | between low high => simp [MayBeStableWith]

/-- Wider bounds exclude less. -/
theorem MayBeStable.mono {checker : Checker K} {params : Parameters K} {state : Charge} {low high low' high' : K}
    (may : checker.MayBeStable params state low high) (below : low' ≤ low) (above : high ≤ high') :
    checker.MayBeStable params state low' high' := by
  cases state with
  | negative =>
    simp only [MayBeStable] at may ⊢
    linarith
  | neutral =>
    obtain ⟨upper, lower⟩ := may
    refine ⟨?_, ?_⟩
    · linarith
    · linarith
  | positive =>
    simp only [MayBeStable] at may ⊢
    linarith

/-- A charge that is stable may be stable with every range around the unknown part of its potential. -/
theorem StateStable.mayBeStableWith {checker : Checker K} {params : Parameters K} {state : Charge} {known unknown : K}
    (stable : checker.StateStable params state (known + unknown)) {range : PotentialRange K}
    (around : range.Contains unknown) : checker.MayBeStableWith params state known range := by
  cases range with
  | empty => exact around.elim
  | between low high =>
    obtain ⟨above, below⟩ := around
    have slack : (0 : K) < boundSlack := boundSlack_pos
    cases state with
    | negative =>
      simp only [StateStable] at stable
      simp only [MayBeStableWith, MayBeStable]
      linarith
    | neutral =>
      obtain ⟨upper, lower⟩ := stable
      refine ⟨?_, ?_⟩
      · linarith
      · linarith
    | positive =>
      simp only [StateStable] at stable
      simp only [MayBeStableWith, MayBeStable]
      linarith

variable {g : Geometry K}

theorem allNegativePotentials_eq (g : Geometry K) (i : Fin g.size) :
    g.allNegativePotentials[i] = -∑ j, g.potential i j := by
  simp [Geometry.allNegativePotentials, Scalar.sum_eq]

variable {checker : Checker K}

theorem canPositiveOccur_eq_false_iff :
    checker.canPositiveOccur g = false ↔ ∀ i, ∑ j, g.potential i j + g.params.muPlus ≤ -checker.tolerance := by
  have listed (v : K) : v ∈ g.allNegativePotentials.toList ↔ ∃ i : Fin g.size, -∑ j, g.potential i j = v := by
    simp [Geometry.allNegativePotentials, Vector.toList_ofFn, List.mem_ofFn, Scalar.sum_eq]
  simp only [canPositiveOccur, List.any_eq_false, decide_eq_true_eq, listed, forall_exists_index,
    forall_apply_eq_imp_iff, neg_neg, not_lt]

/-- No assignment brings a local potential below that of the all-negative one. -/
theorem allNegativePotentials_le (repulsive : g.Repulsive) (charges : Vector Charge g.size) (i : Fin g.size) :
    g.allNegativePotentials[i] ≤ Surface.potentialOf g charges i := by
  rw [allNegativePotentials_eq, Surface.potentialOf_eq, ← Finset.sum_neg_distrib]
  refine Finset.sum_le_sum fun j _ => ?_
  have scaled := mul_le_mul_of_nonneg_left (Charge.neg_one_le_value (K := K) charges[j]) (repulsive.nonneg i j)
  rwa [mul_neg, mul_one] at scaled

/-- Where no positive charge can occur, none is stable in any assignment. -/
theorem not_stateStable_positive (repulsive : g.Repulsive) (never : checker.canPositiveOccur g = false)
    (charges : Vector Charge g.size) (i : Fin g.size) :
    ¬ checker.StateStable g.params .positive (Surface.potentialOf g charges i) := by
  intro stable
  simp only [StateStable] at stable
  have lowest := allNegativePotentials_le repulsive charges i
  have excluded := canPositiveOccur_eq_false_iff.mp never i
  rw [allNegativePotentials_eq] at lowest
  linarith

/-- At a site that is fixed negative no other charge is stable in any assignment. -/
theorem eq_negative_of_stateStable (repulsive : g.Repulsive) {i : Fin g.size} (fixed : i ∈ checker.negativeSites g)
    {charges : Vector Charge g.size} {state : Charge}
    (stable : checker.StateStable g.params state (Surface.potentialOf g charges i)) : state = .negative := by
  have deep : -g.allNegativePotentials[i] + g.params.muMinus < -checker.tolerance := by
    simpa [negativeSites] using fixed
  have lowest := allNegativePotentials_le repulsive charges i
  cases state with
  | negative => rfl
  | neutral =>
    simp only [StateStable] at stable
    linarith [stable.1]
  | positive =>
    simp only [StateStable] at stable
    linarith [g.params.muPlus_lt_muMinus]

theorem ne_positive_of_canPositiveOccur (repulsive : g.Repulsive) (never : standard.canPositiveOccur g = false)
    {charges : Vector Charge g.size} (valid : g.IsValid charges) (i : Fin g.size) : charges[i] ≠ .positive := by
  intro positive
  have stable := valid.stateStable i
  rw [positive] at stable
  exact not_stateStable_positive repulsive never charges i stable

/-- The sites that are fixed negative are negative in every valid assignment. -/
theorem eq_negative_of_mem_negativeSites (repulsive : g.Repulsive) {i : Fin g.size}
    (fixed : i ∈ standard.negativeSites g) {charges : Vector Charge g.size} (valid : g.IsValid charges) :
    charges[i] = .negative :=
  eq_negative_of_stateStable repulsive fixed (valid.stateStable i)

end Checker

end DanglingBond
