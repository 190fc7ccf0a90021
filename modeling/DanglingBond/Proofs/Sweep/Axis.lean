import Mathlib
import DanglingBond.Proofs.Scalar.Exact
import DanglingBond.Sweep.Axis

/-!
The values of an axis. Their number is the floor of a quotient, to which the tolerance is added after the
division by the step. So a value belongs to the axis if it exceeds the maximum by no more than the tolerance
times the step (`Axis.lt_numValues_iff`). A step below one makes this less than the tolerance and a step
above one makes it more, and between the two the count and a distance that is the same for all
steps differ (`axis_values_iff`).
-/

namespace DanglingBond

variable {K : Type} [ExactScalar K]

namespace Axis

variable {axis : Axis K}

/-- An axis is accepted when its range is not empty and its step is positive. -/
theorem validate_eq_ok_iff {name : AxisName} : axis.validate name = .ok () ↔ 0 < axis.step ∧ axis.low ≤ axis.high := by
  have finite (a : K) : Scalar.isFinite a = true := rfl
  by_cases step : axis.step ≤ 0
  · simp [validate, finite, step]
  · by_cases empty : axis.high < axis.low
    · simp [validate, finite, empty]
    · simp [validate, finite, step, empty, not_le.mp step, not_lt.mp empty]

theorem tolerance_pos : (0 : K) < tolerance := by
  unfold tolerance
  norm_num

/-- Where a machine word holds the number of values, it is not cut off. -/
theorem numValues_eq (accepted : 0 < axis.step ∧ axis.low ≤ axis.high) (fits : axis.numValues < wordLimit) :
    (axis.numValues : Int) = ⌊(axis.high - axis.low) / axis.step + tolerance⌋ + 1 := by
  have quotient : 0 ≤ (axis.high - axis.low) / axis.step := div_nonneg (sub_nonneg.mpr accepted.2) accepted.1.le
  have nonneg : 0 ≤ ⌊(axis.high - axis.low) / axis.step + tolerance⌋ :=
    Int.floor_nonneg.mpr (add_nonneg quotient tolerance_pos.le)
  have counted : axis.numValues = clampToWord ⌊(axis.high - axis.low) / axis.step + tolerance⌋ + 1 := rfl
  rw [counted, clampToWord] at fits
  rw [counted, clampToWord]
  omega

/-- A value belongs to the axis if it exceeds the maximum by no more than the tolerance times the step. -/
theorem lt_numValues_iff (accepted : 0 < axis.step ∧ axis.low ≤ axis.high) (fits : axis.numValues < wordLimit) (i : Nat) :
    i < axis.numValues ↔ axis.value i ≤ axis.high + tolerance * axis.step := by
  have counted := numValues_eq accepted fits
  have share : (axis.high - axis.low) / axis.step + tolerance = (axis.high - axis.low + tolerance * axis.step) / axis.step := by
    rw [add_div, mul_div_cancel_right₀ _ accepted.1.ne']
  calc i < axis.numValues
      ↔ (i : Int) ≤ ⌊(axis.high - axis.low) / axis.step + tolerance⌋ := by omega
    _ ↔ ((i : Int) : K) * axis.step ≤ axis.high - axis.low + tolerance * axis.step := by
        rw [Int.le_floor, share, le_div_iff₀ accepted.1]
    _ ↔ axis.value i ≤ axis.high + tolerance * axis.step := by
        rw [value, ← sub_nonneg, ← sub_nonneg (b := axis.low + _)]
        ring_nf

end Axis

/-- Two limits give different answers for exactly the values between them. -/
theorem le_iff_le_iff_not_between (first second v : K) :
    (v ≤ first ↔ v ≤ second) ↔ ¬ (min first second < v ∧ v ≤ max first second) := by
  rw [min_lt_iff, le_max_iff, ← not_le, ← not_le]
  tauto

/-- An axis contains the values that exceed its maximum by no more than the tolerance times its step. Asking
    instead whether a value exceeds the maximum by no more than the tolerance gives another answer for
    exactly the values between the two limits. -/
theorem axis_values_iff {axis : Axis K} {name : AxisName} (accepted : axis.validate name = .ok ())
    (fits : axis.numValues < wordLimit) (i : Nat) :
    (i < axis.numValues ↔ axis.value i ≤ axis.high + Axis.tolerance * axis.step) ∧
    ((i < axis.numValues ↔ axis.value i ≤ axis.high + Axis.tolerance) ↔
      ¬ (min (axis.high + Axis.tolerance * axis.step) (axis.high + Axis.tolerance) < axis.value i ∧
        axis.value i ≤ max (axis.high + Axis.tolerance * axis.step) (axis.high + Axis.tolerance))) := by
  have counted := Axis.lt_numValues_iff (Axis.validate_eq_ok_iff.mp accepted) fits i
  refine ⟨counted, ?_⟩
  rw [counted]
  exact le_iff_le_iff_not_between _ _ _

/-- From four in quarters up to a maximum that is half a billionth short of five. -/
def Axis.shortOfFive : Axis ℚ := ⟨.epsilonR, 4, 4.9999999995, 0.25⟩

/-- From zero in steps of a million up to a maximum that is a tenth of a thousandth short of a million. -/
def Axis.shortOfMillion : Axis ℚ := ⟨.lambdaTF, 0, 999999.9999, 1000000⟩

theorem Axis.short_accepted : shortOfFive.validate .x = .ok () ∧ shortOfMillion.validate .y = .ok () := by
  rw [validate_eq_ok_iff, validate_eq_ok_iff]
  decide +kernel

/-- The fifth value of the first axis is above the limit that counts, and the second one of the other is not. -/
theorem axis_values_iff_short :
    Axis.shortOfFive.numValues < wordLimit ∧
      (4 < Axis.shortOfFive.numValues ↔ Axis.shortOfFive.value 4 ≤ Axis.shortOfFive.high + Axis.tolerance * 0.25) ∧
    Axis.shortOfMillion.numValues < wordLimit ∧
      (1 < Axis.shortOfMillion.numValues ↔ Axis.shortOfMillion.value 1 ≤ Axis.shortOfMillion.high + Axis.tolerance * 1000000) := by
  obtain ⟨five, million⟩ := Axis.short_accepted
  have few : Axis.shortOfFive.numValues < wordLimit := by decide +kernel
  have two : Axis.shortOfMillion.numValues < wordLimit := by decide +kernel
  exact ⟨few, (axis_values_iff five few 4).1, two, (axis_values_iff million two 1).1⟩

/-- The number of values does not agree with the distance to the maximum: five is left out though its distance
    is within the tolerance, and a million is taken in though its distance is not. -/
theorem close_value_left_out :
    (Axis.shortOfFive.validate .x = .ok () ∧ Axis.shortOfFive.numValues = 4 ∧
      Axis.shortOfFive.value 4 ≤ Axis.shortOfFive.high + Axis.tolerance) ∧
    Axis.shortOfMillion.validate .y = .ok () ∧ Axis.shortOfMillion.numValues = 2 ∧
      ¬ Axis.shortOfMillion.value 1 ≤ Axis.shortOfMillion.high + Axis.tolerance := by
  refine ⟨⟨Axis.short_accepted.1, ?_, ?_⟩, Axis.short_accepted.2, ?_, ?_⟩ <;> decide +kernel

end DanglingBond
