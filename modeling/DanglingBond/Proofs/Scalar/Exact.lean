import Mathlib
import DanglingBond.Charge
import DanglingBond.Stability

/-!
Exact arithmetic. An ordered field with a floor is a scalar whose sums and products are not
rounded (`ExactScalar`), and with a square root and a positive exponential it has all that the
geometry of a layout needs (`ExactElementary`); the rationals and the reals are instances. Over
such a field the helpers of the library are the ordinary sum, minimum and maximum.
-/

namespace DanglingBond

/-- Scalars without rounding. -/
class ExactScalar (K : Type) extends Field K, LinearOrder K, IsStrictOrderedRing K, FloorRing K where
  /-- The value as it is written in messages. -/
  text : K → String

/-- Scalars without rounding that have square roots and a positive exponential. -/
class ExactElementary (K : Type) extends ExactScalar K where
  sqrt : K → K
  exp : K → K
  sqrt_nonneg (a : K) : 0 ≤ sqrt a
  sqrt_mul_self (a : K) : 0 ≤ a → sqrt a * sqrt a = a
  exp_pos (a : K) : 0 < exp a

instance ExactScalar.toScalar {K : Type} [ExactScalar K] : Scalar K where
  decidableLT := inferInstance
  decidableLE := inferInstance
  sortsBefore a b := decide (a ≤ b)
  isFinite _ := true
  floor := Int.floor
  text := ExactScalar.text

instance ExactElementary.toElementary {K : Type} [ExactElementary K] : Elementary K where
  toScalar := ExactScalar.toScalar
  sqrt := ExactElementary.sqrt
  exp := ExactElementary.exp

instance : ExactScalar ℚ where
  text := toString

/-- No text can stand for an arbitrary real number, so none is written. -/
noncomputable instance : ExactElementary ℝ where
  text _ := ""
  sqrt := Real.sqrt
  exp := Real.exp
  sqrt_nonneg := Real.sqrt_nonneg
  sqrt_mul_self _ := Real.mul_self_sqrt
  exp_pos := Real.exp_pos

variable {K : Type} [ExactScalar K]

namespace Scalar

theorem sum_eq {n : Nat} (term : Fin n → K) : sum term = ∑ i, term i := by
  unfold sum
  induction n with
  | zero => simp
  | succ n ih => rw [Fin.foldl_succ_last, ih, Fin.sum_univ_castSucc]

theorem sumList_eq (terms : List K) : sumList terms = terms.sum := by
  unfold sumList
  rw [List.sum_eq_foldl]

theorem least_eq (a b : K) : least a b = min a b := by
  unfold least
  rcases lt_or_ge b a with below | above
  · rw [if_neg (not_le.mpr below), if_pos le_rfl, min_eq_right below.le]
  · rw [if_pos above, min_eq_left above]

theorem greatest_eq (a b : K) : greatest a b = max a b := by
  unfold greatest
  rcases lt_or_ge a b with below | above
  · rw [if_neg (not_le.mpr below), if_pos le_rfl, max_eq_right below.le]
  · rw [if_pos above, max_eq_left above]

end Scalar

namespace Charge

@[simp] theorem value_negative : (negative.value : K) = -1 := by simp [value, sign]

@[simp] theorem value_neutral : (neutral.value : K) = 0 := by simp [value, sign]

@[simp] theorem value_positive : (positive.value : K) = 1 := by simp [value, sign]

theorem neg_one_le_value (state : Charge) : (-1 : K) ≤ state.value := by
  cases state <;> simp

theorem value_le_one (state : Charge) : (state.value : K) ≤ 1 := by
  cases state <;> simp

theorem cast_sign_sub (state other : Charge) :
    ((state.sign - other.sign : Int) : K) = state.value - other.value := by
  simp [value]

end Charge

theorem Checker.boundSlack_pos : (0 : K) < boundSlack := by
  unfold boundSlack
  norm_num

theorem Parameters.muPlus_lt_muMinus (params : Parameters K) : params.muPlus < params.muMinus := by
  unfold muPlus
  norm_num

end DanglingBond
