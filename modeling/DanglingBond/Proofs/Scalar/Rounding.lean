import Mathlib
import DanglingBond.Proofs.Scalar.Exact

/-!
Rounding to the nearest integer over exact arithmetic. What is nearest is the floor after adding a half
(`round_eq`), with a half going away from zero. So a number is rounded to at most `n` where it is below the
middle between `n` and `n + 1`, and in the middle where that is negative (`round_le_iff`).
-/

namespace DanglingBond

namespace Scalar

variable {K : Type} [ExactScalar K]

theorem round_eq (a : K) : round a = if a < 0 then -⌊-a + 1 / 2⌋ else ⌊a + 1 / 2⌋ := by
  have nearest (b : K) : (if (0.5 : K) ≤ b - (⌊b⌋ : K) then ⌊b⌋ + 1 else ⌊b⌋) = ⌊b + 1 / 2⌋ := by
    have half : (0.5 : K) = 1 / 2 := by norm_num
    have below := Int.floor_le b
    have above := Int.lt_floor_add_one b
    rw [eq_comm, Int.floor_eq_iff, half]
    by_cases upper : (1 / 2 : K) ≤ b - (⌊b⌋ : K)
    · rw [if_pos upper]
      push_cast
      constructor <;> linarith
    · rw [if_neg upper]
      constructor <;> linarith
  by_cases negative : a < 0
  · rw [if_pos negative, ← nearest]
    simp only [round, if_pos negative]
    rfl
  · rw [if_neg negative, ← nearest]
    simp only [round, if_neg negative]
    rfl

theorem round_le_iff (a : K) (n : Int) : round a ≤ n ↔ if 0 ≤ n then a < n + 1 / 2 else a ≤ n + 1 / 2 := by
  rw [round_eq]
  by_cases negative : a < 0
  · rw [if_pos negative, neg_le, Int.le_floor]
    push_cast
    by_cases up : 0 ≤ n
    · have zero : (0 : K) ≤ n := by exact_mod_cast up
      rw [if_pos up]
      constructor <;> intro _ <;> linarith
    · rw [if_neg up]
      constructor <;> intro _ <;> linarith
  · rw [if_neg negative, ← Int.lt_add_one_iff, Int.floor_lt]
    push_cast
    rw [not_lt] at negative
    by_cases up : 0 ≤ n
    · rw [if_pos up]
      constructor <;> intro _ <;> linarith
    · have below : (n : K) ≤ -1 := by exact_mod_cast (by omega : n ≤ -1)
      rw [if_neg up]
      constructor <;> intro _ <;> linarith

theorem abs_round_sub_le (a : K) : |(round a : K) - a| ≤ 1 / 2 := by
  rw [round_eq, abs_le]
  by_cases negative : a < 0
  · have below := Int.floor_le (-a + 1 / 2)
    have above := Int.lt_floor_add_one (-a + 1 / 2)
    rw [if_pos negative]
    push_cast
    constructor <;> linarith
  · have below := Int.floor_le (a + 1 / 2)
    have above := Int.lt_floor_add_one (a + 1 / 2)
    rw [if_neg negative]
    constructor <;> linarith

end Scalar

end DanglingBond
