import Mathlib
import DanglingBond.Proofs.Scalar.Exact
import DanglingBond.Scalar.Float

/-!
Sorting numbers. The order in which a scalar is sorted is total and transitive (`Scalar.LawfulSort`), for exact
numbers as for floats, among which it also has a place for what is no number. A list sorted by it is sorted
whatever the instance (`pairwise_sortBy`), and what is taken from its front up to a bound is all that keeps the
bound (`takeWhile_eq_filter`).
-/

namespace DanglingBond

/-- Sorting is by a total order, in which different values may tie. -/
class Scalar.LawfulSort (K : Type) [Scalar K] : Prop where
  trans (a b c : K) : sortsBefore a b = true → sortsBefore b c = true → sortsBefore a c = true
  total (a b : K) : (sortsBefore a b || sortsBefore b a) = true

instance {K : Type} [ExactScalar K] : Scalar.LawfulSort K where
  trans a b c := by
    simp only [Scalar.sortsBefore, decide_eq_true_eq]
    exact le_trans
  total a b := by
    simp only [Scalar.sortsBefore, Bool.or_eq_true, decide_eq_true_eq]
    exact le_total a b

instance : Scalar.LawfulSort Float where
  trans a b c := by
    simp only [Scalar.sortsBefore, decide_eq_true_eq]
    exact le_trans
  total a b := by
    simp only [Scalar.sortsBefore, Bool.or_eq_true, decide_eq_true_eq]
    exact le_total _ _

namespace Scalar

/-- Sorting by a number that belongs to each element. -/
theorem pairwise_sortBy {K α : Type} [Scalar K] [LawfulSort K] (number : α → K) (elements : List α) :
    (elements.mergeSort fun x y => sortsBefore (number x) (number y)).Pairwise fun x y =>
      sortsBefore (number x) (number y) = true := by
  apply List.pairwise_mergeSort
  · intro x y z
    exact LawfulSort.trans _ _ _
  · intro x y
    exact LawfulSort.total _ _

/-- What is taken while something holds is all for which it holds, if it holds of whatever comes before. -/
theorem takeWhile_eq_filter {α : Type} {holds : α → Bool} {elements : List α}
    (downward : elements.Pairwise fun x y => holds y = true → holds x = true) :
    elements.takeWhile holds = elements.filter holds := by
  induction elements with
  | nil => rfl
  | cons x elements ih =>
    obtain ⟨first, rest⟩ := List.pairwise_cons.mp downward
    by_cases held : holds x = true
    · rw [List.takeWhile_cons_of_pos held, List.filter_cons_of_pos held, ih rest]
    · have none : elements.filter holds = [] := List.filter_eq_nil_iff.mpr fun y member later => held (first y member later)
      rw [List.takeWhile_cons_of_neg held, List.filter_cons_of_neg held, none]

end Scalar

end DanglingBond
