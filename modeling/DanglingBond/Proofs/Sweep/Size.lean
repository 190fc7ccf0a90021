import Mathlib
import DanglingBond.Proofs.Sweep.Axis
import DanglingBond.Sweep

/-!
The size of a grid in machine words. The number of steps along an axis is cut off at the last word, so one
more value is no word any longer where it has been cut off (`Axis.numValues?_eq_none_iff`), and the product of
two words need not be one (`Grid.numPoints?_eq_none_iff`). Building a grid checks neither: a positive step may
be as fine as one likes for its range (`sizes_overflow_iff`).
-/

namespace DanglingBond

theorem clampToWord_lt_iff (z : Int) : clampToWord z + 1 < wordLimit ↔ z < (wordLimit : Int) - 1 := by
  rw [clampToWord]
  unfold wordLimit
  omega

section

variable {K : Type} [Scalar K]

/-- No word holds the number of values where there are as many steps as the last word says. -/
theorem Axis.numValues?_eq_none_iff (axis : Axis K) : axis.numValues? = none ↔
    (wordLimit : Int) - 1 ≤ Scalar.floor ((axis.high - axis.low) / axis.step + Axis.tolerance) := by
  rw [numValues?, word?_eq_none_iff, ← not_lt, ← not_lt]
  exact not_congr (clampToWord_lt_iff _)

theorem Axis.numValues?_eq_some_iff (axis : Axis K) {count : Nat} :
    axis.numValues? = some count ↔ axis.numValues < wordLimit ∧ axis.numValues = count :=
  word?_eq_some_iff

namespace Grid

variable {grid : Grid K}

theorem dimensions?_eq_some_iff {width height : Nat} : grid.dimensions? = some (width, height) ↔
    grid.xAxis.numValues? = some width ∧ grid.yAxis.numValues? = some height := by
  cases x : grid.xAxis.numValues? <;> cases y : grid.yAxis.numValues? <;> simp [dimensions?, x, y]

theorem dimensions?_eq_none_iff :
    grid.dimensions? = none ↔ grid.xAxis.numValues? = none ∨ grid.yAxis.numValues? = none := by
  cases x : grid.xAxis.numValues? <;> cases y : grid.yAxis.numValues? <;> simp [dimensions?, x, y]

/-- What is counted in words is the width and the height. -/
theorem dimensions_of_some {width height : Nat} (counted : grid.dimensions? = some (width, height)) :
    grid.width = width ∧ grid.height = height := by
  obtain ⟨x, y⟩ := dimensions?_eq_some_iff.mp counted
  exact ⟨(grid.xAxis.numValues?_eq_some_iff.mp x).2, (grid.yAxis.numValues?_eq_some_iff.mp y).2⟩

/-- The cells cannot be counted where the values of an axis cannot, or where their product is no word. -/
theorem numPoints?_eq_none_iff :
    grid.numPoints? = none ↔ grid.dimensions? = none ∨ wordLimit ≤ grid.width * grid.height := by
  cases counted : grid.dimensions? with
  | none => simp [numPoints?, counted]
  | some dimensions =>
    obtain ⟨width, height⟩ := dimensions
    obtain ⟨rfl, rfl⟩ := dimensions_of_some counted
    simp [numPoints?, counted, word?_eq_none_iff]

/-- A grid is built of two accepted axes for different quantities. -/
theorem ofAxes?_eq_ok_iff {base : Option (Parameters K)} {xAxis yAxis : Option (Axis K)} :
    ofAxes? base xAxis yAxis = .ok grid ↔ xAxis = some grid.xAxis ∧ yAxis = some grid.yAxis ∧
      grid.xAxis.validate .x = .ok () ∧ grid.yAxis.validate .y = .ok () ∧
      grid.xAxis.quantity ≠ grid.yAxis.quantity ∧ base.getD .standard = grid.base := by
  cases xAxis with
  | none => simp [ofAxes?]
  | some x =>
    cases yAxis with
    | none => simp [ofAxes?]
    | some y =>
      obtain ⟨gridBase, gridX, gridY⟩ := grid
      simp only [ofAxes?, Except.bind_eq_ok, Except.guard_eq_ok, Except.pure_eq_ok, Option.some.injEq, mk.injEq]
      constructor
      · rintro ⟨⟨⟩, first, ⟨⟩, second, apart, rfl, rfl, rfl⟩
        exact ⟨rfl, rfl, first, second, apart, rfl⟩
      · rintro ⟨rfl, rfl, first, second, apart, rfl⟩
        exact ⟨(), first, (), second, apart, rfl, rfl, rfl⟩

end Grid

end

section

variable {K : Type} [ExactScalar K]

/-- The values of an accepted axis cannot be counted where its step is too fine for its range. -/
theorem Axis.numValues?_eq_none_iff_fine {axis : Axis K} (accepted : 0 < axis.step ∧ axis.low ≤ axis.high) :
    axis.numValues? = none ↔ ((wordLimit : K) - 1 - tolerance) * axis.step ≤ axis.high - axis.low := by
  have steps : (((wordLimit : Int) - 1 : Int) : K) = (wordLimit : K) - 1 := by push_cast; rfl
  calc axis.numValues? = none
      ↔ (wordLimit : Int) - 1 ≤ ⌊(axis.high - axis.low) / axis.step + tolerance⌋ := axis.numValues?_eq_none_iff
    _ ↔ (wordLimit : K) - 1 - tolerance ≤ (axis.high - axis.low) / axis.step := by
        rw [Int.le_floor, steps]
        exact sub_le_iff_le_add.symm
    _ ↔ ((wordLimit : K) - 1 - tolerance) * axis.step ≤ axis.high - axis.low := le_div_iff₀ accepted.1

theorem Grid.accepted_axes {base : Option (Parameters K)} {xAxis yAxis : Option (Axis K)} {grid : Grid K}
    (built : Grid.ofAxes? base xAxis yAxis = .ok grid) :
    ∀ axis ∈ [grid.xAxis, grid.yAxis], 0 < axis.step ∧ axis.low ≤ axis.high := by
  obtain ⟨_, _, first, second, _⟩ := Grid.ofAxes?_eq_ok_iff.mp built
  exact List.forall_mem_cons.mpr ⟨Axis.validate_eq_ok_iff.mp first,
    List.forall_mem_singleton.mpr (Axis.validate_eq_ok_iff.mp second)⟩

end

/-- Where the size of a grid is beyond machine words. The number of values of an axis is when the floor that it
    comes from is at or beyond the last word, and the number of cells is when that of an axis is or when the
    product is beyond all words. In exact arithmetic, of a grid that was built, the first means that a step is
    too fine for its range, and an index below a number that was counted is that of a value in the range. -/
theorem sizes_overflow_iff {K : Type} [Scalar K] (grid : Grid K) :
    (∀ axis ∈ [grid.xAxis, grid.yAxis], axis.numValues? = none ↔
      (wordLimit : Int) - 1 ≤ Scalar.floor ((axis.high - axis.low) / axis.step + Axis.tolerance)) ∧
    (grid.dimensions? = none ↔ grid.xAxis.numValues? = none ∨ grid.yAxis.numValues? = none) ∧
    (grid.numPoints? = none ↔ grid.dimensions? = none ∨ wordLimit ≤ grid.width * grid.height) ∧
    (∀ width height, grid.dimensions? = some (width, height) → ∀ cell,
      (grid.Contains cell ↔ cell.x < width ∧ cell.y < height)) ∧
    ∀ {L : Type} [ExactScalar L] {base : Option (Parameters L)} {xAxis yAxis : Option (Axis L)} {built : Grid L},
      Grid.ofAxes? base xAxis yAxis = .ok built → ∀ axis ∈ [built.xAxis, built.yAxis],
        (axis.numValues? = none ↔ ((wordLimit : L) - 1 - Axis.tolerance) * axis.step ≤ axis.high - axis.low) ∧
        ∀ count, axis.numValues? = some count → ∀ i,
          (i < count ↔ axis.value i ≤ axis.high + Axis.tolerance * axis.step) := by
  refine ⟨fun axis _ => axis.numValues?_eq_none_iff, Grid.dimensions?_eq_none_iff, Grid.numPoints?_eq_none_iff, ?_, ?_⟩
  · intro width height counted cell
    obtain ⟨rfl, rfl⟩ := Grid.dimensions_of_some counted
    rfl
  · intro L _ base xAxis yAxis built ok axis member
    have accepted := Grid.accepted_axes ok axis member
    refine ⟨Axis.numValues?_eq_none_iff_fine accepted, fun count counted i => ?_⟩
    obtain ⟨fits, rfl⟩ := axis.numValues?_eq_some_iff.mp counted
    exact Axis.lt_numValues_iff accepted fits i

/-- From one to ten, in the given number of steps. -/
def Axis.inSteps (steps : ℚ) : Axis ℚ := ⟨.epsilonR, 1, 10, 9 / steps⟩

/-- From minus a half to a half. -/
def Axis.aroundZero (step : ℚ) : Axis ℚ := ⟨.muMinus, -0.5, 0.5, step⟩

theorem Grid.built_of_positive (steps step : ℚ) (some_steps : 0 < steps) (positive : 0 < step) :
    Grid.ofAxes? none (some (.inSteps steps)) (some (.aroundZero step)) =
      .ok ⟨.standard, .inSteps steps, .aroundZero step⟩ := by
  refine Grid.ofAxes?_eq_ok_iff.mpr ⟨rfl, rfl, Axis.validate_eq_ok_iff.mpr ⟨?_, ?_⟩,
    Axis.validate_eq_ok_iff.mpr ⟨positive, ?_⟩, nofun, rfl⟩
  · exact div_pos (by norm_num) some_steps
  · norm_num [Axis.inSteps]
  · norm_num [Axis.aroundZero]

/-- Four values by three, the last of which is ten. -/
theorem sizes_overflow_iff_four :
    ∃ grid, Grid.ofAxes? none (some (.inSteps 3)) (some (.aroundZero 0.5)) = .ok grid ∧
      grid.numPoints? = some 12 ∧ grid.xAxis.numValues? = some 4 ∧
      (3 < 4 ↔ grid.xAxis.value 3 ≤ grid.xAxis.high + Axis.tolerance * grid.xAxis.step) := by
  have built := Grid.built_of_positive 3 0.5 (by norm_num) (by norm_num)
  have counted : (Axis.inSteps 3).numValues? = some 4 := by decide +kernel
  obtain ⟨_, _, _, _, accepted⟩ := sizes_overflow_iff (⟨.standard, .inSteps 3, .aroundZero 0.5⟩ : Grid ℚ)
  exact ⟨_, built, by decide +kernel, counted, (accepted built _ List.mem_cons_self).2 4 counted 3⟩

/-- Grids are built whose size is beyond machine words: an axis of ninety billion billion steps has too many
    values, and axes of nine and ten billion steps have too many cells. -/
theorem built_grid_overflows :
    (∃ grid, Grid.ofAxes? none (some (.inSteps 90000000000000000000)) (some (.aroundZero 0.5)) = .ok grid ∧
      grid.xAxis.numValues? = none ∧ grid.dimensions? = none ∧ grid.numPoints? = none) ∧
    ∃ grid, Grid.ofAxes? none (some (.inSteps 9000000000)) (some (.aroundZero 1e-10)) = .ok grid ∧
      grid.dimensions? = some (9000000001, 10000000001) ∧ grid.numPoints? = none := by
  have first := Grid.built_of_positive 90000000000000000000 0.5 (by norm_num) (by norm_num)
  have second := Grid.built_of_positive 9000000000 1e-10 (by norm_num) (by norm_num)
  refine ⟨⟨_, first, ?_, ?_, ?_⟩, _, second, ?_, ?_⟩ <;> decide +kernel

end DanglingBond
