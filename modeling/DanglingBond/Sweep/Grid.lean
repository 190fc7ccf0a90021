import DanglingBond.Random.Source
import DanglingBond.Sweep.Axis

/-!
# Sweep grids

Two quantities are varied at once, each along its axis. A `Cell` names a point of the grid by the
indices of its two values.
-/

namespace DanglingBond

/-- A point of a grid by its indices along both axes. -/
structure Cell where
  x : Nat
  y : Nat
deriving DecidableEq, Repr

namespace Cell

instance : Ord Cell where
  compare := compareLex (compareOn Cell.x) (compareOn Cell.y)

/-- The up to four cells beside a cell within a grid of the given size. -/
def neighbours (cell : Cell) (width height : Nat) : List Cell :=
  (if 0 < cell.x then [⟨cell.x - 1, cell.y⟩] else []) ++
  (if cell.x + 1 < width then [⟨cell.x + 1, cell.y⟩] else []) ++
  (if 0 < cell.y then [⟨cell.x, cell.y - 1⟩] else []) ++
  (if cell.y + 1 < height then [⟨cell.x, cell.y + 1⟩] else [])

end Cell

/-- The points at which a gate is judged: a range of two quantities, all others being fixed. -/
structure Grid (K : Type) where
  base : Parameters K
  xAxis : Axis K
  yAxis : Axis K
deriving Repr

namespace Grid

variable {K : Type} [Scalar K]

/-- The grid of two axes, both of which are needed and must vary different quantities. -/
def ofAxes? (base : Option (Parameters K)) (xAxis yAxis : Option (Axis K)) :
    Except (SettingsError K) (Grid K) := do
  let some xAxis := xAxis | throw (.missingAxis .x)
  let some yAxis := yAxis | throw (.missingAxis .y)
  xAxis.validate .x
  yAxis.validate .y
  if xAxis.quantity = yAxis.quantity then throw (.repeatedQuantity xAxis.quantity)
  return { base := base.getD .standard, xAxis, yAxis }

def width (grid : Grid K) : Nat := grid.xAxis.numValues

def height (grid : Grid K) : Nat := grid.yAxis.numValues

def numPoints (grid : Grid K) : Nat := grid.width * grid.height

/-- The number of values along each axis, if machine words hold both. -/
def dimensions? (grid : Grid K) : Option (Nat × Nat) := do
  return (← grid.xAxis.numValues?, ← grid.yAxis.numValues?)

/-- The number of cells, if a machine word holds it and the number of values along each axis. -/
def numPoints? (grid : Grid K) : Option Nat := do
  let (width, height) ← grid.dimensions?
  word? (width * height)

/-- The values of the two quantities at a cell. -/
def point (grid : Grid K) (cell : Cell) : K × K :=
  (grid.xAxis.value cell.x, grid.yAxis.value cell.y)

def parametersAt (grid : Grid K) (cell : Cell) : Parameters K :=
  let (x, y) := grid.point cell
  (grid.base.set x grid.xAxis.quantity).set y grid.yAxis.quantity

def Contains (grid : Grid K) (cell : Cell) : Prop := cell.x < grid.width ∧ cell.y < grid.height

instance (grid : Grid K) (cell : Cell) : Decidable (grid.Contains cell) :=
  inferInstanceAs (Decidable (_ ∧ _))

def cells (grid : Grid K) : List Cell :=
  (List.range grid.width).flatMap fun x => (List.range grid.height).map fun y => ⟨x, y⟩

def neighbours (grid : Grid K) (cell : Cell) : List Cell :=
  cell.neighbours grid.width grid.height

/-- Draws a cell, its first index before the second. -/
def drawCell {σ : Type} [RandomSource σ] (grid : Grid K) (random : σ) : Cell × σ :=
  let (x, random) := RandomSource.draw grid.width grid.xAxis.numValues_pos random
  let (y, random) := RandomSource.draw grid.height grid.yAxis.numValues_pos random
  (⟨x, y⟩, random)

def drawCells {σ : Type} [RandomSource σ] (grid : Grid K) : Nat → σ → List Cell
  | 0, _ => []
  | count + 1, random =>
    let (cell, random) := grid.drawCell random
    cell :: grid.drawCells count random

end Grid

end DanglingBond
