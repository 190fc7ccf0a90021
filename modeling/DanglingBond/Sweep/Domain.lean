import DanglingBond.Decimal.Fixed
import DanglingBond.Gate.Operability
import DanglingBond.Scalar.Float
import DanglingBond.Search.Report
import DanglingBond.Sweep.Grid
import Std.Data.TreeMap

/-!
# Operational domains

The part of a grid in which a gate works. A sweep classifies cells as operational or not; cells that
it leaves alone are in neither class.
-/

namespace DanglingBond

/-- The classification of the cells of a grid. -/
structure Domain {K : Type} (grid : Grid K) where
  statuses : Std.TreeMap Cell OperationalStatus := {}

namespace Domain

variable {K : Type} {grid : Grid K}

def status? (domain : Domain grid) (cell : Cell) : Option OperationalStatus :=
  domain.statuses[cell]?

def size (domain : Domain grid) : Nat := domain.statuses.size

/-- The classified cells in order, each with its status. -/
def entries (domain : Domain grid) : List (Cell × OperationalStatus) := domain.statuses.toList

def operationalCells (domain : Domain grid) : List Cell :=
  (domain.entries.filter (·.2 = .operational)).map (·.1)

/-- The domain with one more status; a status that a cell already has stays. -/
def record (domain : Domain grid) (cell : Cell) (status : OperationalStatus) : Domain grid :=
  ⟨domain.statuses.insertIfNew cell status⟩

def symbol : Option OperationalStatus → Char
  | some .operational => '#'
  | some .nonOperational => '.'
  | none => '?'

/-- The domain as text: a line for each value of the first axis, a symbol for each of the second. -/
def text [Scalar K] (domain : Domain grid) : String :=
  String.join ((List.range grid.width).map fun x =>
    String.ofList ((List.range grid.height).map fun y => symbol (domain.status? ⟨x, y⟩)) ++ "\n")

end Domain

structure SweepStats where
  invocations : Nat
  /-- How many cells the sweep has judged. -/
  evaluated : Nat
  operational : Nat
  nonOperational : Nat
  /-- How many cells the sweep has left alone. -/
  unclassified : Nat
  total : Nat
  /-- How long the sweep took, in milliseconds. -/
  runtime : Nat
deriving DecidableEq, Repr

namespace SweepStats

/-- The share of operational cells among all cells. -/
def ratio (K : Type) [Scalar K] (stats : SweepStats) : K :=
  if stats.total = 0 then 0
  else ((stats.operational : Int) : K) / ((stats.total : Int) : K)

open Report in
def text (stats : SweepStats) : String :=
  String.join
    [line "Total points:" (toString stats.total),
      line "Evaluated:" (toString stats.evaluated),
      line "Unclassified:" (toString stats.unclassified),
      line "Operational:" (toString stats.operational),
      line "Non-operational:" (toString stats.nonOperational),
      line "Operational ratio:" (Decimal.fixed 4 (stats.ratio Float)),
      line "Simulator calls:" (toString stats.invocations),
      line "Runtime:" (seconds stats.runtime)]

end SweepStats

end DanglingBond
