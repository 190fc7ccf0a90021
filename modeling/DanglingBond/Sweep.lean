import DanglingBond.Sweep.Domain
import DanglingBond.Sweep.Event
import Std.Data.TreeSet

/-!
# Sweeps

Three ways to find the domain of a gate: judging every cell of the grid, judging cells drawn at
random, or starting from seeds and following the operational region to its border. Cells are judged
in batches, in order, and none is judged twice. What judges them may fail, and in another monad than
`Except` it may also remember what it was asked before.
-/

namespace DanglingBond

abbrev Evaluator (K : Type) (m : Type → Type := Except (SimulationError K)) := Parameters K → m Assessment

/-- The evaluator that simulates a layout. -/
def gateEvaluator {K σ : Type} [Elementary K] [RandomSource σ] (environment : Nat → Environment σ)
    (settings : OperabilitySettings K) (layout : Layout) (tables : List TruthTable) : Evaluator K :=
  fun params => assess environment { settings with params } layout tables

structure Sweep {K : Type} (grid : Grid K) where
  domain : Domain grid := {}
  /-- How many cells were judged, counted as the answers come in. -/
  evaluated : Nat := 0
  /-- How many simulations were run for them. -/
  invocations : Nat := 0
  reporter : Reporter

structure Seeds where
  /-- How many cells are drawn at random. -/
  drawn : Nat := 0
  given : List Cell := []
deriving Repr

namespace Sweep

variable {K : Type} [Scalar K] {grid : Grid K} {m : Type → Type} [Monad m]

/-- Cells in order, each of them once. -/
def batchOf (cells : List Cell) : List Cell := (Std.TreeSet.ofList cells).toList

/-- The cells among the given ones that are not classified yet, in order and each of them once. -/
def openAmong (domain : Domain grid) (cells : List Cell) : List Cell :=
  batchOf (cells.filter fun cell => (domain.status? cell).isNone)

def report (sweep : Sweep grid) (events : List SweepEvent) : Sweep grid :=
  { sweep with reporter := sweep.reporter.report events }

/-- Takes in one answer, unless its cell is classified already. The cells found operational so far
go along with the sweep. -/
def record (current : List Cell × Sweep grid) (answer : Cell × Assessment) : List Cell × Sweep grid :=
  let (found, sweep) := current
  let (cell, assessment) := answer
  if (sweep.domain.status? cell).isSome then current
  else
    (if assessment.status = .operational then found ++ [cell] else found,
      { sweep with
        domain := sweep.domain.record cell assessment.status
        evaluated := sweep.evaluated + 1
        invocations := sweep.invocations + assessment.invocations })

/-- Asks for the assessment of a cell. -/
def ask (evaluator : Evaluator K m) (grid : Grid K) (cell : Cell) : m (Cell × Assessment) := do
  return (cell, ← evaluator (grid.parametersAt cell))

/-- Judges the cells of a batch that are not classified yet. The cells found operational are
returned with the sweep after it. -/
def evaluate (evaluator : Evaluator K m) (sweep : Sweep grid) (batch : List Cell) :
    m (List Cell × Sweep grid) := do
  let pending := openAmong sweep.domain batch
  let answers ← pending.mapM (ask evaluator grid)
  let steps := answers.map fun _ => SweepEvent.taskStep
  let told := sweep.report ([.taskStart pending.length] ++ steps ++ [.taskFinish])
  return answers.foldl record ([], told)

def start (grid : Grid K) (isActive : Bool) : Sweep grid := { reporter := { isActive } }

def stats (sweep : Sweep grid) (runtime : Nat) : SweepStats :=
  let operational := sweep.domain.operationalCells.length
  { invocations := sweep.invocations
    evaluated := sweep.evaluated
    operational
    nonOperational := sweep.domain.size - operational
    unclassified := grid.numPoints - sweep.domain.size
    total := grid.numPoints
    runtime }

/-- Judges one batch in a phase of its own. -/
def onePhase (evaluator : Evaluator K m) (grid : Grid K) (isActive : Bool) (name : String)
    (batch : List Cell) : m (Sweep grid) := do
  let (_, sweep) ← ((start grid isActive).report [.phaseStart name]).evaluate evaluator batch
  return sweep.report [.phaseFinish]

def gridSearch (evaluator : Evaluator K m) (grid : Grid K) (isActive : Bool) : m (Sweep grid) :=
  onePhase evaluator grid isActive "Grid Search" grid.cells

/-- Judges cells drawn at random; a cell drawn twice is judged once. -/
def randomSampling {σ : Type} [RandomSource σ] (evaluator : Evaluator K m) (grid : Grid K)
    (isActive : Bool) (samples : Nat) (random : σ) : m (Sweep grid) :=
  onePhase evaluator grid isActive "Random Sampling" (grid.drawCells samples random)

/-- The unclassified cells beside the given ones. -/
def wave (sweep : Sweep grid) (frontier : List Cell) : List Cell :=
  openAmong sweep.domain (frontier.flatMap grid.neighbours)

/-- Judges the cells beside the frontier, then those beside the ones found operational, and so on
until nothing new comes up; at most the given number of further waves are made. The number of waves
is returned with the sweep after them. -/
def expand (evaluator : Evaluator K m) : Nat → Nat → List Cell → Sweep grid → m (Nat × Sweep grid)
  | 0, waves, _, sweep => return (waves, sweep)
  | more + 1, waves, frontier, sweep =>
    let wave := sweep.wave frontier
    if wave.isEmpty then return (waves, sweep)
    else do
      let (frontier, sweep) ← sweep.evaluate evaluator wave
      expand evaluator more (waves + 1) frontier sweep

/-- Fails if a seed lies outside the grid, or if there are no seeds at all. -/
def checkSeeds (grid : Grid K) (seeds : Seeds) : Except (SettingsError K) Unit :=
  match seeds.given.find? fun cell => ¬ grid.Contains cell with
  | some cell => .error (.seedOutside cell.x cell.y)
  | none => if seeds.given.isEmpty ∧ seeds.drawn = 0 then .error .noSeeds else .ok ()

/-- Counts the cells of the grid before a sweep. A flood looks its seeds up in the grid first, for which it takes
the number of values along each axis. There is no count where a number that is needed for it is
beyond machine words. -/
def countCells (grid : Grid K) (seeds : Option Seeds) : Except (SimulationError K) (Option Nat) := do
  if let some seeds := seeds then
    if seeds.given ≠ [] ∧ grid.dimensions? = none then return none
    (checkSeeds grid seeds).mapError SimulationError.settings
  return grid.numPoints?

/-- Judges seeds and everything that can be reached from them through operational cells. What no
seed reaches stays unclassified. -/
def floodFill {σ : Type} [RandomSource σ] [MonadLiftT (Except (SimulationError K)) m]
    (evaluator : Evaluator K m) (grid : Grid K) (isActive : Bool) (seeds : Seeds) (random : σ) :
    m (Sweep grid) := do
  (checkSeeds grid seeds).mapError SimulationError.settings
  let batch := grid.drawCells seeds.drawn random ++ seeds.given
  let seeding := (start grid isActive).report [.phaseStart "Seeding"]
  let (frontier, seeded) ← seeding.evaluate evaluator batch
  let found := s!"{frontier.length} of {(batchOf batch).length} seed points are operational"
  let seeded := seeded.report [.message found, .phaseFinish, .phaseStart "Expansion"]
  let (waves, expanded) ← seeded.expand evaluator grid.numPoints 0 frontier
  let unreached := grid.numPoints - expanded.domain.size
  let left := s!"{waves} waves, {unreached} points not reached"
  return expanded.report [.message left, .phaseFinish]

end Sweep

end DanglingBond
