import DanglingBond.Binary64
import DanglingBond.Charge
import DanglingBond.Charge.Codec
import DanglingBond.Decimal.Fixed
import DanglingBond.Decimal.Reading
import DanglingBond.Decimal.Rounding
import DanglingBond.Decimal.Scientific
import DanglingBond.Decimal.Shortest
import DanglingBond.Gate.InputPattern
import DanglingBond.Gate.Operability
import DanglingBond.Gate.Pair
import DanglingBond.Gate.TruthTable
import DanglingBond.Gate.Wire
import DanglingBond.Geometry
import DanglingBond.Lattice
import DanglingBond.Layout
import DanglingBond.Parameters
import DanglingBond.Parameters.File
import DanglingBond.Random.ChaCha
import DanglingBond.Random.Source
import DanglingBond.Scalar
import DanglingBond.Scalar.Float
import DanglingBond.Search.Clustered
import DanglingBond.Search.Descent
import DanglingBond.Search.DisjointSets
import DanglingBond.Search.Engine
import DanglingBond.Search.Environment
import DanglingBond.Search.Error
import DanglingBond.Search.Exhaustive
import DanglingBond.Search.Growth
import DanglingBond.Search.Outcome
import DanglingBond.Search.Partition
import DanglingBond.Search.Pruned
import DanglingBond.Search.Report
import DanglingBond.Search.Settings
import DanglingBond.Search.Simulation
import DanglingBond.Settings
import DanglingBond.Stability
import DanglingBond.Stability.Extremes
import DanglingBond.Stability.Range
import DanglingBond.Surface
import DanglingBond.Surface.Operation
import DanglingBond.Sweep
import DanglingBond.Sweep.Axis
import DanglingBond.Sweep.Domain
import DanglingBond.Sweep.Event
import DanglingBond.Sweep.Grid
import DanglingBond.Text.Blank
import DanglingBond.Toml.Document
import DanglingBond.Toml.Literal
import DanglingBond.Toml.Quoted
import DanglingBond.Toml.Value
import DanglingBond.Proofs.Geometry.Repulsion
import DanglingBond.Proofs.Surface.Cache
import DanglingBond.Proofs.Surface.History
import DanglingBond.Proofs.Charge.Index
import DanglingBond.Proofs.Charge.RoundTrip
import DanglingBond.Proofs.Surface.Refusal
import DanglingBond.Proofs.Surface.Stepping
import DanglingBond.Proofs.Search.Outcome
import DanglingBond.Proofs.Search.Exhaustive
import DanglingBond.Proofs.Search.Descent
import DanglingBond.Proofs.Search.Pruned
import DanglingBond.Proofs.Search.Partition
import DanglingBond.Proofs.Search.DisjointSets
import DanglingBond.Proofs.Search.Grouping
import DanglingBond.Proofs.Search.Clustered
import DanglingBond.Proofs.Sweep.Cell
import DanglingBond.Proofs.Sweep.Evaluation
import DanglingBond.Proofs.Sweep.Flood
import DanglingBond.Proofs.Layout.Occupancy
import DanglingBond.Proofs.Gate.Pair
import DanglingBond.Proofs.Gate.Wire
import DanglingBond.Proofs.Search.GroundState
import DanglingBond.Proofs.Gate.Acceptance
import DanglingBond.Proofs.Gate.Verdict
import DanglingBond.Proofs.Stability.Row
import DanglingBond.Proofs.Search.Growth
import DanglingBond.Proofs.Layout.History
import DanglingBond.Proofs.Search.Renumbering
import DanglingBond.Proofs.Sweep.Accounting
import DanglingBond.Proofs.Stability.Hop
import DanglingBond.Proofs.Stability.GrandPotential
import DanglingBond.Proofs.Search.Repair
import DanglingBond.Proofs.Search.Pruning
import DanglingBond.Proofs.Charge.Successor
import DanglingBond.Proofs.Search.Linkage
import DanglingBond.Proofs.Gate.Matching
import DanglingBond.Proofs.Gate.Reordering
import DanglingBond.Proofs.Gate.Chain
import DanglingBond.Proofs.Gate.Pattern
import DanglingBond.Proofs.Gate.Unbranched
import DanglingBond.Proofs.Gate.Direction
import DanglingBond.Proofs.Stability.Extremes
import DanglingBond.Proofs.Surface.Dependent
import DanglingBond.Proofs.Sweep.Axis
import DanglingBond.Proofs.Stability.Relaxation
import DanglingBond.Proofs.Stability.Apart
import DanglingBond.Proofs.Search.Interruption
import DanglingBond.Proofs.Charge.Capacity
import DanglingBond.Proofs.Sweep.Size
import DanglingBond.Proofs.Scalar.Rounding
import DanglingBond.Proofs.Search.Levels
import DanglingBond.Proofs.Sweep.Progress
import DanglingBond.Proofs.Gate.TruthTable
import DanglingBond.Proofs.Lattice.Offset
import DanglingBond.Proofs.Scalar.Share
import DanglingBond.Proofs.Scalar.Float
import DanglingBond.Proofs.Search.Extension
