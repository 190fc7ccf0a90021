import DanglingBond.Gate.InputPattern
import DanglingBond.Gate.TruthTable
import DanglingBond.Search.Simulation
import DanglingBond.Stability.Extremes

/-!
# Operability

A layout is an operational gate when, under every input pattern, all ground states read the bits of
the truth tables on the output pairs. It may further be asked that no wire has a kink, a pair that
disagrees with the bit that its wire carries.
-/

namespace DanglingBond

inductive OperationalStatus where
  | operational
  | nonOperational
deriving DecidableEq, Repr, Inhabited

structure OperabilitySettings (K : Type) where
  /-- The physical parameters; whatever their base, gates are simulated with base two. -/
  params : Parameters K
  selection : Selection K
  /-- Whether the other pairs of the wires have to carry the right bits, too. -/
  rejectKinks : Bool
  spacing : Spacing K
deriving Repr

def OperabilitySettings.standard {K : Type} [Scalar K] : OperabilitySettings K where
  params := { Parameters.standard with base := 2 }
  selection := .pruned { detectBase := false }
  rejectKinks := false
  spacing := .standard

structure Assessment where
  status : OperationalStatus
  /-- How many simulations were run up to the verdict. -/
  invocations : Nat
deriving DecidableEq, Repr

/-- A layout read as a gate: its input patterns, its output pairs with their tables, and its
wires. -/
structure Gate where
  patterns : InputPatterns
  outputs : List (BdlPair × TruthTable)
  inputWires : List BdlWire
  outputWires : List BdlWire

namespace Gate

variable {K : Type}

/-- The gate that a layout and its truth tables describe. There is one table for each output pair,
in the order of the pairs, and the tables have one input for each input pair. -/
def ofLayout? [Elementary K] (spacing : Spacing K) (layout : Layout)
    (tables : List TruthTable) : Except LogicError Gate := do
  let arity ← TruthTable.commonArity tables
  let patterns := InputPatterns.ofLayout spacing layout
  if arity ≠ patterns.numInputs then throw (.inputCountMismatch arity patterns.numInputs)
  let outputPairs := BdlPair.ofLayout spacing layout .output
  if outputPairs.isEmpty then throw .noOutputPairs
  if outputPairs.length ≠ tables.length then
    throw (.outputCountMismatch tables.length outputPairs.length)
  return {
    patterns
    outputs := outputPairs.zip tables
    inputWires := BdlWire.ofLayout spacing layout .input
    outputWires := BdlWire.ofLayout spacing layout .output }

section

variable (gate : Gate) (chargeAt? : Coord → Option Charge) (pattern : Nat)

/-- Every output pair reads the bit of its table. -/
def OutputsMatch : Prop :=
  ∀ output ∈ gate.outputs,
    output.1.Encodes chargeAt? (BdlWire.directionOf gate.outputWires output.1)
      (output.2.bit pattern)

instance : Decidable (gate.OutputsMatch chargeAt? pattern) :=
  inferInstanceAs (Decidable (∀ output ∈ gate.outputs, _))

/-- The pairs of a wire, apart from those of a kind that is left out, carry a bit. -/
def WireCarries (wire : BdlWire) (omitted : Option SiteKind) (bit : Bool) : Prop :=
  ∀ pair ∈ wire.pairs, some pair.kind ≠ omitted → pair.Encodes chargeAt? wire.direction bit

instance (wire : BdlWire) (omitted : Option SiteKind) (bit : Bool) :
    Decidable (WireCarries chargeAt? wire omitted bit) :=
  inferInstanceAs (Decidable (∀ pair ∈ wire.pairs, _))

/-- The wires of all inputs carry the bits of the pattern; the input pairs themselves, of which one
dot is missing, are left out. -/
def InputWiresCarry : Prop :=
  ∀ entry ∈ gate.patterns.inputs.reverse.zipIdx, ∀ wire ∈ gate.inputWires,
    wire.contains entry.1.1 → WireCarries chargeAt? wire (some .input) (pattern.testBit entry.2)

instance : Decidable (gate.InputWiresCarry chargeAt? pattern) :=
  inferInstanceAs (Decidable (∀ entry ∈ gate.patterns.inputs.reverse.zipIdx, _))

def OutputWiresCarry : Prop :=
  ∀ output ∈ gate.outputs, ∀ wire ∈ gate.outputWires,
    wire.contains output.1 → WireCarries chargeAt? wire none (output.2.bit pattern)

instance : Decidable (gate.OutputWiresCarry chargeAt? pattern) :=
  inferInstanceAs (Decidable (∀ output ∈ gate.outputs, _))

/-- A ground state with these charges does what the gate should do under a pattern. -/
def Accepts (rejectKinks : Bool) : Prop :=
  gate.OutputsMatch chargeAt? pattern ∧
    (rejectKinks → gate.InputWiresCarry chargeAt? pattern ∧ gate.OutputWiresCarry chargeAt? pattern)

instance (rejectKinks : Bool) : Decidable (gate.Accepts chargeAt? pattern rejectKinks) :=
  inferInstanceAs (Decidable (_ ∧ (_ → _ ∧ _)))

end

variable [Elementary K] {σ : Type} [RandomSource σ]

/-- Simulates the gate under one pattern. A gate in which positive charges can occur is rejected
without a simulation, and so is, after it, one without ground states. -/
def assessPattern (environment : Environment σ) (settings : OperabilitySettings K) (gate : Gate)
    (pattern : Nat) : Except (SimulationError K) Assessment := do
  let params := { settings.params with base := 2 }
  let g ← (Geometry.ofLayout? (gate.patterns.apply pattern) params).mapError .parameters
  if Checker.standard.canPositiveOccur g then return ⟨.nonOperational, 0⟩
  let outcome ← simulate environment settings.selection g
  if outcome.status = .timedOut then throw (.incomplete outcome.engine)
  let groundStates := outcome.groundStates
  let accepted := groundStates ≠ [] ∧
    ∀ s ∈ groundStates, gate.Accepts s.chargeAt? pattern settings.rejectKinks
  return ⟨if accepted then .operational else .nonOperational, 1⟩

/-- Goes through patterns up to the first under which the gate fails. -/
def assessAll (environment : Nat → Environment σ) (settings : OperabilitySettings K) (gate : Gate) :
    List Nat → Nat → Except (SimulationError K) Assessment
  | [], invocations => .ok ⟨.operational, invocations⟩
  | pattern :: patterns, invocations => do
    let verdict ← assessPattern (environment pattern) settings gate pattern
    let invocations := invocations + verdict.invocations
    if verdict.status = .operational then
      assessAll environment settings gate patterns invocations
    else return ⟨.nonOperational, invocations⟩

end Gate

/-- Judges whether a layout computes the functions of the truth tables. The simulation of each
pattern has an environment of its own. -/
def assess {K σ : Type} [Elementary K] [RandomSource σ] (environment : Nat → Environment σ)
    (settings : OperabilitySettings K) (layout : Layout) (tables : List TruthTable) :
    Except (SimulationError K) Assessment := do
  let gate ← (Gate.ofLayout? settings.spacing layout tables).mapError .logic
  gate.assessAll environment settings (List.range gate.patterns.numPatterns) 0

end DanglingBond
