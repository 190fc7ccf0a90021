import DanglingBond.Decimal.Fixed
import DanglingBond.Scalar.Float
import DanglingBond.Search.Outcome

/-!
# Reports

The summary of an outcome as text, one line for each fact. Energies have six places, times three.
-/

namespace DanglingBond

namespace Report

/-- Milliseconds as seconds with three places. -/
def seconds (milliseconds : Nat) : String :=
  let fraction := String.ofList (Decimal.padded 3 (milliseconds % 1000))
  s!"{milliseconds / 1000}.{fraction} s"

def line (label value : String) : String :=
  String.ofList (label.toList.rightpad 20 ' ') ++ value ++ "\n"

def statusText : SearchStatus → String
  | .complete => "complete"
  | .timedOut => "timed out (partial result)"

def energyColumn (energy : Float) : String :=
  String.ofList ((Decimal.fixed 6 energy).toList.leftpad 12 ' ')

end Report

open Report in
def Outcome.report {g : Geometry Float} (outcome : Outcome g) : String :=
  let minimum := match outcome.minimumEnergy? with
    | some energy => Decimal.fixed 6 energy ++ " eV"
    | none => "n/a"
  let facts :=
    [line "Engine:" outcome.engine.name,
      line "Status:" (statusText outcome.status),
      line "Runtime:" (seconds outcome.runtime),
      line "Valid layouts:" (toString outcome.size),
      line "Minimum energy:" minimum]
  let details := outcome.details.toList.map fun (name, value) => line (name ++ ":") value
  let levels := outcome.energyDistribution.map fun (energy, count) =>
    "  " ++ energyColumn energy ++ s!" eV  x{count}\n"
  let distribution := if levels.isEmpty then [] else "Energy distribution:\n" :: levels
  String.join (facts ++ details ++ distribution)

end DanglingBond
