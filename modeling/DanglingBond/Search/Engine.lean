import DanglingBond.Text.Blank

/-!
# Search engines

The ways to look for the physically valid charge assignments of a layout, and their names.
-/

namespace DanglingBond

/-- A way to look for physically valid charge assignments. -/
inductive Engine where
  /-- Tries every assignment. -/
  | exhaustive
  /-- Assigns site by site and cuts what can no longer become stable. -/
  | pruned
  /-- Grows sets of negative sites at random. -/
  | growth
  /-- Composes the assignments of clusters of neighbouring sites. -/
  | clustered
deriving DecidableEq, Repr

namespace Engine

def name : Engine → String
  | exhaustive => "ExGS"
  | pruned => "QuickExact"
  | growth => "QuickSim"
  | clustered => "ClusterComplete"

def all : List Engine := [exhaustive, pruned, growth, clustered]

/-- Whether a completed search has found every physically valid assignment. -/
def isExact (engine : Engine) : Bool := engine ≠ growth

/-- Reads the name of an engine in any case of letters, with blanks around it. -/
def parse? (text : String) : Option Engine :=
  let written := (Text.trimmed text.toList).map Char.toLower
  all.find? fun engine => engine.name.toList.map Char.toLower = written

def unknownName : String :=
  "unknown simulation engine, expected one of exgs, quickexact, quicksim, clustercomplete"

end Engine

end DanglingBond
