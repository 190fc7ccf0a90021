/-!
# Progress of a sweep

A sweep tells what it is doing: it goes through phases, works on tasks of a known number of steps,
and says a word in between.
-/

namespace DanglingBond

inductive SweepEvent where
  | phaseStart (name : String)
  | phaseFinish
  | taskStart (steps : Nat)
  | taskStep
  | taskFinish
  | message (text : String)
deriving DecidableEq, Repr

/-- The record of what a sweep has told, in order. Nothing is recorded where nobody listens. -/
structure Reporter where
  isActive : Bool
  events : List SweepEvent := []
deriving DecidableEq, Repr

namespace Reporter

def report (reporter : Reporter) (events : List SweepEvent) : Reporter :=
  if reporter.isActive then { reporter with events := reporter.events ++ events } else reporter

/-- The reporter as text, which only says whether somebody listens. -/
def text (reporter : Reporter) : String :=
  s!"ProgressReporter \x7b active: {reporter.isActive} \x7d"

end Reporter

end DanglingBond
