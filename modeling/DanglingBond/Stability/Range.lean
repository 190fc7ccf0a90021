import DanglingBond.Stability

/-!
# Ranges of potentials

What is only known of a potential while some charges are still open: that it lies in a range. A
range with no value in it keeps no charge stable.
-/

namespace DanglingBond

/-- The values that a potential may take: none at all, or those between two bounds. -/
inductive PotentialRange (K : Type) where
  | empty
  | between (low high : K)
deriving Repr

namespace PotentialRange

variable {K : Type} [Scalar K]

def zero : PotentialRange K := .between 0 0

/-- The sums of a value of one range and a value of the other. -/
def add : PotentialRange K → PotentialRange K → PotentialRange K
  | .between low high, .between low' high' => .between (low + low') (high + high')
  | _, _ => .empty

/-- The narrowest range around some values; a value that is no number is passed over. -/
def hull (values : List K) : PotentialRange K :=
  match values.filter fun v => decide (v ≤ v) with
  | [] => .empty
  | first :: others =>
    .between (others.foldl Scalar.least first) (others.foldl Scalar.greatest first)

end PotentialRange

namespace Checker

variable {K : Type} [Scalar K]

/-- Whether `state` may be stable in a local potential that is made up of a known part and a part
within a range. -/
def MayBeStableWith (checker : Checker K) (params : Parameters K) (state : Charge) (known : K) :
    PotentialRange K → Prop
  | .empty => False
  | .between low high => checker.MayBeStable params state (known + low) (known + high)

instance (checker : Checker K) (params : Parameters K) (state : Charge) (known : K)
    (range : PotentialRange K) : Decidable (checker.MayBeStableWith params state known range) :=
  match range with
  | .empty => inferInstanceAs (Decidable False)
  | .between _ _ => inferInstanceAs (Decidable (checker.MayBeStable params state _ _))

end Checker

end DanglingBond
