import DanglingBond.Scalar

/-!
# Charge states

A dangling bond holds one electron too many, just its own, or one too few.
-/

namespace DanglingBond

/-- The charge of a dangling bond, in the order of the digits of a charge index. -/
inductive Charge where
  | negative
  | neutral
  | positive
deriving DecidableEq, Repr, Inhabited

namespace Charge

/-- The charge in units of the elementary charge. -/
def sign : Charge → Int
  | negative => -1
  | neutral => 0
  | positive => 1

def digit : Charge → Nat
  | negative => 0
  | neutral => 1
  | positive => 2

def ofSign? : Int → Option Charge
  | -1 => some negative
  | 0 => some neutral
  | 1 => some positive
  | _ => none

def ofDigit? : Nat → Option Charge
  | 0 => some negative
  | 1 => some neutral
  | 2 => some positive
  | _ => none

def value {K : Type} [Scalar K] (charge : Charge) : K := (charge.sign : K)

instance : Ord Charge where
  compare := compareOn digit

/-- The charges of a search space of the given base: a positive charge exists from base three on. -/
def ofBase (base : Nat) : List Charge :=
  if 3 ≤ base then [negative, neutral, positive] else [negative, neutral]

def symbol : Charge → Char
  | negative => '-'
  | neutral => '0'
  | positive => '+'

/-- Reads a charge written by its symbol or as a signed digit. -/
def parse? : String → Option Charge
  | "-" | "-1" => some negative
  | "0" => some neutral
  | "+" | "1" | "+1" => some positive
  | _ => none

/-- Whether one assignment comes at or before another in charge-index order, that is,
lexicographically. -/
def listLE (first second : List Charge) : Bool := (compareList first second).isLE
where
  compareList : List Charge → List Charge → Ordering
    | [], [] => .eq
    | [], _ :: _ => .lt
    | _ :: _, [] => .gt
    | c :: cs, d :: ds => (compare c d).then (compareList cs ds)

end Charge

end DanglingBond
