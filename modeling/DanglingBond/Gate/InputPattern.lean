import DanglingBond.Charge
import DanglingBond.Gate.Wire

/-!
# Input patterns

An input of a gate is set by leaving only one dot of its input pair: the one that holds the electron
when the pair means the wanted bit. A pattern sets all inputs at once. Its bit `0` belongs to the
last input pair.
-/

namespace DanglingBond

namespace BdlPair

/-- The dot that is negative when the pair, read in a direction, means a bit. -/
def negativeDot (pair : BdlPair) (direction : Direction) (bit : Bool) : Coord :=
  if bit = direction.lowerMeansOne then pair.lower else pair.upper

/-- The dot that is neutral when the pair, read in a direction, means a bit. -/
def neutralDot (pair : BdlPair) (direction : Direction) (bit : Bool) : Coord :=
  if bit = direction.lowerMeansOne then pair.upper else pair.lower

/-- The charges of a surface at the dots mean a bit. -/
def Encodes (pair : BdlPair) (chargeAt? : Coord → Option Charge) (direction : Direction)
    (bit : Bool) : Prop :=
  chargeAt? (pair.negativeDot direction bit) = some .negative ∧
    chargeAt? (pair.neutralDot direction bit) = some .neutral

instance (pair : BdlPair) (chargeAt? : Coord → Option Charge) (direction : Direction)
    (bit : Bool) : Decidable (pair.Encodes chargeAt? direction bit) :=
  inferInstanceAs (Decidable (_ ∧ _))

end BdlPair

/-- A layout with its input pairs in order, each with the direction of its wire. -/
structure InputPatterns where
  layout : Layout
  inputs : List (BdlPair × Direction)
deriving Repr

namespace InputPatterns

def ofLayout {K : Type} [Elementary K] (spacing : Spacing K) (layout : Layout) : InputPatterns :=
  let wires := BdlWire.ofLayout spacing layout .input
  { layout
    inputs := (BdlPair.ofLayout spacing layout .input).map fun pair =>
      (pair, BdlWire.directionOf wires pair) }

def numInputs (patterns : InputPatterns) : Nat := patterns.inputs.length

/-- The number of patterns; beyond sixty-three inputs it no longer grows. -/
def numPatterns (patterns : InputPatterns) : Nat := 2 ^ min patterns.numInputs 63

/-- The input pair that a bit sets, with its direction. -/
def pairForBit? (patterns : InputPatterns) (bit : Nat) : Option (BdlPair × Direction) :=
  patterns.inputs.reverse[bit]?

def setInput (layout : Layout) (input : BdlPair × Direction) (bit : Bool) : Layout :=
  let (pair, direction) := input
  let emptied := layout.assign (pair.neutralDot direction bit) .empty
  emptied.assign (pair.negativeDot direction bit) .input

/-- Sets the inputs one by one to the bits of a number, the lowest bit first. -/
def setAll (layout : Layout) : List (BdlPair × Direction) → Nat → Layout
  | [], _ => layout
  | input :: inputs, number => setAll (setInput layout input (number % 2 = 1)) inputs (number / 2)

def apply (patterns : InputPatterns) (pattern : Nat) : Layout :=
  setAll patterns.layout patterns.inputs.reverse pattern

def all (patterns : InputPatterns) : List (Nat × Layout) :=
  (List.range patterns.numPatterns).map fun pattern => (pattern, patterns.apply pattern)

end InputPatterns

end DanglingBond
