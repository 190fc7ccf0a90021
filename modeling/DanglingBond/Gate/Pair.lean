import DanglingBond.Layout

/-!
# Pairs of dots

Binary-dot logic keeps a bit in two close dangling bonds that share one electron: where the electron
sits is the bit. Pairs are formed among the dots of one kind, the closest two first.
-/

namespace DanglingBond

structure Spacing (K : Type) where
  /-- The most that the two dots of a pair are apart, in nanometres. -/
  pairThreshold : K
  /-- The facing dots of neighbouring pairs in a wire are closer than this, in nanometres. -/
  wireThreshold : K
  lattice : Lattice K
deriving Repr

def Spacing.standard {K : Type} [Scalar K] : Spacing K := ⟨2.0, 2.0, .silicon⟩

/-- Two close dots of one kind, the upper one first in the order of coordinates. -/
structure BdlPair where
  upper : Coord
  lower : Coord
  kind : SiteKind
deriving DecidableEq, Repr

namespace BdlPair

instance : Ord BdlPair where
  compare := compareLex (compareOn BdlPair.upper)
    (compareLex (compareOn BdlPair.lower) (compareOn BdlPair.kind))

def le (p q : BdlPair) : Bool := (compare p q).isLE

/-- The pair of two dots, which may be given in any order. -/
def of (kind : SiteKind) (a b : Coord) : BdlPair :=
  if (compare a b).isLE then ⟨a, b, kind⟩ else ⟨b, a, kind⟩

def SamePlace (p q : BdlPair) : Prop := p.upper = q.upper ∧ p.lower = q.lower

instance (p q : BdlPair) : Decidable (p.SamePlace q) := inferInstanceAs (Decidable (_ ∧ _))

def SameRows (p q : BdlPair) : Prop := p.upper.y = q.upper.y ∧ p.lower.y = q.lower.y

instance (p q : BdlPair) : Decidable (p.SameRows q) := inferInstanceAs (Decidable (_ ∧ _))

def text (p : BdlPair) : String := s!"{p.kind.name} BDL [{p.upper.text} | {p.lower.text}]"

/-- All ways to take two elements of a list, the earlier one first. -/
def twoOf {α : Type} : List α → List (α × α)
  | [] => []
  | first :: others => others.map (first, ·) ++ twoOf others

/-- Goes through two-element choices and keeps those whose dots are both still free. -/
def matchUp (taken : List Coord) : List (Coord × Coord) → List (Coord × Coord)
  | [] => []
  | (a, b) :: choices =>
    if a ∈ taken ∨ b ∈ taken then matchUp taken choices
    else (a, b) :: matchUp (a :: b :: taken) choices

/-- The choices of two dots, the closest first, up to the greatest distance within a pair. -/
def closeChoices {K : Type} [Elementary K] (spacing : Spacing K) (dots : List Coord) :
    List (Coord × Coord) :=
  let measured := (twoOf dots).map fun (a, b) => (Coord.distance spacing.lattice a b, a, b)
  let sorted := measured.mergeSort fun p q => Scalar.sortsBefore p.1 q.1
  (sorted.takeWhile fun choice => ¬ spacing.pairThreshold < choice.1).map (·.2)

/-- The pairs among the dots of one kind of a layout, in order. -/
def ofLayout {K : Type} [Elementary K] (spacing : Spacing K) (layout : Layout) (kind : SiteKind) :
    List BdlPair :=
  let matched := matchUp [] (closeChoices spacing (layout.coordsOfKind kind))
  (matched.map fun (a, b) => of kind a b).mergeSort le

end BdlPair

end DanglingBond
