import DanglingBond.Lattice

/-!
# Layouts

A layout is a finite map from coordinates to site kinds that remembers the order in which the
coordinates were first occupied. The place of a site in this order is its index, and site `0` is the
most significant digit of a charge index.
-/

namespace DanglingBond

/-- The role of a dangling bond; `empty` stands for a place without one. -/
inductive SiteKind where
  | empty
  | normal
  | input
  | output
deriving DecidableEq, Repr, Inhabited

namespace SiteKind

instance : Ord SiteKind where
  compare := compareOn SiteKind.ctorIdx

def name : SiteKind → String
  | empty => "empty"
  | normal => "normal"
  | input => "input"
  | output => "output"

end SiteKind

/-- A dangling bond: where it is and what it is for. -/
structure Site where
  coord : Coord
  kind : SiteKind
deriving DecidableEq, Repr, Inhabited

/-- The dangling bonds of a surface in the order in which their places were occupied. -/
structure Layout where
  sites : List Site := []
deriving DecidableEq, Repr, Inhabited

namespace Layout

def indexOf? (layout : Layout) (coord : Coord) : Option Nat :=
  layout.sites.findIdx? (·.coord = coord)

/-- Puts a dangling bond of the given kind at a coordinate, or takes it away for `empty`. A place
that is occupied already keeps its index. -/
def assign (layout : Layout) (coord : Coord) (kind : SiteKind) : Layout :=
  match layout.indexOf? coord, kind with
  | some index, .empty => ⟨layout.sites.eraseIdx index⟩
  | none, .empty => layout
  | some index, kind => ⟨layout.sites.set index ⟨coord, kind⟩⟩
  | none, kind => ⟨layout.sites ++ [⟨coord, kind⟩]⟩

/-- The index that `assign` gives to the coordinate: none when the place is left empty. -/
def assignedIndex? (layout : Layout) (coord : Coord) (kind : SiteKind) : Option Nat :=
  if kind = .empty then none else some ((layout.indexOf? coord).getD layout.sites.length)

def ofSites (sites : List Site) : Layout :=
  sites.foldl (fun layout site => layout.assign site.coord site.kind) {}

def ofCoords (coords : List Coord) : Layout := ofSites (coords.map (⟨·, .normal⟩))

def size (layout : Layout) : Nat := layout.sites.length

def isEmpty (layout : Layout) : Bool := layout.sites.isEmpty

def contains (layout : Layout) (coord : Coord) : Bool := (layout.indexOf? coord).isSome

def kindAt (layout : Layout) (coord : Coord) : SiteKind :=
  ((layout.sites.find? (·.coord = coord)).map (·.kind)).getD .empty

/-- The coordinates of the sites of one kind, in index order. -/
def coordsOfKind (layout : Layout) (kind : SiteKind) : List Coord :=
  (layout.sites.filter (·.kind = kind)).map (·.coord)

end Layout

end DanglingBond
