/-!
# Sources of random indices

A search that makes random choices only ever asks for an index below a bound. A `RandomSource` is
anything that answers such questions one after the other.
-/

namespace DanglingBond

/-- A state from which indices below a bound can be drawn. -/
class RandomSource (σ : Type) where
  /-- An index below `bound`, and the state after drawing it. -/
  draw (bound : Nat) (positive : 0 < bound) (state : σ) : Fin bound × σ

/-- An element of a non-empty list, drawn at random. -/
def RandomSource.choose? {σ α : Type} [RandomSource σ] (state : σ) (choices : List α) :
    Option (α × σ) :=
  if h : 0 < choices.length then
    let (index, next) := draw choices.length h state
    some (choices[index], next)
  else none

end DanglingBond
