import DanglingBond.Prelude

/-!
# Numbers

Every physical quantity of the library is a `Scalar`. The simulation is written once over this
class: it runs at `Float`, and the same definitions can be read over an ordered field, where sums
and products are exact. `Elementary` adds the two functions that only the geometry of a layout
needs. The helpers below are those in which a number that compares with nothing (not even itself)
has to be handled with care.
-/

namespace DanglingBond

/-- Ordered arithmetic with decimal literals, an order for sorting, a floor and a written form. -/
class Scalar (K : Type) extends
    Zero K, One K, Add K, Sub K, Mul K, Div K, Neg K, LT K, LE K, IntCast K, OfScientific K where
  decidableLT (a b : K) : Decidable (a < b)
  decidableLE (a b : K) : Decidable (a ≤ b)
  /-- A total order on all values, used for sorting; on ordinary numbers it is `≤`. -/
  sortsBefore (a b : K) : Bool
  isFinite (a : K) : Bool
  /-- The greatest integer at most `a`. -/
  floor (a : K) : Int
  text (a : K) : String

/-- Scalars with a square root and an exponential. -/
class Elementary (K : Type) extends Scalar K where
  sqrt : K → K
  exp : K → K

namespace Scalar

variable {K : Type} [Scalar K]

instance (a b : K) : Decidable (a < b) := decidableLT a b

instance (a b : K) : Decidable (a ≤ b) := decidableLE a b

/-- The smaller of two values; an operand that is no number is passed over. -/
def least (a b : K) : K := if a ≤ b then a else if b ≤ b then b else a

/-- The larger of two values; an operand that is no number is passed over. -/
def greatest (a b : K) : K := if b ≤ a then a else if b ≤ b then b else a

/-- The integer nearest to `a`, a half going away from zero. -/
def round (a : K) : Int :=
  let magnitude := if a < 0 then -a else a
  let whole := floor magnitude
  let nearest := if (0.5 : K) ≤ magnitude - (whole : K) then whole + 1 else whole
  if a < 0 then -nearest else nearest

/-- The sum of `n` terms, added from the first to the last onto zero. -/
def sum {n : Nat} (term : Fin n → K) : K :=
  Fin.foldl n (fun total i => total + term i) 0

/-- The sum of a list, added from the first element to the last onto zero. -/
def sumList (terms : List K) : K := terms.foldl (· + ·) 0

end Scalar

/-- The number of values of a machine word, which sizes and charge indices have to stay below. -/
def wordLimit : Nat := 2 ^ 64

/-- A natural number, if a machine word holds it. -/
def word? (n : Nat) : Option Nat := if n < wordLimit then some n else none

theorem word?_eq_some_iff {n word : Nat} : word? n = some word ↔ n < wordLimit ∧ n = word := by
  by_cases held : n < wordLimit <;> simp [word?, held]

theorem word?_eq_none_iff {n : Nat} : word? n = none ↔ wordLimit ≤ n := by
  rw [← Nat.not_lt]
  by_cases held : n < wordLimit <;> simp [word?, held]

/-- The natural number nearest to `z` that a machine word holds. -/
def clampToWord (z : Int) : Nat := min z.toNat (wordLimit - 1)

/-- The integer nearest to `z` that a signed machine word holds. -/
def clampToSignedWord (z : Int) : Int := max (-(2 ^ 63)) (min z (2 ^ 63 - 1))

end DanglingBond
