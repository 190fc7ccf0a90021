import DanglingBond.Charge

/-!
# Charge indices

The charges of all sites, read as digits with site `0` the most significant, form a number: the
charge index. A `Codec` fixes the radix of each digit, two or three. Indices are machine words, so
an assignment whose number exceeds `wordLimit` has none.
-/

namespace DanglingBond

/-- Why an assignment and an index cannot be matched. -/
inductive CodecError where
  | lengthMismatch (expected actual : Nat)
  | unsupportedState (site : Nat) (state : Charge) (radix : Nat)
  | outOfRange (index sites : Nat)
  | overflow (sites : Nat)
  | invalidRadix (site radix : Nat)
deriving DecidableEq, Repr

def CodecError.message : CodecError → String
  | lengthMismatch expected actual => s!"Expected {expected} charge states, got {actual}"
  | unsupportedState site state radix =>
    s!"Charge state '{state.symbol}' at site {site} is not representable in base {radix}"
  | outOfRange index sites => s!"Charge index {index} is out of range for {sites} sites"
  | overflow sites => s!"Charge index space of {sites} sites does not fit into 64 bits"
  | invalidRadix site radix => s!"Invalid radix {radix} at site {site}, expected 2 or 3"

/-- The radices of a charge index, one for each site. -/
structure Codec where
  radices : List Nat
  two_or_three : ∀ r ∈ radices, r = 2 ∨ r = 3

namespace Codec

/-- The codec with the given radices, unless one of them is neither two nor three. -/
def ofRadices (radices : List Nat) : Except CodecError Codec :=
  if h : ∀ r ∈ radices, r = 2 ∨ r = 3 then .ok ⟨radices, h⟩
  else
    let site := radices.findIdx fun r => r ≠ 2 ∧ r ≠ 3
    .error (.invalidRadix site (radices.getD site 0))

def uniform (sites base : Nat) : Except CodecError Codec := ofRadices (List.replicate sites base)

def size (codec : Codec) : Nat := codec.radices.length

/-- The number of assignments, the product of the radices, if a machine word holds it. -/
def numConfigurations (codec : Codec) : Except CodecError Nat :=
  match codec.radices.foldlM (fun product r =>
      if product * r < wordLimit then some (product * r) else none) 1 with
  | some product => .ok product
  | none => .error (.overflow codec.size)

def maxIndex (codec : Codec) : Except CodecError Nat := do
  return (← codec.numConfigurations) - 1

def checkLength (codec : Codec) (actual : Nat) : Except CodecError Unit :=
  if actual = codec.size then .ok () else .error (.lengthMismatch codec.size actual)

/-- Appends the digits of `states` to `index`, the first of them standing at `site`. -/
def encodeFrom (total site index : Nat) : List Nat → List Charge → Except CodecError Nat
  | r :: radices, s :: states =>
    if r ≤ s.digit then .error (.unsupportedState site s r)
    else if index * r < wordLimit ∧ index * r + s.digit < wordLimit then
      encodeFrom total (site + 1) (index * r + s.digit) radices states
    else .error (.overflow total)
  | _, _ => .ok index

def encode (codec : Codec) (states : List Charge) : Except CodecError Nat := do
  codec.checkLength states.length
  encodeFrom codec.size 0 0 codec.radices states

/-- The digits of `index` as charges, with what is left of it above the first digit. -/
def digitsOf (index : Nat) : List Nat → List Charge × Nat
  | [] => ([], index)
  | r :: radices =>
    let (states, rest) := digitsOf index radices
    (((Charge.ofDigit? (rest % r)).getD .negative) :: states, rest / r)

/-- Writes the charges of `index` over `buffer`. A buffer of the right length is overwritten even
when the index turns out to lie beyond the last one. -/
def decodeInto (codec : Codec) (index : Nat) (buffer : List Charge) :
    Except CodecError Unit × List Charge :=
  match codec.checkLength buffer.length with
  | .error e => (.error e, buffer)
  | .ok () =>
    let (states, rest) := digitsOf index codec.radices
    (if rest = 0 then .ok () else .error (.outOfRange index codec.size), states)

def decode (codec : Codec) (index : Nat) : Except CodecError (List Charge) :=
  let (result, states) := codec.decodeInto index (List.replicate codec.size .negative)
  result.map fun _ => states

/-- The last digit that can be raised within its radix, with the charge it is raised to. -/
def raise? : List Nat → List Charge → Option (Nat × Charge)
  | r :: radices, s :: states =>
    match raise? radices states with
    | some (site, state) => some (site + 1, state)
    | none =>
      if s.digit + 1 < r then (Charge.ofDigit? (s.digit + 1)).map fun state => (0, state)
      else none
  | _, _ => none

/-- The digit that a step to the next index raises; all digits behind it fall back to negative, and
all digits do when there is none. -/
def carry (codec : Codec) (states : List Charge) : Except CodecError (Option (Nat × Charge)) := do
  codec.checkLength states.length
  return raise? codec.radices states

/-- The assignment after raising one digit and lowering all behind it. -/
def wrap (states : List Charge) : Option (Nat × Charge) → List Charge
  | none => states.map fun _ => .negative
  | some (site, state) =>
    states.take site ++ state :: (states.drop (site + 1)).map fun _ => .negative

/-- Steps to the next index; `false` says that the step went past the last one and around. -/
def increment (codec : Codec) (states : List Charge) : Except CodecError (Bool × List Charge) := do
  let raised ← codec.carry states
  return (raised.isSome, wrap states raised)

end Codec

end DanglingBond
