import DanglingBond.Parameters
import DanglingBond.Scalar.Float
import DanglingBond.Toml.Document

/-!
# Parameter files

Parameters are kept in TOML files. Keys that are missing take their standard values and unknown keys
are passed over once their numbers have been read, but a lattice has to be complete.
-/

namespace DanglingBond

/-- Why a file yields no parameters. -/
inductive ParameterFileError where
  /-- There is no file, or what it holds is no text. -/
  | unreadable
  /-- The text is no document, or a value has the wrong type. -/
  | malformed
  | invalid (cause : ParameterError Float)
deriving Repr

namespace Parameters

/-- A number; whole numbers need no point but have to fit 64 bits, with a sign or without one. -/
def number? : Toml.Value → Option Float
  | .integer z =>
    if -2 ^ 63 ≤ z ∧ z < 2 ^ 64 then
      let magnitude := Decimal.toFloat z.natAbs 0
      some (if z < 0 then -magnitude else magnitude)
    else none
  | .float x => some x
  | _ => none

/-- A base, which has to fit a byte. -/
def base? : Toml.Value → Option Nat
  | .integer z => if 0 ≤ z ∧ z < 256 then some z.toNat else none
  | _ => none

/-- A lattice: a table of its three constants, or an array that begins with them. All of a table is
read, but of an array only the constants are. -/
def lattice? : Toml.Value → Option (Lattice Float)
  | .table _ entries => do
    if !Toml.Entries.areReadable entries then none
    let constant? (key : String) : Option Float := (Toml.Entries.get? entries key).bind number?
    return ⟨← constant? "a", ← constant? "b", ← constant? "c"⟩
  | .array (a :: b :: c :: _) => do return ⟨← number? a, ← number? b, ← number? c⟩
  | _ => none

/-- The value under a key, or the one that is used where the key is missing. -/
def entryOr {α : Type} (entries : Toml.Entries) (key : String) (fallback : α)
    (read? : Toml.Value → Option α) : Option α :=
  match entries.get? key with
  | some value => read? value
  | none => some fallback

def ofEntries? (entries : Toml.Entries) : Option (Parameters Float) := do
  if !Toml.Entries.areReadable (entries.filter fun (key, _) => key ≠ "lattice") then none
  let standard : Parameters Float := .standard
  return {
    epsilonR := ← entryOr entries "epsilon_r" standard.epsilonR number?
    lambdaTF := ← entryOr entries "lambda_tf" standard.lambdaTF number?
    muMinus := ← entryOr entries "mu_minus" standard.muMinus number?
    base := ← entryOr entries "base" standard.base base?
    lattice := ← entryOr entries "lattice" standard.lattice lattice? }

def ofFile (contents : Option ByteArray) : Except ParameterFileError (Parameters Float) := do
  let some text := contents.bind String.fromUTF8? | throw .unreadable
  let some params := (Toml.parse? text).bind ofEntries? | throw .malformed
  params.validate.mapError .invalid
  return params

end Parameters

end DanglingBond
