import DanglingBond.Prelude

/-!
# Truth tables

A Boolean function of `arity` inputs by its values. The value for an assignment stands in the row
whose bit `i` is input `i`; written out, the highest row comes first.
-/

namespace DanglingBond

def TruthTable.maxArity : Nat := 16

/-- A Boolean function by its table of values. -/
structure TruthTable where
  arity : Nat
  rows : Vector Bool (2 ^ arity)
  arity_le : arity ≤ TruthTable.maxArity
deriving DecidableEq, Repr

/-- Why a list of tables does not specify a gate. -/
inductive LogicError where
  | invalidTruthTable (text : String)
  | emptySpecification
  | arityMismatch (first other : Nat)
  | inputCountMismatch (arity inputPairs : Nat)
  | outputCountMismatch (tables outputPairs : Nat)
  | noOutputPairs
deriving DecidableEq, Repr

def LogicError.message : LogicError → String
  | invalidTruthTable text =>
    s!"Invalid truth table '{text}': expected a non-empty binary string whose length is "
      ++ "a power of two"
  | emptySpecification => "At least one truth table is required"
  | arityMismatch first other => s!"Truth tables have different arities ({first} and {other})"
  | inputCountMismatch arity inputPairs =>
    s!"Truth tables have {arity} inputs but the layout has {inputPairs} input BDL pairs"
  | outputCountMismatch tables outputPairs =>
    s!"Got {tables} truth tables for {outputPairs} output BDL pairs"
  | noOutputPairs => "The layout has no output BDL pair"

namespace TruthTable

def bitOf? : Char → Option Bool
  | '0' => some false
  | '1' => some true
  | _ => none

/-- The table with the given rows, if they are as many as its arity needs. -/
def ofRows? {arity : Nat} (small : arity ≤ maxArity) (rows : List Bool) : Option TruthTable :=
  if full : rows.toArray.size = 2 ^ arity then some ⟨arity, ⟨rows.toArray, full⟩, small⟩ else none

/-- The table with the given values, the highest row first. Its arity follows from the number of
bytes of the text. -/
def ofText? (text : String) : Option TruthTable :=
  let size := text.utf8ByteSize
  if room : size = 2 ^ size.log2 ∧ size.log2 ≤ maxArity then
    (text.toList.reverse.mapM bitOf?).bind (ofRows? room.2)
  else none

/-- Reads a table from its values, the highest row first. -/
def parse (text : String) : Except LogicError TruthTable :=
  match ofText? text with
  | some table => .ok table
  | none => .error (.invalidTruthTable text)

def text (table : TruthTable) : String :=
  String.ofList (table.rows.toList.reverse.map fun value => if value then '1' else '0')

/-- The value of a row; rows beyond the table read as `false`. -/
def bit (table : TruthTable) (row : Nat) : Bool := table.rows[row]?.getD false

def numRows (table : TruthTable) : Nat := 2 ^ table.arity

def identity : TruthTable := ⟨1, #v[false, true], by decide⟩

def commonArity : List TruthTable → Except LogicError Nat
  | [] => .error .emptySpecification
  | first :: others =>
    match others.find? (·.arity ≠ first.arity) with
    | some other => .error (.arityMismatch first.arity other.arity)
    | none => .ok first.arity

end TruthTable

end DanglingBond
