import DanglingBond.Lattice

/-!
# Physical parameters
-/

namespace DanglingBond

inductive Quantity where
  /-- The relative permittivity of the substrate. -/
  | epsilonR
  /-- The screening length in nanometres. -/
  | lambdaTF
  /-- The energy in electronvolts of the transition between negative and neutral. -/
  | muMinus
deriving DecidableEq, Repr

def Quantity.name : Quantity → String
  | epsilonR => "epsilon_r"
  | lambdaTF => "lambda_tf"
  | muMinus => "mu_minus"

structure Parameters (K : Type) where
  epsilonR : K
  lambdaTF : K
  muMinus : K
  /-- How many charge states a site may take, two or three. -/
  base : Nat
  lattice : Lattice K
deriving Repr

inductive ParameterError (K : Type) where
  | notPositive (quantity : Quantity) (value : K)
  | notFinite (quantity : Quantity) (value : K)
  | invalidBase (base : Nat)
deriving Repr

def ParameterError.message {K : Type} [Scalar K] : ParameterError K → String
  | notPositive quantity value =>
    s!"Parameter '{quantity.name}' must be positive and finite, got {Scalar.text value}"
  | notFinite quantity value =>
    s!"Parameter '{quantity.name}' must be finite, got {Scalar.text value}"
  | invalidBase base => s!"Base number must be 2 or 3, got {base}"

namespace Parameters

variable {K : Type} [Scalar K]

/-- The parameters of the silicon surface that are used where none are given. -/
def standard : Parameters K where
  epsilonR := 5.6
  lambdaTF := 5.0
  muMinus := -0.32
  base := 3
  lattice := .silicon

/-- The energy in electronvolts of the transition between neutral and positive, which lies a fixed
gap below the other. -/
def muPlus (params : Parameters K) : K := params.muMinus - 0.59

def set (params : Parameters K) (value : K) : Quantity → Parameters K
  | .epsilonR => { params with epsilonR := value }
  | .lambdaTF => { params with lambdaTF := value }
  | .muMinus => { params with muMinus := value }

/-- Fails on the first parameter that is out of its range. -/
def validate (params : Parameters K) : Except (ParameterError K) Unit := do
  checkPositive .epsilonR params.epsilonR
  checkPositive .lambdaTF params.lambdaTF
  if ¬ Scalar.isFinite params.muMinus then throw (.notFinite .muMinus params.muMinus)
  if ¬ (params.base = 2 ∨ params.base = 3) then throw (.invalidBase params.base)
where
  checkPositive (quantity : Quantity) (value : K) : Except (ParameterError K) Unit :=
    if Scalar.isFinite value ∧ 0 < value then .ok () else .error (.notPositive quantity value)

end Parameters

end DanglingBond
