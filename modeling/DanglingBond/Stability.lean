import DanglingBond.Charge
import DanglingBond.Parameters

/-!
# Physical validity

A charge assignment is physically valid when it is *population stable*, every charge agreeing with
the local potential and the transition levels, and *configuration stable*, no hop of one electron
being judged to lower the energy. Both are judged with a tolerance, and through `ChargeLayout`: whatever can name
the charge and the local potential of its sites can be judged.
-/

namespace DanglingBond

/-- A numbered collection of charged sites. -/
class ChargeLayout (L : Type) (K : outParam Type) where
  numSites (layout : L) : Nat
  coordAt? (layout : L) (site : Nat) : Option Coord
  chargeAt? (layout : L) (site : Nat) : Option Charge
  /-- The local potential in volts. -/
  potentialAt? (layout : L) (site : Nat) : Option K
  /-- The potential in volts that a unit charge at the second site induces at the first. -/
  pairPotential (layout : L) (site source : Nat) : K

/-- A judge of charges with its tolerance in electronvolts. -/
structure Checker (K : Type) where
  tolerance : K
deriving Repr

namespace Checker

variable {K : Type} [Scalar K]

/-- The tolerance used where none is given. -/
def standardTolerance : K := 1e-6

/-- The extra tolerance of a bound, whose sums are formed in another order than the potentials that
it bounds. -/
def boundSlack : K := 1e-9

def standard : Checker K := ⟨standardTolerance⟩

/-- Whether a site with charge `state` is stable in the local potential `v`. -/
def StateStable (checker : Checker K) (params : Parameters K) (state : Charge) (v : K) : Prop :=
  match state with
  | .negative => -v + params.muMinus < checker.tolerance
  | .neutral => -checker.tolerance < -v + params.muMinus ∧ -v + params.muPlus < checker.tolerance
  | .positive => -checker.tolerance < -v + params.muPlus

instance (checker : Checker K) (params : Parameters K) (state : Charge) (v : K) :
    Decidable (checker.StateStable params state v) :=
  match state with
  | .negative => inferInstanceAs (Decidable (_ < _))
  | .neutral => inferInstanceAs (Decidable (_ ∧ _))
  | .positive => inferInstanceAs (Decidable (_ < _))

/-- Whether some local potential between `low` and `high` may keep `state` stable. -/
def MayBeStable (checker : Checker K) (params : Parameters K) (state : Charge) (low high : K) :
    Prop :=
  let slack := checker.tolerance + boundSlack
  match state with
  | .negative => -high + params.muMinus < slack
  | .neutral => -slack < -low + params.muMinus ∧ -high + params.muPlus < slack
  | .positive => -slack < -low + params.muPlus

instance (checker : Checker K) (params : Parameters K) (state : Charge) (low high : K) :
    Decidable (checker.MayBeStable params state low high) :=
  match state with
  | .negative => inferInstanceAs (Decidable (_ < _))
  | .neutral => inferInstanceAs (Decidable (_ ∧ _))
  | .positive => inferInstanceAs (Decidable (_ < _))

/-- The charges of a base that are stable in the local potential `v`. -/
def admissible (checker : Checker K) (params : Parameters K) (base : Nat) (v : K) : List Charge :=
  (Charge.ofBase base).filter fun state => checker.StateStable params state v

/-- The charge that a site takes in the local potential `v` when left to itself. -/
def relaxed (params : Parameters K) (base : Nat) (v : K) : Charge :=
  if -v + params.muMinus < 0 then .negative
  else if 3 ≤ base ∧ 0 < -v + params.muPlus then .positive
  else .neutral

section

variable {L : Type} [ChargeLayout L K]

/-- A site is population stable when its charge is stable in its local potential. -/
def SiteStable (checker : Checker K) (params : Parameters K) (layout : L) (site : Nat) : Prop :=
  match ChargeLayout.chargeAt? layout site, ChargeLayout.potentialAt? layout site with
  | some state, some v => checker.StateStable params state v
  | _, _ => False

instance (checker : Checker K) (params : Parameters K) (layout : L) (site : Nat) :
    Decidable (checker.SiteStable params layout site) := by
  unfold SiteStable; split <;> infer_instance

def PopulationStable (checker : Checker K) (params : Parameters K) (layout : L) : Prop :=
  ∀ site < ChargeLayout.numSites layout, checker.SiteStable params layout site

instance (checker : Checker K) (params : Parameters K) (layout : L) :
    Decidable (checker.PopulationStable params layout) := by
  unfold PopulationStable; infer_instance

/-- The energy in electronvolts that moving an electron from a site with charge `state` and
potential `v` to one with potential `w` is judged to cost, where `pair` is the potential between the
two. From a site that is not negative the difference of the two potentials counts the other way. -/
def hopEnergy (state : Charge) (v w pair : K) : K :=
  let direction : K := if state = .negative then 1 else -1
  v * direction - w * direction - pair

/-- No hop from `source` to `target` is judged to lower the energy; a hop goes to a more positive
site. -/
def HopStable (checker : Checker K) (layout : L) (source target : Nat) : Prop :=
  match ChargeLayout.chargeAt? layout source, ChargeLayout.potentialAt? layout source,
      ChargeLayout.chargeAt? layout target, ChargeLayout.potentialAt? layout target with
  | some state, some v, some other, some w =>
    state.sign < other.sign →
      ¬ hopEnergy state v w (ChargeLayout.pairPotential layout source target) < -checker.tolerance
  | _, _, _, _ => False

instance (checker : Checker K) (layout : L) (source target : Nat) :
    Decidable (checker.HopStable layout source target) := by
  unfold HopStable; split <;> infer_instance

/-- No hop from one site is judged to lower the energy; a positive site has no electron to give. -/
def SourceStable (checker : Checker K) (layout : L) (source : Nat) : Prop :=
  match ChargeLayout.chargeAt? layout source, ChargeLayout.potentialAt? layout source with
  | some .positive, some _ => True
  | some _, some _ =>
    ∀ target < ChargeLayout.numSites layout, checker.HopStable layout source target
  | _, _ => False

instance (checker : Checker K) (layout : L) (source : Nat) :
    Decidable (checker.SourceStable layout source) := by
  unfold SourceStable; split <;> infer_instance

/-- No hop of one electron from a site to a more positive one is judged to lower the energy. -/
def ConfigurationStable (checker : Checker K) (layout : L) : Prop :=
  ∀ source < ChargeLayout.numSites layout, checker.SourceStable layout source

instance (checker : Checker K) (layout : L) : Decidable (checker.ConfigurationStable layout) := by
  unfold ConfigurationStable; infer_instance

def PhysicallyValid (checker : Checker K) (params : Parameters K) (layout : L) : Prop :=
  checker.PopulationStable params layout ∧ checker.ConfigurationStable layout

instance (checker : Checker K) (params : Parameters K) (layout : L) :
    Decidable (checker.PhysicallyValid params layout) :=
  inferInstanceAs (Decidable (_ ∧ _))

end

end Checker

end DanglingBond
