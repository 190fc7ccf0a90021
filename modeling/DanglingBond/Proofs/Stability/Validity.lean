import Mathlib
import DanglingBond.Proofs.Surface.Cache

/-!
Physically valid assignments. An assignment of a geometry is valid when it uses only the charges of
the base and is population stable and configuration stable on freshly computed potentials
(`Geometry.IsValid`). How the surface that judges it came about does not matter, as long as its
cache was computed anew (`charged_physicallyValid_iff`); indeed no surface is needed to say what
validity is (`isValid_iff`), and that holds of what any other checker admits (`Checker.admits_iff`).
-/

namespace DanglingBond

namespace Surface

section
variable {K : Type} [Scalar K] {g : Geometry K}

/-- The surface of an assignment with everything computed anew. -/
def fresh (g : Geometry K) (charges : Vector Charge g.size) : Surface g :=
  ((ofGeometry g).assignCharges charges).refresh

theorem chargeAt?_site (s : Surface g) (i : Fin g.size) :
    ChargeLayout.chargeAt? (K := K) s i.val = some s.charges[i] := Vector.getElem?_eq_getElem i.isLt

theorem potentialAt?_site (s : Surface g) (i : Fin g.size) :
    ChargeLayout.potentialAt? s i.val = some s.potentials[i] := Vector.getElem?_eq_getElem i.isLt

theorem siteStable_iff (s : Surface g) (checker : Checker K) (params : Parameters K) (i : Fin g.size) :
    checker.SiteStable params s i.val ↔ checker.StateStable params s.charges[i] s.potentials[i] := by
  rw [Checker.SiteStable, chargeAt?_site, potentialAt?_site]

/-- Every site is stable in its cached potential. -/
theorem populationStable_iff (s : Surface g) (checker : Checker K) (params : Parameters K) :
    checker.PopulationStable params s ↔ ∀ i : Fin g.size, checker.StateStable params s.charges[i] s.potentials[i] := by
  constructor
  · intro stable i
    exact (s.siteStable_iff checker params i).mp (stable i.val i.isLt)
  · intro stable i inside
    exact (s.siteStable_iff checker params ⟨i, inside⟩).mpr (stable ⟨i, inside⟩)

/-- No hop of an electron to a more positive site is judged to lower the energy. -/
theorem configurationStable_iff (s : Surface g) (checker : Checker K) : checker.ConfigurationStable s ↔
    ∀ i j : Fin g.size, s.charges[i].sign < s.charges[j].sign →
      ¬ Checker.hopEnergy s.charges[i] s.potentials[i] s.potentials[j] (g.potential i j) < -checker.tolerance := by
  have pair (i j : Fin g.size) : ChargeLayout.pairPotential s i.val j.val = g.potential i j := dif_pos ⟨i.isLt, j.isLt⟩
  have hop (i j : Fin g.size) : checker.HopStable s i.val j.val ↔ (s.charges[i].sign < s.charges[j].sign →
      ¬ Checker.hopEnergy s.charges[i] s.potentials[i] s.potentials[j] (g.potential i j) < -checker.tolerance) := by
    rw [Checker.HopStable, chargeAt?_site, chargeAt?_site, potentialAt?_site, potentialAt?_site, pair]
  have source (i : Fin g.size) : checker.SourceStable s i.val ↔ ∀ j : Fin g.size, checker.HopStable s i.val j.val := by
    have listed : (∀ target < g.size, checker.HopStable s i.val target) ↔
        ∀ j : Fin g.size, checker.HopStable s i.val j.val :=
      ⟨fun all j => all j.val j.isLt, fun all target inside => all ⟨target, inside⟩⟩
    rw [Checker.SourceStable, chargeAt?_site, potentialAt?_site]
    cases state : s.charges[i] with
    | negative => exact listed
    | neutral => exact listed
    | positive =>
      -- No site is more positive.
      refine ⟨fun _ j => (hop i j).mpr fun less => ?_, fun _ => trivial⟩
      rw [state] at less
      exact absurd less (by cases s.charges[j] <;> decide)
  simp only [← hop, ← source]
  constructor
  · intro stable i
    exact stable i.val i.isLt
  · intro stable i inside
    exact stable ⟨i, inside⟩

end

variable {K : Type} [ExactScalar K] {g : Geometry K}

/-- The surface judges by the standard tolerance and derives no charge on a refresh. -/
structure Plain (s : Surface g) : Prop where
  mode : s.mode = .fixed
  checker : s.checker = .standard

theorem ofGeometry_plain (g : Geometry K) : (ofGeometry g).Plain := ⟨rfl, rfl⟩

theorem refresh_assignCharges {start : Surface g} (plain : start.Plain) (charges : Vector Charge g.size) :
    (start.assignCharges charges).refresh = start.charged charges :=
  refresh_of_fixed plain.mode

theorem fresh_eq_charged (charges : Vector Charge g.size) : fresh g charges = (ofGeometry g).charged charges :=
  refresh_assignCharges (ofGeometry_plain g) charges

theorem ofGeometry_eq_fresh (g : Geometry K) : ofGeometry g = fresh g (Vector.replicate g.size .negative) := by
  rw [fresh_eq_charged]
  rfl

@[simp] theorem fresh_charges (charges : Vector Charge g.size) : (fresh g charges).charges = charges := by
  rw [fresh_eq_charged]
  rfl

@[simp] theorem fresh_potential (charges : Vector Charge g.size) (i : Fin g.size) :
    (fresh g charges).potentials[i] = potentialOf g charges i := by
  rw [fresh_eq_charged, charged_potential]

theorem fresh_populationStable_iff {checker : Checker K} {params : Parameters K} {charges : Vector Charge g.size} :
    checker.PopulationStable params (fresh g charges) ↔
      ∀ i : Fin g.size, checker.StateStable params charges[i] (potentialOf g charges i) := by
  simp only [populationStable_iff, fresh_charges, fresh_potential]

/-- What is computed anew already is as another refresh would compute it. -/
theorem refresh_fresh (charges : Vector Charge g.size) : (fresh g charges).refresh = fresh g charges := by
  rw [fresh_eq_charged, refresh_of_fixed rfl]
  rfl

theorem charged_physicallyValid_iff {start : Surface g} (plain : start.Plain) (charges : Vector Charge g.size) :
    (start.charged charges).PhysicallyValid ↔ (fresh g charges).PhysicallyValid := by
  have checker : (start.charged charges).checker = (fresh g charges).checker := plain.checker
  rw [PhysicallyValid, PhysicallyValid, checker]
  rfl

/-- The surfaces of the physically valid ones among some assignments, each with its cache computed
    anew. -/
noncomputable def validOf (start : Surface g) (assignments : List (Vector Charge g.size)) : List (Surface g) :=
  (assignments.filter fun charges => decide (fresh g charges).PhysicallyValid).map start.charged

theorem mem_validOf {start : Surface g} {assignments : List (Vector Charge g.size)} {s : Surface g} :
    s ∈ start.validOf assignments ↔
      s.charges ∈ assignments ∧ (fresh g s.charges).PhysicallyValid ∧ s = start.charged s.charges := by
  simp only [validOf, List.mem_map, List.mem_filter, decide_eq_true_eq]
  constructor
  · rintro ⟨charges, ⟨member, valid⟩, rfl⟩
    exact ⟨member, valid, rfl⟩
  · rintro ⟨member, valid, computed⟩
    exact ⟨s.charges, ⟨member, valid⟩, computed.symm⟩

theorem charges_validOf (start : Surface g) (assignments : List (Vector Charge g.size)) :
    (start.validOf assignments).map (·.charges) =
      assignments.filter fun charges => decide (fresh g charges).PhysicallyValid := by
  simp [validOf, Function.comp_def]

theorem validOf_append (start : Surface g) (first second : List (Vector Charge g.size)) :
    start.validOf (first ++ second) = start.validOf first ++ start.validOf second := by
  simp [validOf]

theorem validOf_flatMap {α : Type} (start : Surface g) (items : List α) (assignments : α → List (Vector Charge g.size)) :
    start.validOf (items.flatMap assignments) = items.flatMap fun item => start.validOf (assignments item) := by
  simp [validOf, List.filter_flatMap, List.map_flatMap]

/-- A physically valid surface is kept, any other is not. -/
theorem validOf_singleton {start : Surface g} (plain : start.Plain) (charges : Vector Charge g.size) :
    start.validOf [charges] = if (start.charged charges).PhysicallyValid then [start.charged charges] else [] := by
  simp only [charged_physicallyValid_iff plain, validOf]
  by_cases valid : (fresh g charges).PhysicallyValid
  · simp [valid]
  · simp [valid]

end Surface

section
variable {K : Type} [Scalar K]

/-- The assignment uses only the charges of the base and is physically valid. -/
def Geometry.IsValid (g : Geometry K) (charges : Vector Charge g.size) : Prop :=
  (∀ i : Fin g.size, charges[i] ∈ Charge.ofBase g.params.base) ∧ (Surface.fresh g charges).PhysicallyValid

/-- The assignment uses only the charges of the base, and the checker finds it physically valid. -/
def Checker.Admits (checker : Checker K) (g : Geometry K) (charges : Vector Charge g.size) : Prop :=
  (∀ i : Fin g.size, charges[i] ∈ Charge.ofBase g.params.base) ∧ checker.PhysicallyValid g.params (Surface.fresh g charges)

end

variable {K : Type} [ExactScalar K] {g : Geometry K}

/-- What a checker admits in terms of the potentials that the charges induce, without a surface. -/
theorem Checker.admits_iff {checker : Checker K} {charges : Vector Charge g.size} : checker.Admits g charges ↔
    (∀ i : Fin g.size, charges[i] ∈ Charge.ofBase g.params.base) ∧
    (∀ i : Fin g.size, checker.StateStable g.params charges[i] (Surface.potentialOf g charges i)) ∧
      ∀ i j : Fin g.size, charges[i].sign < charges[j].sign →
        ¬ Checker.hopEnergy charges[i] (Surface.potentialOf g charges i) (Surface.potentialOf g charges j)
          (g.potential i j) < -checker.tolerance := by
  have configuration := Surface.configurationStable_iff (Surface.fresh g charges) checker
  simp only [Surface.fresh_potential, Surface.fresh_charges] at configuration
  exact and_congr_right fun _ => and_congr Surface.fresh_populationStable_iff configuration

/-- Validity is judged with the standard tolerance. -/
theorem Geometry.isValid_iff_admits {charges : Vector Charge g.size} :
    g.IsValid charges ↔ Checker.standard.Admits g charges := by
  have checker : (Surface.fresh g charges).checker = .standard := by
    rw [Surface.fresh_eq_charged]
    rfl
  rw [IsValid, Surface.PhysicallyValid, checker]
  rfl

/-- Validity in terms of the potentials that the charges induce, without a surface. -/
theorem Geometry.isValid_iff {charges : Vector Charge g.size} : g.IsValid charges ↔
    (∀ i : Fin g.size, charges[i] ∈ Charge.ofBase g.params.base) ∧
    (∀ i : Fin g.size, Checker.standard.StateStable g.params charges[i] (Surface.potentialOf g charges i)) ∧
      ∀ i j : Fin g.size, charges[i].sign < charges[j].sign →
        ¬ Checker.hopEnergy charges[i] (Surface.potentialOf g charges i) (Surface.potentialOf g charges j)
          (g.potential i j) < -Checker.standardTolerance :=
  isValid_iff_admits.trans Checker.admits_iff

/-- In a valid assignment every charge is stable in the potential that the others induce. -/
theorem Geometry.IsValid.stateStable {charges : Vector Charge g.size} (valid : g.IsValid charges) (i : Fin g.size) :
    Checker.standard.StateStable g.params charges[i] (Surface.potentialOf g charges i) :=
  (isValid_iff.mp valid).2.1 i

/-- What was found are the physically valid ones among different assignments of the base. -/
structure Surface.Selects (start : Surface g) (found : List (Surface g)) (assignments : List (Vector Charge g.size)) :
    Prop where
  kept : found.Perm (start.validOf assignments)
  distinct : assignments.Nodup
  uses : ∀ charges ∈ assignments, ∀ i : Fin g.size, charges[i] ∈ Charge.ofBase g.params.base

theorem Surface.selects_nothing (start : Surface g) : start.Selects [] [] :=
  ⟨List.Perm.refl [], List.nodup_nil, fun _ member => absurd member List.not_mem_nil⟩

end DanglingBond
