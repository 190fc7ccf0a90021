import Mathlib
import DanglingBond.Proofs.Geometry.Repulsion
import DanglingBond.Surface

/-!
The cache of a surface. `Surface.Accurate` says what the cached potentials and the cached energy
should be, `Surface.charged` computes both anew for given charges, and over a reciprocal geometry
changing one charge in place gives the same surface as computing it anew (`charged_set`). Every way to
change a surface is traced back to `charged`, so the searches need not look at the cache again.
-/

namespace DanglingBond.Surface

variable {K : Type} [ExactScalar K] {g : Geometry K}

/-- The cache belongs to the charges: every local potential is the sum of what all charges induce
    there, and the energy is half the sum of the local potentials, each times its charge. -/
structure Accurate (s : Surface g) : Prop where
  potential (i : Fin g.size) : s.potentials[i] = ∑ j, g.potential i j * (s.charges[j].sign : K)
  energy : s.cachedEnergy = 1 / 2 * ∑ i : Fin g.size, (s.charges[i].sign : K) * s.potentials[i]

/-- The surface with other charges and the cache that belongs to them. -/
def charged (start : Surface g) (charges : Vector Charge g.size) : Surface g :=
  (start.assignCharges charges).recompute

theorem potentialOf_eq (g : Geometry K) (charges : Vector Charge g.size) (i : Fin g.size) :
    potentialOf g charges i = ∑ j, g.potential i j * (charges[j].value : K) :=
  Scalar.sum_eq _

theorem energyOf_eq (charges : Vector Charge g.size) (potentials : Vector K g.size) :
    energyOf charges potentials = 1 / 2 * ∑ i : Fin g.size, potentials[i] * (charges[i].value : K) := by
  unfold energyOf
  rw [Scalar.sum_eq]
  norm_num

/-- The value of a site after one site was charged anew. -/
theorem value_put (charges : Vector Charge g.size) (site : Fin g.size) (state : Charge) (j : Fin g.size) :
    ((charges.put site state)[j].value : K) =
      charges[j].value + if j = site then state.value - charges[site].value else 0 := by
  by_cases same : j = site
  · simp [same]
  · simp [same]

/-- One charge changes every local potential by what the change induces. -/
theorem potentialOf_put (charges : Vector Charge g.size) (site : Fin g.size) (state : Charge) (i : Fin g.size) :
    potentialOf g (charges.put site state) i =
      potentialOf g charges i + g.potential i site * (state.value - charges[site].value) := by
  simp only [potentialOf_eq, value_put, mul_add, mul_ite, mul_zero, Finset.sum_add_distrib,
    Finset.sum_ite_eq', Finset.mem_univ, if_true]

/-- A site does not feel its own charge. -/
theorem potentialOf_put_self (reciprocal : g.Reciprocal) (charges : Vector Charge g.size) (site : Fin g.size)
    (state : Charge) : potentialOf g (charges.put site state) site = potentialOf g charges site := by
  rw [potentialOf_put, reciprocal.self, zero_mul, add_zero]

/-- One charge changes the energy by its change times the potential that was there before: the
    others act on the site as it acts on them, and it does not act on itself. -/
theorem energyOf_put (reciprocal : g.Reciprocal) (charges : Vector Charge g.size) (site : Fin g.size) (state : Charge) :
    energyOf (charges.put site state) (Vector.ofFn (potentialOf g (charges.put site state))) =
      energyOf charges (Vector.ofFn (potentialOf g charges)) +
        (state.value - charges[site].value) * potentialOf g charges site := by
  have induced : ∑ i, g.potential i site * (charges[i].value : K) = potentialOf g charges site := by
    rw [potentialOf_eq]
    exact Finset.sum_congr rfl fun i _ => by rw [reciprocal.symm]
  generalize change : (state.value - charges[site].value : K) = delta
  -- The square of the change drops out, since the site does not act on itself.
  have expanded : ∑ i, potentialOf g (charges.put site state) i * ((charges.put site state)[i].value : K) =
      ∑ i, potentialOf g charges i * (charges[i].value : K) + delta * potentialOf g charges site +
        delta * ∑ i, g.potential i site * (charges[i].value : K) := by
    simp only [potentialOf_put, value_put, change, add_mul, mul_add, mul_ite, mul_zero,
      Finset.sum_add_distrib, Finset.sum_ite_eq', Finset.mem_univ, if_true, reciprocal.self, Finset.mul_sum]
    have commuted (i : Fin g.size) : g.potential i site * delta * (charges[i].value : K) =
        delta * (g.potential i site * charges[i].value) := by ring
    simp only [commuted]
    ring
  simp only [energyOf_eq, Vector.at_ofFn]
  rw [expanded, induced]
  ring

@[simp] theorem charged_charges (start : Surface g) (charges : Vector Charge g.size) :
    (start.charged charges).charges = charges := rfl

@[simp] theorem charged_clean (start : Surface g) (charges : Vector Charge g.size) :
    (start.charged charges).clean = true := rfl

@[simp] theorem charged_potential (start : Surface g) (charges : Vector Charge g.size) (i : Fin g.size) :
    (start.charged charges).potentials[i] = potentialOf g charges i := by
  simp [charged, recompute, assignCharges]

theorem charged_accurate (start : Surface g) (charges : Vector Charge g.size) : (start.charged charges).Accurate := by
  constructor
  · intro i
    rw [charged_potential, potentialOf_eq]
    rfl
  · have computed : (start.charged charges).cachedEnergy = energyOf charges (start.charged charges).potentials := rfl
    rw [computed, energyOf_eq]
    congr 1
    exact Finset.sum_congr rfl fun i _ => mul_comm _ _

/-- A clean surface with an accurate cache is what computing it anew gives. -/
theorem eq_charged_of_accurate {s : Surface g} (clean : s.clean = true) (accurate : s.Accurate) : s = s.charged s.charges := by
  have potentials : s.potentials = (s.charged s.charges).potentials := by
    apply Vector.ext_at
    intro i
    rw [accurate.potential, charged_potential, potentialOf_eq]
    rfl
  have energy : s.cachedEnergy = (s.charged s.charges).cachedEnergy := by
    rw [accurate.energy, (charged_accurate s s.charges).energy, charged_charges, potentials]
  obtain ⟨charges, cached, cachedEnergy, flag, dependent, mode, checker⟩ := s
  simp only at clean potentials energy
  subst clean
  simp only [charged, recompute, assignCharges] at potentials energy ⊢
  rw [← potentials] at energy ⊢
  rw [← energy]

/-- Charging one site in place keeps the cache as it would be computed anew. -/
theorem charged_set (reciprocal : g.Reciprocal) (start : Surface g) (charges : Vector Charge g.size)
    (site : Fin g.size) (state : Charge) : (start.charged charges).set site state = start.charged (charges.put site state) := by
  unfold set
  by_cases same : charges[site] = state
  · have unchanged : charges.put site state = charges := by
      rw [← same, Vector.put_at]
    rw [charged_charges, if_pos same, unchanged]
  · rw [charged_charges, if_neg same, charged_clean, if_pos rfl]
    have potentials : ((start.charged charges).shift site state).potentials =
        (start.charged (charges.put site state)).potentials := by
      apply Vector.ext_at
      intro i
      rw [charged_potential, potentialOf_put]
      simp only [shift, Vector.at_ofFn, charged_charges, charged_potential, Charge.cast_sign_sub]
    have energy : ((start.charged charges).shift site state).cachedEnergy =
        (start.charged (charges.put site state)).cachedEnergy := by
      refine Eq.trans ?_ (energyOf_put reciprocal charges site state).symm
      simp only [shift, charged_charges, Charge.cast_sign_sub, charged_potential]
      rfl
    simp only [shift, charged, recompute, assignCharges, mk.injEq] at potentials energy ⊢
    exact ⟨trivial, potentials, energy, trivial, trivial, trivial, trivial⟩

/-- In the fixed mode a refresh only computes the cache anew. -/
theorem refresh_of_fixed {s : Surface g} (fixed : s.mode = .fixed) : s.refresh = s.charged s.charges := by
  have mode : s.recompute.mode = .fixed := fixed
  rw [refresh, deriveDependent, mode]
  rfl

/-- On a clean surface the dependent site is charged in place. -/
theorem deriveDependent_of_derived {s : Surface g} {site : Fin g.size} (clean : s.clean = true) (derived : s.mode = .derived)
    (dependent : s.dependent = some site) :
    s.deriveDependent = s.set site (Checker.relaxed g.params g.params.base s.potentials[site]) := by
  simp [deriveDependent, derived, dependent, set, clean, eq_comm]

/-- In the derived mode a refresh computes the cache anew, for charges among which the dependent site has
    the one that the others lead it to. -/
theorem refresh_of_derived (reciprocal : g.Reciprocal) {s : Surface g} {site : Fin g.size} (derived : s.mode = .derived)
    (dependent : s.dependent = some site) : s.refresh = s.charged
      (s.charges.put site (Checker.relaxed g.params g.params.base (potentialOf g s.charges site))) := by
  have recomputed : s.recompute = s.charged s.charges := rfl
  rw [refresh, recomputed, deriveDependent_of_derived (charged_clean s s.charges) derived dependent, charged_set reciprocal,
    charged_potential]

/-- In either mode a refresh computes the cache anew, for charges that differ at most at the
    dependent site. -/
theorem refresh_eq_charged (reciprocal : g.Reciprocal) (s : Surface g) : ∃ charges, s.refresh = s.charged charges := by
  cases mode : s.mode with
  | fixed => exact ⟨_, refresh_of_fixed mode⟩
  | derived =>
    cases dependent : s.dependent with
    | none =>
      have derived : s.recompute.mode = .derived := mode
      have independent : s.recompute.dependent = none := dependent
      exact ⟨s.charges, by simp only [refresh, deriveDependent, derived, independent]; rfl⟩
    | some site => exact ⟨_, refresh_of_derived reciprocal mode dependent⟩

end DanglingBond.Surface
