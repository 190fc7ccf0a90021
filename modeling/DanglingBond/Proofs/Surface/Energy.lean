import Mathlib
import DanglingBond.Proofs.Surface.Cache

/-!
The energy of an assignment, without a surface. An accurate surface caches the potentials and the energy
of its charges (`Current`), and stays so when a site is charged in place. Charging one site anew
changes the energy by the change of its charge times its local potential (`energy_put`), and moving an
electron by the difference of the two local potentials less the potential between the sites
(`Hops.energy`).
-/

namespace DanglingBond

section
variable {n : Nat}

/-- One electron moves from the first site to the second: the charge of the first rises by one, that of
    the second falls by one, and no other charge changes. -/
structure Hops (charges moved : Vector Charge n) (source target : Fin n) : Prop where
  given : moved[source].sign = charges[source].sign + 1
  taken : moved[target].sign = charges[target].sign - 1
  others : ∀ i, i ≠ source → i ≠ target → moved[i] = charges[i]

/-- The assignments differ at a single site, by a single electron. -/
def DifferByElectron (charges other : Vector Charge n) : Prop :=
  ∃ site state, other = charges.put site state ∧
    (state.sign = charges[site].sign + 1 ∨ state.sign = charges[site].sign - 1)

namespace Hops

variable {charges moved : Vector Charge n} {source target : Fin n}

theorem apart (hops : Hops charges moved source target) : source ≠ target := by
  rintro rfl
  have up := hops.given
  have down := hops.taken
  omega

theorem eq_put (hops : Hops charges moved source target) :
    moved = (charges.put source moved[source]).put target moved[target] := by
  apply Vector.ext_at
  intro i
  rw [Vector.at_put, Vector.at_put]
  by_cases last : i = target
  · rw [if_pos last, last]
  · rw [if_neg last]
    by_cases first : i = source
    · rw [if_pos first, first]
    · rw [if_neg first, hops.others i first last]

end Hops

end

variable {K : Type} [ExactScalar K] {g : Geometry K}

/-- The energy of an assignment: every two sites contribute their potential times both charges. The
    double sum counts them twice, hence the half. -/
def Geometry.energy (g : Geometry K) (charges : Vector Charge g.size) : K :=
  1 / 2 * ∑ i : Fin g.size, ∑ j : Fin g.size, (charges[i].sign : K) * (g.potential i j * (charges[j].sign : K))

theorem Surface.Accurate.energy_eq {s : Surface g} (accurate : s.Accurate) : s.cachedEnergy = g.energy s.charges := by
  rw [accurate.energy, Geometry.energy]
  congr 1
  refine Finset.sum_congr rfl fun i _ => ?_
  rw [accurate.potential, Finset.mul_sum]

theorem Surface.Accurate.potential_eq {s : Surface g} (accurate : s.Accurate) (i : Fin g.size) :
    s.potentials[i] = potentialOf g s.charges i := by
  rw [accurate.potential, potentialOf_eq]
  rfl

namespace Geometry

theorem energy_eq (g : Geometry K) (charges : Vector Charge g.size) :
    g.energy charges = Surface.energyOf charges (Vector.ofFn (Surface.potentialOf g charges)) :=
  (Surface.charged_accurate (Surface.ofGeometry g) charges).energy_eq.symm

/-- A site that is charged anew gains its local potential for every unit of charge. -/
theorem energy_put (reciprocal : g.Reciprocal) (charges : Vector Charge g.size) (site : Fin g.size) (state : Charge) :
    g.energy (charges.put site state) =
      g.energy charges + (state.value - charges[site].value) * Surface.potentialOf g charges site := by
  rw [energy_eq, energy_eq, Surface.energyOf_put reciprocal]

end Geometry

/-- An electron that hops leaves one local potential for the other, and the charge it leaves behind takes
    part in the second. -/
theorem Hops.energy (reciprocal : g.Reciprocal) {charges moved : Vector Charge g.size} {source target : Fin g.size}
    (hops : Hops charges moved source target) : g.energy moved - g.energy charges =
      Surface.potentialOf g charges source - Surface.potentialOf g charges target - g.potential source target := by
  have up : (moved[source].value - charges[source].value : K) = 1 := by
    rw [← Charge.cast_sign_sub, hops.given, add_sub_cancel_left, Int.cast_one]
  have down : (moved[target].value - charges[target].value : K) = -1 := by
    rw [← Charge.cast_sign_sub, hops.taken, sub_sub_cancel_left, Int.cast_neg, Int.cast_one]
  have unmoved : (charges.put source moved[source])[target] = charges[target] := by
    rw [Vector.at_put, if_neg hops.apart.symm]
  have energy := Geometry.energy_put reciprocal (charges.put source moved[source]) target moved[target]
  rw [← hops.eq_put, unmoved, down, Surface.potentialOf_put, up, Geometry.energy_put reciprocal, up] at energy
  rw [energy, reciprocal.symm source target]
  ring

namespace Surface

/-- The surface is clean, and its cache belongs to its charges. -/
structure Current (s : Surface g) : Prop where
  clean : s.clean = true
  accurate : s.Accurate

variable {s : Surface g}

theorem charged_current (start : Surface g) (charges : Vector Charge g.size) : (start.charged charges).Current :=
  ⟨rfl, charged_accurate start charges⟩

/-- Charging a site in place is charging the surface anew. -/
theorem Current.set_eq (reciprocal : g.Reciprocal) (current : s.Current) (site : Fin g.size) (state : Charge) :
    s.set site state = s.charged (s.charges.put site state) := by
  have computed := eq_charged_of_accurate current.clean current.accurate
  have set := charged_set reciprocal s s.charges site state
  rwa [← computed] at set

theorem Current.set (reciprocal : g.Reciprocal) (current : s.Current) (site : Fin g.size) (state : Charge) :
    (s.set site state).Current := by
  rw [current.set_eq reciprocal]
  exact charged_current s _

end Surface

end DanglingBond
