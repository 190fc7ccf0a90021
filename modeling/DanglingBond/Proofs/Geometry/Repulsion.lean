import Mathlib
import DanglingBond.Geometry
import DanglingBond.Proofs.Scalar.Exact

/-!
What the simulation relies on in a table of potentials: two sites induce the same potential at each
other and none at themselves (`Geometry.Reciprocal`), and no potential is negative
(`Geometry.Repulsive`). Over exact arithmetic every layout with valid parameters has such a table. Over
the reals the entries can be estimated without the exponential (`screenedPotential_bounds`).
-/

namespace DanglingBond

namespace Parameters

variable {K : Type} [ExactScalar K]

/-- Parameters are valid when both lengths of the screening law are positive and the base is two
    or three; over exact arithmetic no value is infinite. -/
theorem validate_eq_ok_iff (params : Parameters K) :
    params.validate = .ok () ↔ 0 < params.epsilonR ∧ 0 < params.lambdaTF ∧ (params.base = 2 ∨ params.base = 3) := by
  have finite (a : K) : Scalar.isFinite a = true := rfl
  by_cases permittivity : 0 < params.epsilonR
  · by_cases screening : 0 < params.lambdaTF
    · by_cases base : params.base = 2 ∨ params.base = 3 <;>
        simp [validate, validate.checkPositive, bind, Except.bind, pure, Except.pure, throw, throwThe,
          MonadExceptOf.throw, permittivity, screening, base, finite]
    · simp [validate, validate.checkPositive, bind, Except.bind, permittivity, screening, finite]
  · simp [validate, validate.checkPositive, bind, Except.bind, permittivity]

theorem standard_valid : (standard : Parameters K).validate = .ok () := by
  rw [validate_eq_ok_iff]
  refine ⟨?_, ?_, Or.inr rfl⟩ <;> norm_num [standard]

end Parameters

namespace Geometry

section
variable {K : Type} [ExactScalar K]

/-- Two sites induce the same potential at each other, and none at themselves. -/
structure Reciprocal (g : Geometry K) : Prop where
  symm (i j : Fin g.size) : g.potential i j = g.potential j i
  self (i : Fin g.size) : g.potential i i = 0

/-- Potentials are reciprocal, and none is negative. -/
structure Repulsive (g : Geometry K) : Prop extends Reciprocal g where
  nonneg (i j : Fin g.size) : 0 ≤ g.potential i j

end

/-- Two sites, of which each induces half a volt at the other. -/
def pair : Geometry ℚ where
  size := 2
  sites := #v[⟨⟨0, 0, 0⟩, .normal⟩, ⟨⟨1, 0, 0⟩, .normal⟩]
  params := .standard
  distances := #v[#v[0, 0.4], #v[0.4, 0]]
  potentials := #v[#v[0, 0.5], #v[0.5, 0]]

theorem pair_repulsive : pair.Repulsive := by
  refine ⟨⟨?_, ?_⟩, ?_⟩ <;> decide +kernel

section
variable {K : Type} [Elementary K]

private theorem table_entry {α : Type} {n : Nat} (entry : Fin n → Fin n → α) (i j : Fin n) :
    (table entry)[i][j] = entry i j := by
  simp [table]

theorem potential_ofLayout (layout : Layout) (params : Parameters K) (i j : Fin (ofLayout layout params).size) :
    (ofLayout layout params).potential i j = screenedPotential params
      (Coord.distance params.lattice (ofLayout layout params).sites[i].coord (ofLayout layout params).sites[j].coord) :=
  table_entry _ i j

theorem distance_ofLayout (layout : Layout) (params : Parameters K) (i j : Fin (ofLayout layout params).size) :
    (ofLayout layout params).distance i j =
      Coord.distance params.lattice (ofLayout layout params).sites[i].coord (ofLayout layout params).sites[j].coord :=
  table_entry _ i j

theorem ofLayout?_eq_ok_iff {layout : Layout} {params : Parameters K} {g : Geometry K} :
    ofLayout? layout params = .ok g ↔ params.validate = .ok () ∧ ofLayout layout params = g := by
  constructor
  · intro built
    obtain ⟨_, valid, built⟩ := Except.bind_eq_ok.mp built
    exact ⟨valid, Except.pure_eq_ok.mp built⟩
  · rintro ⟨valid, rfl⟩
    exact Except.bind_eq_ok.mpr ⟨(), valid, rfl⟩

end

section
variable {K : Type} [ExactElementary K]

theorem squaredDistance_comm (p q : K × K) : Coord.squaredDistance p q = Coord.squaredDistance q p := by
  simp only [Coord.squaredDistance]
  ring

theorem distance_self (lattice : Lattice K) (p : Coord) : p.distance lattice p = 0 := by
  have zero : Coord.squaredDistance (p.position lattice) (p.position lattice) = 0 := by
    simp only [Coord.squaredDistance]
    ring
  have root : p.distance lattice p * p.distance lattice p = 0 := by
    rw [Coord.distance, zero]
    exact ExactElementary.sqrt_mul_self 0 le_rfl
  exact mul_self_eq_zero.mp root

private theorem screenedPotential_nonneg (params : Parameters K) (permittivity : 0 < params.epsilonR) (distance : K) :
    0 ≤ screenedPotential params distance := by
  unfold screenedPotential
  by_cases apart : distance ≤ 0
  · rw [if_pos apart]
  · rw [if_neg apart]
    have away : 0 < distance := not_le.mp apart
    have decay : 0 < Elementary.exp (-distance / params.lambdaTF) := ExactElementary.exp_pos _
    positivity

/-- The potentials of a layout are reciprocal and not negative. -/
theorem ofLayout_repulsive (layout : Layout) {params : Parameters K} (valid : params.validate = .ok ()) :
    (ofLayout layout params).Repulsive := by
  obtain ⟨permittivity, _, _⟩ := params.validate_eq_ok_iff.mp valid
  refine ⟨⟨?_, ?_⟩, ?_⟩
  · intro i j
    rw [potential_ofLayout, potential_ofLayout, Coord.distance, Coord.distance, squaredDistance_comm]
  · intro i
    rw [potential_ofLayout, distance_self, screenedPotential, if_pos le_rfl]
  · intro i j
    rw [potential_ofLayout]
    exact screenedPotential_nonneg params permittivity _

end

end Geometry

namespace Coord

variable {K : Type} [ExactElementary K]

theorem distance_comm (lattice : Lattice K) (p q : Coord) : distance lattice p q = distance lattice q p := by
  rw [distance, distance, Geometry.squaredDistance_comm]

theorem distance_nonneg (lattice : Lattice K) (p q : Coord) : 0 ≤ distance lattice p q := ExactElementary.sqrt_nonneg _

/-- The distance is the root of the squared distance, which is not negative. -/
theorem distance_mul_self (lattice : Lattice K) (p q : Coord) :
    distance lattice p q * distance lattice p q = squaredDistance (p.position lattice) (q.position lattice) := by
  refine ExactElementary.sqrt_mul_self _ ?_
  simp only [squaredDistance]
  exact add_nonneg (mul_self_nonneg _) (mul_self_nonneg _)

end Coord

/-- Two sites of one row are as far apart as their columns. -/
theorem Coord.distance_row (lattice : Lattice ℝ) (x y row : Int) (atom : Nat) :
    distance lattice ⟨x, row, atom⟩ ⟨y, row, atom⟩ = |((x - y : Int) : ℝ) * lattice.a| := by
  have root (a : ℝ) : Elementary.sqrt (a * a) = |a| := Real.sqrt_mul_self_eq_abs a
  have columns : (y : ℝ) * lattice.a - x * lattice.a = -(((x - y : Int) : ℝ) * lattice.a) := by
    push_cast
    ring
  simp only [distance, squaredDistance, position, columns, sub_self, mul_zero, add_zero, neg_mul_neg, root]

/-- Screening weakens a potential, but by no more than the share of the screening length that lies between
    the sites. -/
theorem screenedPotential_bounds {params : Parameters ℝ} (permittivity : 0 < params.epsilonR)
    (screening : 0 < params.lambdaTF) {distance bare : ℝ} (away : 0 < distance)
    (unscreened : 8.987_551_792_3e9 / params.epsilonR / (distance * 1e-9) * 1.602_176_634e-19 = bare) :
    bare * (1 - distance / params.lambdaTF) ≤ screenedPotential params distance ∧
      screenedPotential params distance ≤ bare := by
  have positive : 0 ≤ bare := by
    rw [← unscreened]
    positivity
  have factor : screenedPotential params distance = bare * Real.exp (-distance / params.lambdaTF) := by
    have decay : Elementary.exp (-distance / params.lambdaTF) = Real.exp (-distance / params.lambdaTF) := rfl
    rw [screenedPotential, if_neg (not_le.mpr away), decay, ← unscreened]
    ring
  have exponent : -distance / params.lambdaTF ≤ 0 := div_nonpos_of_nonpos_of_nonneg (neg_nonpos.mpr away.le) screening.le
  have low := Real.add_one_le_exp (-distance / params.lambdaTF)
  rw [factor]
  constructor
  · refine mul_le_mul_of_nonneg_left (le_trans (le_of_eq ?_) low) positive
    ring
  · exact mul_le_of_le_one_right positive (Real.exp_le_one_iff.mpr exponent)

end DanglingBond
