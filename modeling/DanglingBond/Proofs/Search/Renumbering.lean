import Mathlib
import DanglingBond.Proofs.Layout.Occupancy
import DanglingBond.Proofs.Search.GroundState
import DanglingBond.Random.ChaCha

/-!
The order of the sites does not matter to an exact search. Where two geometries number the same sites in
different ways (`Geometry.Renumbering`), an assignment of one is carried to the other together with its
validity and its energy (`isValid_carry_iff`, `energy_carry`). What is found is compared through readings,
which say what stands at each coordinate and not at which number: complete outcomes have the same readings
(`readings_perm`), hence the same minimum energy and the same ground states.
-/

namespace DanglingBond

namespace Geometry

section
variable {K : Type} {g other : Geometry K}

/-- No two sites have the same coordinate. -/
def Distinct (g : Geometry K) : Prop := ∀ i j : Fin g.size, g.sites[i].coord = g.sites[j].coord → i = j

theorem indexOf?_eq_some_iff (distinct : g.Distinct) {coord : Coord} {i : Fin g.size} :
    g.indexOf? coord = some i ↔ g.sites[i].coord = coord := by
  have sound {j : Fin g.size} (found : g.indexOf? coord = some j) : g.sites[j].coord = coord := by
    obtain ⟨index, first, rfl⟩ := Option.map_eq_some_iff.mp found
    exact of_decide_eq_true (Array.findFinIdx?_eq_some_iff.mp first).1
  refine ⟨sound, fun here => ?_⟩
  cases found : g.indexOf? coord with
  | none =>
    have nowhere := Vector.findFinIdx?_eq_none_iff.mp found g.sites[i] (Vector.at_mem _ i)
    exact absurd (decide_eq_true here) nowhere
  | some j => rw [distinct j i ((sound found).trans here.symm)]

/-- Other numbers for the same sites, under the same parameters. -/
structure Renumbering (g other : Geometry K) where
  number : Fin g.size ≃ Fin other.size
  params : other.params = g.params
  coord (i : Fin g.size) : other.sites[number i].coord = g.sites[i].coord
  potential (i j : Fin g.size) : other.potential (number i) (number j) = g.potential i j

namespace Renumbering

def symm (r : Renumbering g other) : Renumbering other g where
  number := r.number.symm
  params := r.params.symm
  coord i := by rw [← r.coord, r.number.apply_symm_apply]
  potential i j := by rw [← r.potential, r.number.apply_symm_apply, r.number.apply_symm_apply]

/-- The same charges under the other numbers. -/
def carry (r : Renumbering g other) (charges : Vector Charge g.size) : Vector Charge other.size :=
  Vector.ofFn fun j => charges[r.number.symm j]

@[simp] theorem at_carry (r : Renumbering g other) (charges : Vector Charge g.size) (i : Fin g.size) :
    (r.carry charges)[r.number i] = charges[i] := by
  rw [carry, Vector.at_ofFn, r.number.symm_apply_apply]

theorem carry_symm (r : Renumbering g other) (charges : Vector Charge other.size) :
    r.carry (r.symm.carry charges) = charges := by
  apply Vector.ext_at
  intro j
  obtain ⟨i, rfl⟩ := r.number.surjective j
  rw [at_carry]
  exact Vector.at_ofFn _ i

theorem carry_injective (r : Renumbering g other) : Function.Injective r.carry :=
  Function.LeftInverse.injective r.symm.carry_symm

theorem distinct (r : Renumbering g other) (distinct : g.Distinct) : other.Distinct := by
  intro i j same
  rw [← r.number.apply_symm_apply i, ← r.number.apply_symm_apply j, r.coord, r.coord] at same
  exact r.number.symm.injective (distinct _ _ same)

theorem indexOf?_eq (r : Renumbering g other) (distinct : g.Distinct) (coord : Coord) :
    other.indexOf? coord = (g.indexOf? coord).map r.number := by
  ext j
  rw [Option.map_eq_some_iff, indexOf?_eq_some_iff (r.distinct distinct)]
  constructor
  · intro here
    refine ⟨r.number.symm j, (indexOf?_eq_some_iff distinct).mpr ?_, r.number.apply_symm_apply j⟩
    rw [← r.coord, r.number.apply_symm_apply, here]
  · rintro ⟨i, found, rfl⟩
    rw [r.coord, (indexOf?_eq_some_iff distinct).mp found]

/-- At every coordinate stands what stood there before. -/
theorem chargeAt?_carry (r : Renumbering g other) (distinct : g.Distinct) (charges : Vector Charge g.size) :
    other.chargeAt? (r.carry charges) = g.chargeAt? charges := by
  funext coord
  rw [chargeAt?, r.indexOf?_eq distinct, Option.map_map, chargeAt?]
  simp only [Function.comp_def, at_carry]

end Renumbering

end

namespace Renumbering

variable {K : Type} [ExactScalar K] {g other : Geometry K}

theorem potentialOf_carry (r : Renumbering g other) (charges : Vector Charge g.size) (i : Fin g.size) :
    Surface.potentialOf other (r.carry charges) (r.number i) = Surface.potentialOf g charges i := by
  rw [Surface.potentialOf_eq, Surface.potentialOf_eq, ← r.number.sum_comp]
  simp only [r.potential, at_carry]

/-- The energy is a sum over all pairs of sites, in whatever order they come. -/
theorem energy_carry (r : Renumbering g other) (charges : Vector Charge g.size) :
    other.energy (r.carry charges) = g.energy charges := by
  rw [energy, energy, ← r.number.sum_comp]
  congr 1
  refine Finset.sum_congr rfl fun i _ => ?_
  rw [← r.number.sum_comp]
  simp only [r.potential, at_carry]

theorem isValid_carry_iff (r : Renumbering g other) (charges : Vector Charge g.size) :
    other.IsValid (r.carry charges) ↔ g.IsValid charges := by
  simp only [isValid_iff, r.number.surjective.forall, at_carry, r.potentialOf_carry, r.potential, r.params]

end Renumbering

section
variable {K : Type} [ExactElementary K]

theorem site_ofLayout (layout : Layout) (params : Parameters K) (i : Fin (ofLayout layout params).size) :
    (ofLayout layout params).sites[i] = layout.sites.get i := rfl

theorem ofLayout_distinct {layout : Layout} (distinct : layout.Distinct) (params : Parameters K) :
    (ofLayout layout params).Distinct := by
  intro i j same
  rw [site_ofLayout, site_ofLayout] at same
  have sites : layout.sites.get i = layout.sites.get j :=
    List.inj_on_of_nodup_map distinct (List.get_mem _ _) (List.get_mem _ _) same
  exact distinct.nodup.injective_get sites

/-- The number in one list of sites of what stands at a number of another list of the same sites. -/
noncomputable def siteNumber {sites reordered : List Site} (distinct : sites.Nodup) (same : sites.Perm reordered) :
    Fin sites.length ≃ Fin reordered.length :=
  ((distinct.getEquiv sites).trans (Equiv.subtypeEquivRight fun _ => same.mem_iff)).trans
    ((same.nodup_iff.mp distinct).getEquiv reordered).symm

theorem get_siteNumber {sites reordered : List Site} (distinct : sites.Nodup) (same : sites.Perm reordered)
    (i : Fin sites.length) : reordered.get (siteNumber distinct same i) = sites.get i :=
  congrArg Subtype.val (((same.nodup_iff.mp distinct).getEquiv reordered).apply_symm_apply
    ⟨sites.get i, same.mem_iff.mp (List.get_mem _ _)⟩)

/-- Layouts with the same sites in different orders number them in different ways. -/
noncomputable def renumbering {layout reordered : Layout} (distinct : layout.Distinct)
    (same : layout.sites.Perm reordered.sites) (params : Parameters K) :
    Renumbering (ofLayout layout params) (ofLayout reordered params) :=
  let number : Fin (ofLayout layout params).size ≃ Fin (ofLayout reordered params).size := siteNumber distinct.nodup same
  have coord (i : Fin (ofLayout layout params).size) :
      (ofLayout reordered params).sites[number i].coord = (ofLayout layout params).sites[i].coord :=
    congrArg Site.coord (get_siteNumber distinct.nodup same i)
  { number, coord
    params := rfl
    potential i j := by
      rw [potential_ofLayout, potential_ofLayout, coord, coord] }

end

end Geometry

/-- What an outcome says of a layout, whatever the numbers of its sites: which charge stands at which
    coordinate, and the energy. -/
def Surface.reading {K : Type} {g : Geometry K} (s : Surface g) : (Coord → Option Charge) × K :=
  (g.chargeAt? s.charges, s.cachedEnergy)

namespace Outcome

section
variable {K : Type} [ExactScalar K] {g other : Geometry K}

/-- Complete outcomes have the same readings under all numbers of the sites. -/
theorem readings_perm (r : g.Renumbering other) (distinct : g.Distinct) {outcome : Outcome g} {reordered : Outcome other}
    (sound : outcome.Sound) (exhausts : outcome.Exhausts) (otherSound : reordered.Sound)
    (otherExhausts : reordered.Exhausts) :
    (outcome.configurations.map (·.reading)).Perm (reordered.configurations.map (·.reading)) := by
  have carried : ((outcome.configurations.map (·.charges)).map r.carry).Perm (reordered.configurations.map (·.charges)) := by
    refine (List.perm_ext_iff_of_nodup (sound.distinct.map r.carry_injective) otherSound.distinct).mpr fun charges => ?_
    rw [← r.carry_symm charges, List.mem_map_of_injective r.carry_injective, sound.mem_charges_iff exhausts,
      otherSound.mem_charges_iff otherExhausts, r.isValid_carry_iff]
  have reading {k : Geometry K} {found : Outcome k} (sound : found.Sound) :
      found.configurations.map (·.reading) =
        (found.configurations.map (·.charges)).map fun charges => (k.chargeAt? charges, k.energy charges) := by
    rw [List.map_map]
    refine List.map_congr_left fun s listed => ?_
    rw [Surface.reading, (sound.accurate s listed).energy_eq, Function.comp]
  rw [reading sound, reading otherSound]
  have same := carried.map fun charges => (other.chargeAt? charges, other.energy charges)
  rw [List.map_map] at same
  simpa only [Function.comp_def, r.chargeAt?_carry distinct, r.energy_carry] using same

/-- Outcomes with the same readings have the same minimum energy, -/
theorem minimumEnergy?_eq_of_readings {outcome : Outcome g} {reordered : Outcome other}
    (same : (outcome.configurations.map (·.reading)).Perm (reordered.configurations.map (·.reading))) :
    outcome.minimumEnergy? = reordered.minimumEnergy? := by
  have energies : (outcome.configurations.map (·.cachedEnergy)).Perm (reordered.configurations.map (·.cachedEnergy)) := by
    simpa only [List.map_map, Function.comp_def, Surface.reading] using same.map Prod.snd
  ext energy
  rw [minimumEnergy?_eq_some_iff, minimumEnergy?_eq_some_iff, energies.mem_iff]
  simp only [energies.mem_iff]

/-- and the same ground states. -/
theorem groundStates_perm_of_readings {outcome : Outcome g} {reordered : Outcome other}
    (same : (outcome.configurations.map (·.reading)).Perm (reordered.configurations.map (·.reading))) :
    (outcome.groundStates.map (·.reading)).Perm (reordered.groundStates.map (·.reading)) := by
  have ground {k : Geometry K} {minimum : K} (configurations : List (Surface k)) :
      (configurations.filter fun s => s.cachedEnergy - minimum < Checker.standardTolerance).map (·.reading) =
        (configurations.map (·.reading)).filter fun reading => reading.2 - minimum < Checker.standardTolerance := by
    rw [List.filter_map]
    rfl
  unfold groundStates
  rw [minimumEnergy?_eq_of_readings same]
  cases reordered.minimumEnergy? with
  | none => exact List.Perm.refl _
  | some minimum =>
    rw [ground, ground]
    exact same.filter _

end

end Outcome

variable {K σ τ : Type} [ExactElementary K] [RandomSource σ] [RandomSource τ]

/-- Two complete runs of exact engines agree on a layout, in whatever order its sites were inserted: they
    find the same charges at the same coordinates with the same energies, hence the same minimum energy and
    the same ground states. -/
theorem complete_search_order_independent {inserted reordered : List Site}
    (same : (Layout.ofSites inserted).sites.Perm (Layout.ofSites reordered).sites) {params : Parameters K}
    {environment : Environment σ} {otherEnvironment : Environment τ} {selection otherSelection : Selection K}
    (exact : selection.engine.isExact) (otherExact : otherSelection.engine.isExact) {outcome other : Outcome _}
    (searched : simulateLayout environment selection (.ofSites inserted) params = .ok outcome)
    (otherSearched : simulateLayout otherEnvironment otherSelection (.ofSites reordered) params = .ok other)
    (complete : outcome.status = .complete) (otherComplete : other.status = .complete) :
    (outcome.configurations.map (·.reading)).Perm (other.configurations.map (·.reading)) ∧
      outcome.minimumEnergy? = other.minimumEnergy? ∧
      (outcome.groundStates.map (·.reading)).Perm (other.groundStates.map (·.reading)) := by
  suffices readings : (outcome.configurations.map (·.reading)).Perm (other.configurations.map (·.reading)) from
    ⟨readings, Outcome.minimumEnergy?_eq_of_readings readings, Outcome.groundStates_perm_of_readings readings⟩
  have distinct := Layout.ofSites_distinct inserted
  let r : Geometry.Renumbering (.ofLayout (.ofSites inserted) params) (.ofLayout (.ofSites reordered) params) :=
    Geometry.renumbering distinct same params
  obtain ⟨nothing, found⟩ := simulate_complete (of_decide_eq_true exact) (Geometry.ofLayout_repulsive _) searched complete
  obtain ⟨otherNothing, otherFound⟩ :=
    simulate_complete (of_decide_eq_true otherExact) (Geometry.ofLayout_repulsive _) otherSearched otherComplete
  have size : (Geometry.ofLayout (.ofSites reordered) params).size = (Geometry.ofLayout (.ofSites inserted) params).size :=
    (Fin.equiv_iff_eq.mp ⟨r.number⟩).symm
  rw [size] at otherNothing otherFound
  by_cases nowhere : (Geometry.ofLayout (.ofSites inserted) params).size = 0
  · rw [nothing nowhere, otherNothing nowhere]
    exact List.Perm.refl _
  · obtain ⟨sound, exhausts⟩ := found nowhere
    obtain ⟨otherSound, otherExhausts⟩ := otherFound nowhere
    exact Outcome.readings_perm r (Geometry.ofLayout_distinct distinct params) sound exhausts otherSound otherExhausts

/-- Two neighbouring sites in both orders: the exhaustive searches agree. -/
theorem complete_search_order_independent_pair :
    ∃ (outcome : Outcome (Geometry.ofLayout (.ofSites [⟨⟨0, 0, 0⟩, .normal⟩, ⟨⟨1, 0, 0⟩, .output⟩]) .standard))
      (other : Outcome (Geometry.ofLayout (.ofSites [⟨⟨1, 0, 0⟩, .output⟩, ⟨⟨0, 0, 0⟩, .normal⟩])
        (.standard : Parameters ℝ))),
      simulateLayout (⟨Clock.still, ChaCha.ofSeed, 0⟩ : Environment ChaCha) (.exhaustive {}) _ _ = .ok outcome ∧
      simulateLayout (⟨Clock.still, ChaCha.ofSeed, 0⟩ : Environment ChaCha) (.exhaustive {}) _ _ = .ok other ∧
      (outcome.configurations.map (·.reading)).Perm (other.configurations.map (·.reading)) ∧
      outcome.minimumEnergy? = other.minimumEnergy? ∧
      (outcome.groundStates.map (·.reading)).Perm (other.groundStates.map (·.reading)) := by
  have valid := (Parameters.standard_valid : (.standard : Parameters ℝ).validate = .ok ())
  have completes {layout : Layout} (nonempty : layout.isEmpty = false) (small : 3 ^ layout.size < wordLimit) :=
    exhaustive_unlimited (⟨Clock.still, ChaCha.ofSeed, 0⟩ : Environment ChaCha) nonempty valid small
  obtain ⟨outcome, searched, complete⟩ :=
    completes (rfl : (Layout.ofSites [⟨⟨0, 0, 0⟩, .normal⟩, ⟨⟨1, 0, 0⟩, .output⟩]).isEmpty = false) (by decide)
  obtain ⟨other, otherSearched, otherComplete⟩ :=
    completes (rfl : (Layout.ofSites [⟨⟨1, 0, 0⟩, .output⟩, ⟨⟨0, 0, 0⟩, .normal⟩]).isEmpty = false) (by decide)
  have same : (Layout.ofSites [⟨⟨0, 0, 0⟩, .normal⟩, ⟨⟨1, 0, 0⟩, .output⟩]).sites.Perm
      (Layout.ofSites [⟨⟨1, 0, 0⟩, .output⟩, ⟨⟨0, 0, 0⟩, .normal⟩]).sites := by decide
  exact ⟨outcome, other, searched, otherSearched, complete_search_order_independent same (by decide) (by decide)
    searched otherSearched complete otherComplete⟩

end DanglingBond
