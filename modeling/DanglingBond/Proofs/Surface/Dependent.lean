import Mathlib
import DanglingBond.Proofs.Stability.Relaxation
import DanglingBond.Proofs.Stability.Validity
import DanglingBond.Proofs.Surface.Energy

/-!
The dependent site in the derived mode. A refresh gives it the charge that its local potential leads it to,
and this potential is induced by the others alone (`potentialOf_congr`). So the refresh neither depends on
the charge that the site had, nor would a second one move it (`refresh_settles`).
-/

namespace DanglingBond

variable {K : Type} [ExactScalar K] {g : Geometry K}

namespace Surface

/-- The local potential of a site depends on the charges of the others alone. -/
theorem potentialOf_congr (reciprocal : g.Reciprocal) {charges others : Vector Charge g.size} {site : Fin g.size}
    (same : ∀ i, i ≠ site → others[i] = charges[i]) : potentialOf g others site = potentialOf g charges site := by
  have agree : others.put site .negative = charges.put site .negative := by
    apply Vector.ext_at
    intro i
    by_cases here : i = site
    · simp [here]
    · simp [here, same i here]
  rw [← potentialOf_put_self reciprocal others site .negative, agree, potentialOf_put_self reciprocal]

/-- A surface whose dependent site is derived is left alone by a second refresh. -/
theorem refresh_refresh (reciprocal : g.Reciprocal) {s : Surface g} {site : Fin g.size} (derived : s.mode = .derived)
    (dependent : s.dependent = some site) : s.refresh.refresh = s.refresh := by
  have refreshed := refresh_of_derived reciprocal derived dependent
  generalize charges : s.charges.put site _ = settled at refreshed
  have again := refresh_of_derived (s := s.charged settled) reciprocal derived dependent
  rw [refreshed, again, charged_charges, ← charges, potentialOf_put_self reciprocal, Vector.put_put]
  rfl

end Surface

/-- A refresh in the derived mode makes the surface clean with the cache that belongs to its charges. It
    changes no charge but that of the dependent site, which becomes one of the base that follows from the
    charges of the others alone, and is stable in its local potential whenever any charge of the base is.
    A second refresh changes nothing. -/
theorem refresh_settles (reciprocal : g.Reciprocal) {s : Surface g} {site : Fin g.size} (derived : s.mode = .derived)
    (dependent : s.dependent = some site) (tolerant : 0 < s.checker.tolerance) :
    s.refresh.Current ∧
    (∀ i, i ≠ site → s.refresh.charges[i] = s.charges[i]) ∧
    s.refresh.charges[site] ∈ Charge.ofBase g.params.base ∧
    (∀ other : Surface g, other.mode = .derived → other.dependent = some site →
      (∀ i, i ≠ site → other.charges[i] = s.charges[i]) → other.refresh.charges[site] = s.refresh.charges[site]) ∧
    ((∃ state ∈ Charge.ofBase g.params.base, s.checker.StateStable g.params state s.refresh.potentials[site]) →
      s.checker.SiteStable g.params s.refresh site.val) ∧
    s.refresh.refresh = s.refresh := by
  have refreshed := Surface.refresh_of_derived reciprocal derived dependent
  have charge : s.refresh.charges[site] =
      Checker.relaxed g.params g.params.base (Surface.potentialOf g s.charges site) := by
    rw [refreshed, Surface.charged_charges, Vector.at_put, if_pos rfl]
  refine ⟨?_, fun i other => ?_, ?_, fun other derived' dependent' same => ?_, ?_, ?_⟩
  · rw [refreshed]
    exact Surface.charged_current s _
  · rw [refreshed, Surface.charged_charges, Vector.at_put, if_neg other]
  · rw [charge]
    exact Checker.relaxed_mem_ofBase _ _ _
  · rw [Surface.refresh_of_derived reciprocal derived' dependent', Surface.charged_charges, Vector.at_put, if_pos rfl,
      charge, Surface.potentialOf_congr reciprocal same]
  · rintro ⟨state, member, stable⟩
    have potential : s.refresh.potentials[site] = Surface.potentialOf g s.charges site := by
      rw [refreshed, Surface.charged_potential, Surface.potentialOf_put_self reciprocal]
    rw [Surface.siteStable_iff, charge, potential]
    rw [potential] at stable
    exact Checker.relaxed_stable tolerant member stable
  · exact Surface.refresh_refresh reciprocal derived dependent

/-- A stale surface, on which the second of two sites is positive beside a negative one. -/
def Surface.unsettledPair : Surface Geometry.pair :=
  { (ofGeometry Geometry.pair).assign ⟨1, by decide⟩ .positive with
    mode := .derived
    dependent := some ⟨1, by decide⟩ }

theorem refresh_settles_pair :
    Surface.unsettledPair.states = [.negative, .positive] ∧ Surface.unsettledPair.refresh.states = [.negative, .neutral] ∧
      Surface.unsettledPair.refresh.Current ∧
      Checker.standard.SiteStable Geometry.pair.params Surface.unsettledPair.refresh 1 ∧
      Surface.unsettledPair.refresh.refresh = Surface.unsettledPair.refresh := by
  obtain ⟨current, _, member, _, stable, settled⟩ :=
    refresh_settles (s := Surface.unsettledPair) Geometry.pair_repulsive.toReciprocal rfl rfl Checker.standard_tolerant
  refine ⟨rfl, by decide +kernel, current, stable ⟨.neutral, by decide, ?_⟩, settled⟩
  decide +kernel

end DanglingBond
