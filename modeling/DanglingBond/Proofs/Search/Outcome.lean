import Mathlib
import DanglingBond.Proofs.Charge.Index
import DanglingBond.Proofs.Stability.Validity
import DanglingBond.Search.Outcome
import DanglingBond.Search.Simulation

/-!
What the outcome of an exact search has to be. It is sound when it lists valid assignments on clean
surfaces, each at most once and in charge-index order (`Outcome.Sound`), and it exhausts the search
space when no valid assignment is missing (`Outcome.Exhausts`). Sorting makes such an outcome of the
valid ones among any different assignments (`ofFound_spec`).
-/

namespace DanglingBond

variable {K : Type}

/-- The digits of the charges, the first site first. -/
def Surface.digits {g : Geometry K} (s : Surface g) : List Nat := s.states.map Charge.digit

theorem Surface.charges_eq_of_digits {g : Geometry K} {s t : Surface g} (same : s.digits = t.digits) :
    s.charges = t.charges := by
  have states : s.states = t.states :=
    List.map_injective_iff.mpr (fun _ _ => Charge.digit_injective) same
  exact Vector.toList_inj.mp states

namespace Outcome

variable {g : Geometry K}

theorem mem_ofFound {engine : Engine} {found : List (Surface g)} {status : SearchStatus} {runtime : Nat}
    {s : Surface g} : s ∈ (ofFound engine found status runtime).configurations ↔ s ∈ found :=
  List.mem_mergeSort

theorem ofFound_sorted (engine : Engine) (found : List (Surface g)) (status : SearchStatus) (runtime : Nat) :
    (ofFound engine found status runtime).configurations.Pairwise fun s t => s.digits ≤ t.digits := by
  have order (s t : Surface g) : Charge.listLE s.charges.toList t.charges.toList = true ↔ s.digits ≤ t.digits := by
    rw [Charge.listLE_eq_true_iff, ← not_lt]
    rfl
  refine List.Pairwise.imp (fun listed => (order _ _).mp listed) (List.pairwise_mergeSort ?_ ?_ found)
  · intro s t u first second
    exact (order s u).mpr (((order s t).mp first).trans ((order t u).mp second))
  · intro s t
    rw [Bool.or_eq_true, order, order]
    exact le_total _ _

/-- Sorting puts different assignments into strictly increasing order. -/
theorem ofFound_increasing (engine : Engine) {found : List (Surface g)} (distinct : (found.map (·.charges)).Nodup)
    (status : SearchStatus) (runtime : Nat) :
    (ofFound engine found status runtime).configurations.Pairwise fun s t => s.digits < t.digits := by
  have sorted := ofFound_sorted engine found status runtime
  have different : (ofFound engine found status runtime).configurations.Pairwise fun s t => s.charges ≠ t.charges := by
    have permuted := (List.mergeSort_perm found fun s t => Charge.listLE s.charges.toList t.charges.toList).map (·.charges)
    exact List.pairwise_map.mp (permuted.nodup_iff.mpr distinct)
  refine (sorted.and different).imp ?_
  rintro s t ⟨le, ne⟩
  exact lt_of_le_of_ne le fun same => ne (Surface.charges_eq_of_digits same)

variable [ExactScalar K]

/-- The configurations are valid assignments in increasing charge-index order, on clean surfaces
    with an accurate cache. -/
structure Sound (outcome : Outcome g) : Prop where
  increasing : outcome.configurations.Pairwise fun s t => s.digits < t.digits
  valid : ∀ s ∈ outcome.configurations, g.IsValid s.charges
  clean : ∀ s ∈ outcome.configurations, s.clean = true
  accurate : ∀ s ∈ outcome.configurations, s.Accurate

/-- No valid assignment is missing. -/
def Exhausts (outcome : Outcome g) : Prop :=
  ∀ charges, g.IsValid charges → ∃ s ∈ outcome.configurations, s.charges = charges

theorem Sound.withDetail {outcome : Outcome g} (sound : outcome.Sound) (name value : String) :
    (outcome.withDetail name value).Sound :=
  ⟨sound.increasing, sound.valid, sound.clean, sound.accurate⟩

theorem Sound.distinct {outcome : Outcome g} (sound : outcome.Sound) : (outcome.configurations.map (·.charges)).Nodup := by
  refine List.pairwise_map.mpr (sound.increasing.imp ?_)
  rintro s t less same
  rw [Surface.digits, Surface.digits, Surface.states, Surface.states, same] at less
  exact lt_irrefl _ less

/-- A sound outcome that exhausts the search space lists exactly the valid assignments. -/
theorem Sound.mem_charges_iff {outcome : Outcome g} (sound : outcome.Sound) (exhausts : outcome.Exhausts)
    {charges : Vector Charge g.size} : charges ∈ outcome.configurations.map (·.charges) ↔ g.IsValid charges := by
  rw [List.mem_map]
  constructor
  · rintro ⟨s, listed, rfl⟩
    exact sound.valid s listed
  · exact exhausts charges

/-- Two outcomes that exhaust the search space list the same assignments in the same order. -/
theorem Sound.charges_unique {outcome other : Outcome g} (sound : outcome.Sound) (exhausts : outcome.Exhausts)
    (otherSound : other.Sound) (otherExhausts : other.Exhausts) :
    outcome.configurations.map (·.charges) = other.configurations.map (·.charges) := by
  let precedes (charges later : Vector Charge g.size) : Prop :=
    charges.toList.map Charge.digit < later.toList.map Charge.digit
  have increasing : (outcome.configurations.map (·.charges)).Pairwise precedes := List.pairwise_map.mpr sound.increasing
  have otherIncreasing : (other.configurations.map (·.charges)).Pairwise precedes :=
    List.pairwise_map.mpr otherSound.increasing
  have different {charges later : Vector Charge g.size} (less : precedes charges later) : charges ≠ later := by
    rintro rfl
    exact lt_irrefl _ less
  have permuted := (List.perm_ext_iff_of_nodup (increasing.imp different) (otherIncreasing.imp different)).mpr
    fun charges => (sound.mem_charges_iff exhausts).trans (otherSound.mem_charges_iff otherExhausts).symm
  refine permuted.eq_of_pairwise ?_ increasing otherIncreasing
  intro charges later _ _ less greater
  exact absurd greater (lt_asymm less)

/-- Whoever finds the valid ones among different assignments has a sound outcome, which exhausts the
    search space when every valid assignment is among them. -/
theorem ofFound_spec (engine : Engine) {start : Surface g} {found : List (Surface g)}
    {assignments : List (Vector Charge g.size)} (selects : start.Selects found assignments)
    (status : SearchStatus) (runtime : Nat) :
    (ofFound engine found status runtime).Sound ∧
      ((∀ charges, g.IsValid charges → charges ∈ assignments) → (ofFound engine found status runtime).Exhausts) := by
  have member {s : Surface g} : s ∈ (ofFound engine found status runtime).configurations ↔
      s.charges ∈ assignments ∧ (Surface.fresh g s.charges).PhysicallyValid ∧ s = start.charged s.charges := by
    rw [mem_ofFound, selects.kept.mem_iff, Surface.mem_validOf]
  refine ⟨⟨?_, ?_, ?_, ?_⟩, ?_⟩
  · apply ofFound_increasing
    rw [(selects.kept.map _).nodup_iff, Surface.charges_validOf]
    exact selects.distinct.filter _
  · intro s listed
    obtain ⟨tried, valid, _⟩ := member.mp listed
    exact ⟨selects.uses s.charges tried, valid⟩
  · intro s listed
    rw [(member.mp listed).2.2]
    rfl
  · intro s listed
    rw [(member.mp listed).2.2]
    exact Surface.charged_accurate start s.charges
  · intro all charges valid
    exact ⟨start.charged charges, member.mpr ⟨all charges valid, valid.2, rfl⟩, rfl⟩

end Outcome

section
variable {K σ : Type} [Scalar K] [RandomSource σ] {environment : Environment σ} {selection : Selection K} {g : Geometry K}

/-- Parameters that are not valid are refused. -/
theorem validate_of_simulate {outcome : Outcome g} (simulated : simulate environment selection g = .ok outcome) :
    g.params.validate = .ok () := by
  obtain ⟨_, valid, _⟩ := Except.bind_eq_ok.mp simulated
  exact Except.mapError_eq_ok.mp valid

/-- Where there are no sites nothing is searched. -/
theorem simulate_empty (valid : g.params.validate = .ok ()) (empty : g.size = 0) :
    simulate environment selection g = .ok (.nothing selection.engine (environment.clock .finish) g) := by
  unfold simulate
  rw [valid]
  exact if_pos empty

end

/-- Where there is something to search, the selected engine searches it. -/
theorem simulate_occupied {K σ : Type} [Scalar K] [RandomSource σ] (environment : Environment σ) (selection : Selection K)
    {g : Geometry K} (valid : g.params.validate = .ok ()) (occupied : g.size ≠ 0) :
    simulate environment selection g =
      match selection with
      | .exhaustive settings => Exhaustive.search environment settings g
      | .pruned settings => .ok (Pruned.search environment settings g)
      | .growth settings => .ok (Growth.search environment settings g)
      | .clustered settings => .ok (Clustered.search environment settings g) := by
  unfold simulate
  rw [valid]
  cases selection <;> exact if_neg occupied

end DanglingBond
