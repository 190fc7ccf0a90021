import Mathlib
import DanglingBond.Proofs.Scalar.Rounding
import DanglingBond.Proofs.Search.GroundState

/-!
Energy levels and ground states. Levels are counted into a list in ascending order (`Counted`). The level of an
energy is the nearest multiple of the resolution, so it changes in the middle between two multiples
(`levelOf_le_iff`), however close two energies may be that lie on either side. All energies at the lowest level
are within the resolution of the least one, and an energy within the resolution of the least one is at this
level or, past the middle, at the next (`levelOf_eq_iff`, `levelOf_close`). So the lowest level counts the
ground states that are not past the middle (`groundStates_by_level`).
-/

namespace DanglingBond

namespace Outcome

/-! ## Counting -/

/-- What is counted at a level, over all of its entries. -/
def countAt (level : Int) (levels : List (Int × Nat)) : Nat := ((levels.filter (·.1 = level)).map (·.2)).sum

/-- Each level that occurs is listed once, in ascending order, with how often it occurs. -/
structure Counted (levels : List (Int × Nat)) (occurring : List Int) : Prop where
  increasing : levels.Pairwise fun entry later => entry.1 < later.1
  positive : ∀ entry ∈ levels, 0 < entry.2
  countAt_eq (level : Int) : countAt level levels = occurring.count level
  total : (levels.map (·.2)).sum = occurring.length

theorem countAt_cons (level : Int) (entry : Int × Nat) (levels : List (Int × Nat)) :
    countAt level (entry :: levels) = (if entry.1 = level then entry.2 else 0) + countAt level levels := by
  by_cases same : entry.1 = level <;> simp [countAt, same]

theorem countAt_countLevel (level added : Int) (levels : List (Int × Nat)) :
    countAt level (countLevel added levels) = countAt level levels + if added = level then 1 else 0 := by
  induction levels with
  | nil =>
    rw [countLevel, countAt_cons, Nat.add_comm]
  | cons entry levels ih =>
    obtain ⟨other, count⟩ := entry
    rw [countLevel]
    split
    · simp only [countAt_cons]
      omega
    · split
      · rename_i same
        subst same
        simp only [countAt_cons]
        split <;> omega
      · simp only [countAt_cons, ih]
        omega

theorem sum_countLevel (added : Int) (levels : List (Int × Nat)) :
    ((countLevel added levels).map (·.2)).sum = (levels.map (·.2)).sum + 1 := by
  induction levels with
  | nil => rfl
  | cons entry levels ih =>
    obtain ⟨other, count⟩ := entry
    rw [countLevel]
    split
    · simp only [List.map_cons, List.sum_cons]
      omega
    · split
      · simp only [List.map_cons, List.sum_cons]
        omega
      · simp only [List.map_cons, List.sum_cons, ih]
        omega

/-- An entry is a new one for the level or the one it had, or belongs to another level. -/
theorem mem_countLevel {added : Int} {entry : Int × Nat} {levels : List (Int × Nat)}
    (listed : entry ∈ countLevel added levels) : entry.1 = added ∧ 0 < entry.2 ∨ entry ∈ levels := by
  induction levels with
  | nil => exact .inl (List.mem_singleton.mp listed ▸ ⟨rfl, Nat.one_pos⟩)
  | cons first levels ih =>
    obtain ⟨other, count⟩ := first
    rw [countLevel] at listed
    split at listed
    · rcases List.mem_cons.mp listed with rfl | before
      · exact .inl ⟨rfl, Nat.one_pos⟩
      · exact .inr before
    · split at listed
      · rename_i same
        rcases List.mem_cons.mp listed with rfl | later
        · exact .inl ⟨same.symm, Nat.succ_pos _⟩
        · exact .inr (List.mem_cons_of_mem _ later)
      · rcases List.mem_cons.mp listed with rfl | later
        · exact .inr List.mem_cons_self
        · exact (ih later).imp_right (List.mem_cons_of_mem _)

theorem countLevel_increasing (added : Int) {levels : List (Int × Nat)}
    (increasing : levels.Pairwise fun entry later => entry.1 < later.1) :
    (countLevel added levels).Pairwise fun entry later => entry.1 < later.1 := by
  induction levels with
  | nil => exact List.pairwise_singleton _ _
  | cons first levels ih =>
    obtain ⟨other, count⟩ := first
    obtain ⟨least, rest⟩ := List.pairwise_cons.mp increasing
    rw [countLevel]
    split
    · rename_i below
      refine List.pairwise_cons.mpr ⟨fun entry listed => ?_, increasing⟩
      rcases List.mem_cons.mp listed with rfl | later
      · exact below
      · exact below.trans (least entry later)
    · split
      · exact List.pairwise_cons.mpr ⟨least, rest⟩
      · rename_i notBelow apart
        refine List.pairwise_cons.mpr ⟨fun entry listed => ?_, ih rest⟩
        rcases mem_countLevel listed with ⟨same, _⟩ | before
        · simp only
          omega
        · exact least entry before

theorem Counted.countLevel {levels : List (Int × Nat)} {occurring : List Int} (counted : Counted levels occurring)
    (added : Int) : Counted (countLevel added levels) (added :: occurring) := by
  refine ⟨countLevel_increasing added counted.increasing, ?_, ?_, ?_⟩
  · intro entry listed
    exact (mem_countLevel listed).elim And.right (counted.positive entry)
  · intro level
    rw [countAt_countLevel, counted.countAt_eq, List.count_cons]
    simp only [beq_iff_eq]
  · rw [sum_countLevel, counted.total, List.length_cons]

/-- Only how often the levels occur matters, not their order. -/
theorem Counted.perm {levels : List (Int × Nat)} {occurring others : List Int} (counted : Counted levels occurring)
    (same : occurring.Perm others) : Counted levels others :=
  ⟨counted.increasing, counted.positive, fun level => (counted.countAt_eq level).trans (same.count_eq level),
    counted.total.trans same.length_eq⟩

theorem foldl_countLevel (occurring : List Int) :
    Counted (occurring.foldl (fun levels level => countLevel level levels) []) occurring := by
  induction occurring using List.reverseRecOn with
  | nil => exact ⟨.nil, nofun, fun _ => rfl, rfl⟩
  | append_singleton occurring level ih =>
    rw [List.foldl_concat]
    exact (ih.countLevel level).perm (List.perm_append_singleton level occurring).symm

/-- In ascending order a level has one entry, which is all that is counted at it. -/
theorem countAt_of_mem {levels : List (Int × Nat)} (increasing : levels.Pairwise fun entry later => entry.1 < later.1)
    {level : Int} {count : Nat} (listed : (level, count) ∈ levels) : countAt level levels = count := by
  induction levels with
  | nil => contradiction
  | cons first levels ih =>
    obtain ⟨least, rest⟩ := List.pairwise_cons.mp increasing
    rw [countAt_cons]
    rcases List.mem_cons.mp listed with rfl | later
    · have others : levels.filter (·.1 = level) = [] := by
        rw [List.filter_eq_nil_iff]
        intro other member
        have above := least other member
        simpa using above.ne'
      simp [countAt, others]
    · have below := least _ later
      rw [if_neg below.ne, ih rest later, Nat.zero_add]

theorem Counted.mem_iff {levels : List (Int × Nat)} {occurring : List Int} (counted : Counted levels occurring)
    {level : Int} {count : Nat} : (level, count) ∈ levels ↔ 0 < count ∧ occurring.count level = count := by
  rw [← counted.countAt_eq]
  constructor
  · intro listed
    exact ⟨counted.positive _ listed, countAt_of_mem counted.increasing listed⟩
  · rintro ⟨positive, rfl⟩
    have some : levels.filter (·.1 = level) ≠ [] := by
      intro none
      rw [countAt, none] at positive
      exact absurd positive (lt_irrefl 0)
    obtain ⟨⟨other, count⟩, member⟩ := List.exists_mem_of_ne_nil _ some
    obtain ⟨listed, same⟩ := List.mem_filter.mp member
    obtain rfl : other = level := by simpa using same
    rwa [countAt_of_mem counted.increasing listed]

/-- The lowest level that occurs is listed first. -/
theorem Counted.head {levels : List (Int × Nat)} {occurring : List Int} (counted : Counted levels occurring) {level : Int}
    (occurs : level ∈ occurring) (lowest : ∀ other ∈ occurring, level ≤ other) :
    ∃ later, levels = (level, occurring.count level) :: later := by
  have listed : (level, occurring.count level) ∈ levels := counted.mem_iff.mpr ⟨List.count_pos_iff.mpr occurs, rfl⟩
  obtain ⟨⟨other, count⟩, later, rfl⟩ := List.exists_cons_of_ne_nil (List.ne_nil_of_mem listed)
  refine ⟨later, ?_⟩
  rcases List.mem_cons.mp listed with same | behind
  · rw [same]
  · obtain ⟨positive, counts⟩ := counted.mem_iff.mp List.mem_cons_self
    have least := lowest other (List.count_pos_iff.mp (counts ▸ positive))
    have above := (List.pairwise_cons.mp counted.increasing).1 _ behind
    exact absurd above (not_lt.mpr least)

/-! ## Levels of energies -/

variable {K : Type} [ExactScalar K]

theorem energyResolution_pos : (0 : K) < energyResolution := by
  unfold energyResolution
  norm_num

/-- A signed machine word holds the level of the energy. -/
def LevelHeld (energy : K) : Prop :=
  -(2 ^ 63) ≤ Scalar.round (energy / energyResolution) ∧ Scalar.round (energy / energyResolution) ≤ 2 ^ 63 - 1

/-- The energy in the middle between a level and the next one. -/
def middle (level : Int) : K := (level + 0.5) * energyResolution

/-- The energy is past the middle between a level and the next one. The middle itself is past where the level
    is not negative. -/
def PastMiddle (level : Int) (energy : K) : Prop := if 0 ≤ level then middle level ≤ energy else middle level < energy

instance (energy : K) : Decidable (LevelHeld energy) := inferInstanceAs (Decidable (_ ∧ _))

instance (level : Int) (energy : K) : Decidable (PastMiddle level energy) :=
  inferInstanceAs (Decidable (if 0 ≤ level then _ else _))

theorem levelOf_eq_round {energy : K} (held : LevelHeld energy) :
    levelOf energy = Scalar.round (energy / energyResolution) := by
  rw [levelOf, clampToSignedWord, min_eq_left held.2, max_eq_right held.1]

/-- No level is nearer to the energy. -/
theorem abs_levelOf_sub_le {energy : K} (held : LevelHeld energy) :
    |(levelOf energy : K) * energyResolution - energy| ≤ energyResolution / 2 := by
  have resolution := energyResolution_pos (K := K)
  have near := mul_le_mul_of_nonneg_right (Scalar.abs_round_sub_le (energy / energyResolution)) resolution.le
  calc |(levelOf energy : K) * energyResolution - energy|
      = |(Scalar.round (energy / energyResolution) : K) - energy / energyResolution| * energyResolution := by
        rw [levelOf_eq_round held, ← abs_of_pos resolution, ← abs_mul, abs_of_pos resolution, sub_mul,
          div_mul_cancel₀ _ resolution.ne']
    _ ≤ 1 / 2 * energyResolution := near
    _ = energyResolution / 2 := by ring

theorem middle_eq (level : Int) : (middle level : K) = (level + 1 / 2) * energyResolution := by
  rw [middle]
  norm_num

/-- The middles between levels are one resolution apart. -/
theorem middle_add_one (level : Int) : (middle (level + 1) : K) = middle level + energyResolution := by
  rw [middle, middle]
  push_cast
  ring

theorem levelOf_le_iff {energy : K} (held : LevelHeld energy) (level : Int) :
    levelOf energy ≤ level ↔ ¬ PastMiddle level energy := by
  rw [levelOf_eq_round held, Scalar.round_le_iff, PastMiddle, middle_eq]
  by_cases up : 0 ≤ level
  · rw [if_pos up, if_pos up, div_lt_iff₀ energyResolution_pos, not_le]
  · rw [if_neg up, if_neg up, div_le_iff₀ energyResolution_pos, not_lt]

theorem PastMiddle.mono {level : Int} {energy higher : K} (past : PastMiddle level energy) (le : energy ≤ higher) :
    PastMiddle level higher := by
  unfold PastMiddle at past ⊢
  by_cases up : 0 ≤ level
  · rw [if_pos up] at past ⊢
    exact past.trans le
  · rw [if_neg up] at past ⊢
    exact past.trans_le le

/-- What lies below an energy past a middle, but within the resolution of it, is past the middle before. -/
theorem PastMiddle.lower {level : Int} {energy lower : K} (past : PastMiddle (level + 1) energy)
    (close : energy < lower + energyResolution) : PastMiddle level lower := by
  have strict : middle level < lower := by
    unfold PastMiddle at past
    rw [middle_add_one] at past
    by_cases up : 0 ≤ level + 1
    · rw [if_pos up] at past
      linarith
    · rw [if_neg up] at past
      linarith
  unfold PastMiddle
  by_cases up : 0 ≤ level
  · rw [if_pos up]
    exact strict.le
  · rw [if_neg up]
    exact strict

/-- What is past a middle and not past the next one is close together. -/
theorem PastMiddle.close {level : Int} {lower energy : K} (past : PastMiddle level lower)
    (notPast : ¬ PastMiddle (level + 1) energy) : energy < lower + energyResolution := by
  unfold PastMiddle at past notPast
  rw [middle_add_one] at notPast
  by_cases up : 0 ≤ level + 1
  · rw [if_pos up, not_le] at notPast
    have least : middle level ≤ lower := by
      split at past
      · exact past
      · exact past.le
    linarith
  · rw [if_neg up, not_lt] at notPast
    rw [if_neg (by omega)] at past
    linarith

theorem levelOf_mono {energy higher : K} (held : LevelHeld energy) (higherHeld : LevelHeld higher) (le : energy ≤ higher) :
    levelOf energy ≤ levelOf higher := by
  rw [levelOf_le_iff held]
  intro past
  exact (levelOf_le_iff higherHeld _).mp le_rfl (past.mono le)

/-- Energies closer than the resolution are at the same level or at neighbouring ones. -/
theorem levelOf_close {energy higher : K} (held : LevelHeld energy) (higherHeld : LevelHeld higher)
    (close : higher < energy + energyResolution) : levelOf higher ≤ levelOf energy + 1 := by
  rw [levelOf_le_iff higherHeld]
  intro past
  exact (levelOf_le_iff held _).mp le_rfl (past.lower close)

/-- The energies at the level of a lower one are those closer to it than the resolution and not past the
    middle. -/
theorem levelOf_eq_iff {energy higher : K} (held : LevelHeld energy) (higherHeld : LevelHeld higher) (le : energy ≤ higher) :
    levelOf higher = levelOf energy ↔ higher < energy + energyResolution ∧ ¬ PastMiddle (levelOf energy) higher := by
  rw [← levelOf_le_iff higherHeld]
  constructor
  · intro same
    have past : PastMiddle (levelOf energy - 1) energy := by
      by_contra notPast
      exact absurd ((levelOf_le_iff held _).mpr notPast) (by omega)
    have notPast := (levelOf_le_iff higherHeld _).mp same.le
    exact ⟨past.close (by rwa [sub_add_cancel]), same.le⟩
  · rintro ⟨_, below⟩
    exact le_antisymm below (levelOf_mono held higherHeld le)

/-! ## Outcomes -/

variable {g : Geometry K}

/-- The levels of the configurations, in the order of these. -/
def levels (outcome : Outcome g) : List Int := outcome.configurations.map fun s => levelOf s.cachedEnergy

theorem energyDistribution_eq (outcome : Outcome g) :
    ∃ counted : List (Int × Nat), Counted counted outcome.levels ∧
      outcome.energyDistribution = counted.map fun entry => ((entry.1 : K) * energyResolution, entry.2) := by
  refine ⟨_, foldl_countLevel outcome.levels, ?_⟩
  rw [energyDistribution, levels, List.foldl_map]

theorem count_levels (outcome : Outcome g) (level : Int) :
    outcome.levels.count level = outcome.configurations.countP fun s => levelOf s.cachedEnergy = level := by
  rw [List.count, levels, List.countP_map]
  rfl

theorem mem_energyDistribution_iff {outcome : Outcome g} {level : Int} {count : Nat} :
    ((level : K) * energyResolution, count) ∈ outcome.energyDistribution ↔
      0 < count ∧ (outcome.configurations.countP fun s => levelOf s.cachedEnergy = level) = count := by
  obtain ⟨counted, spec, distribution⟩ := outcome.energyDistribution_eq
  rw [distribution, ← count_levels, ← spec.mem_iff, List.mem_map]
  constructor
  · rintro ⟨⟨other, counts⟩, listed, same⟩
    obtain ⟨levels, rfl⟩ := Prod.mk.inj same
    obtain rfl : other = level := Int.cast_injective (mul_right_cancel₀ energyResolution_pos.ne' levels)
    exact listed
  · intro listed
    exact ⟨_, listed, rfl⟩

theorem groundStates_eq {outcome : Outcome g} {minimum : K} (least : outcome.minimumEnergy? = some minimum) :
    outcome.groundStates = outcome.configurations.filter fun s => s.cachedEnergy < minimum + energyResolution := by
  rw [groundStates, least]
  refine List.filter_congr fun s _ => ?_
  rw [decide_eq_decide, sub_lt_iff_lt_add']
  rfl

section

variable {outcome : Outcome g} (held : ∀ s ∈ outcome.configurations, LevelHeld s.cachedEnergy) {minimum : K}
  (least : outcome.minimumEnergy? = some minimum)

include held least

theorem minimum_held : LevelHeld minimum := by
  obtain ⟨s, listed, rfl⟩ := List.mem_map.mp (minimumEnergy?_eq_some_iff.mp least).1
  exact held s listed

/-- The configurations at the lowest level are the ground states that are not past the middle. -/
theorem countP_lowest : (outcome.configurations.countP fun s => levelOf s.cachedEnergy = levelOf minimum) =
    outcome.groundStates.countP fun s => ¬ PastMiddle (levelOf minimum) s.cachedEnergy := by
  have lowest := (minimumEnergy?_eq_some_iff.mp least).2
  rw [groundStates_eq least, List.countP_filter]
  refine List.countP_congr fun s listed => ?_
  have at_lowest := levelOf_eq_iff (minimum_held held least) (held s listed) (lowest _ (List.mem_map_of_mem listed))
  simp only [decide_eq_true_eq, Bool.and_eq_true, at_lowest, and_comm]

/-- The distribution begins with the level of the least energy. -/
theorem energyDistribution_head : ∃ later, outcome.energyDistribution = ((levelOf minimum : K) * energyResolution,
    outcome.groundStates.countP fun s => ¬ PastMiddle (levelOf minimum) s.cachedEnergy) :: later := by
  obtain ⟨occurs, lowest⟩ := minimumEnergy?_eq_some_iff.mp least
  obtain ⟨counted, spec, distribution⟩ := outcome.energyDistribution_eq
  have occurring : levelOf minimum ∈ outcome.levels := by
    obtain ⟨s, listed, same⟩ := List.mem_map.mp occurs
    exact same ▸ List.mem_map_of_mem listed
  have below : ∀ level ∈ outcome.levels, levelOf minimum ≤ level := List.forall_mem_map.mpr fun s listed =>
    levelOf_mono (minimum_held held least) (held s listed) (lowest _ (List.mem_map_of_mem listed))
  obtain ⟨later, rfl⟩ := spec.head occurring below
  rw [distribution, ← countP_lowest held least, ← count_levels]
  exact ⟨_, rfl⟩

/-- A ground state is at the lowest level or, past the middle, at the next one. -/
theorem levelOf_groundState {s : Surface g} (ground : s ∈ outcome.groundStates) : levelOf s.cachedEnergy =
    if PastMiddle (levelOf minimum) s.cachedEnergy then levelOf minimum + 1 else levelOf minimum := by
  rw [groundStates_eq least, List.mem_filter, decide_eq_true_eq] at ground
  obtain ⟨listed, close⟩ := ground
  have least_held := minimum_held held least
  have above := (minimumEnergy?_eq_some_iff.mp least).2 _ (List.mem_map_of_mem listed)
  by_cases past : PastMiddle (levelOf minimum) s.cachedEnergy
  · have higher := not_le.mp (mt (levelOf_le_iff (held s listed) _).mp (not_not.mpr past))
    have neighbour := levelOf_close least_held (held s listed) close
    rw [if_pos past]
    omega
  · rw [if_neg past]
    exact (levelOf_eq_iff least_held (held s listed) above).mpr ⟨close, past⟩

end

end Outcome

open Outcome in
/-- The energy levels of an outcome are listed in strictly ascending order, each with the number of
    configurations that are no nearer to any other, so the numbers add up. Of the ground states the lowest
    level counts those that are not past the middle between it and the next, and the others are counted at the
    next. So its count is below the number of ground states exactly where one of them is past the middle. -/
theorem groundStates_by_level {K : Type} [ExactScalar K] {g : Geometry K} (outcome : Outcome g)
    (held : ∀ s ∈ outcome.configurations, LevelHeld s.cachedEnergy) :
    (outcome.energyDistribution.map (·.1)).Pairwise (· < ·) ∧
    (outcome.energyDistribution.map (·.2)).sum = outcome.size ∧
    (∀ (level : Int) count, ((level : K) * energyResolution, count) ∈ outcome.energyDistribution ↔
      0 < count ∧ (outcome.configurations.countP fun s => levelOf s.cachedEnergy = level) = count) ∧
    (∀ s ∈ outcome.configurations,
      |(levelOf s.cachedEnergy : K) * energyResolution - s.cachedEnergy| ≤ energyResolution / 2) ∧
    ∀ minimum, outcome.minimumEnergy? = some minimum →
      (∃ count later, outcome.energyDistribution = ((levelOf minimum : K) * energyResolution, count) :: later ∧
        count = (outcome.groundStates.countP fun s => ¬ PastMiddle (levelOf minimum) s.cachedEnergy) ∧
        (outcome.groundStates.length ≤ count ↔
          ∀ s ∈ outcome.groundStates, ¬ PastMiddle (levelOf minimum) s.cachedEnergy)) ∧
      ∀ s ∈ outcome.groundStates, levelOf s.cachedEnergy =
        if PastMiddle (levelOf minimum) s.cachedEnergy then levelOf minimum + 1 else levelOf minimum := by
  obtain ⟨counted, spec, distribution⟩ := outcome.energyDistribution_eq
  refine ⟨?_, ?_, fun _ _ => mem_energyDistribution_iff, fun s listed => abs_levelOf_sub_le (held s listed), ?_⟩
  · rw [distribution, List.map_map, List.pairwise_map]
    refine spec.increasing.imp fun below => ?_
    exact mul_lt_mul_of_pos_right (Int.cast_lt.mpr below) energyResolution_pos
  · rw [distribution, List.map_map]
    refine spec.total.trans ?_
    rw [levels, List.length_map, size]
  · intro minimum least
    obtain ⟨later, listed⟩ := energyDistribution_head held least
    refine ⟨⟨_, later, listed, rfl, ?_⟩, fun s ground => levelOf_groundState held least ground⟩
    have all := List.countP_eq_length (p := fun s : Surface g => decide ¬ PastMiddle (levelOf minimum) s.cachedEnergy)
      (l := outcome.groundStates)
    rw [← List.countP_le_length.ge_iff_eq] at all
    simpa only [decide_eq_true_eq] using all

/-- Two sites close together and a third far away from both, not quite as far from the second. -/
def Geometry.pairAndFar : Geometry ℚ where
  size := 3
  sites := #v[⟨⟨0, 0, 0⟩, .normal⟩, ⟨⟨1, 0, 0⟩, .normal⟩, ⟨⟨122, 0, 0⟩, .normal⟩]
  params := .standard
  distances := #v[#v[0, 0.384, 46.848], #v[0.384, 0, 46.464], #v[46.848, 46.464, 0]]
  potentials := #v[#v[0, 0.5, 0.00000047], #v[0.5, 0, 0.00000051], #v[0.00000047, 0.00000051, 0]]

/-- The electron that one of the close sites lacks is missing at either of them. -/
def Outcome.pairAndFar : Outcome Geometry.pairAndFar where
  engine := .exhaustive
  configurations := [#v[.negative, .neutral, .negative], #v[.neutral, .negative, .negative]].map (Surface.fresh _)
  status := .complete
  runtime := 0

theorem Outcome.pairAndFar_sound : pairAndFar.Sound := by
  have valid : ∀ s ∈ pairAndFar.configurations, (∀ i : Fin 3, s.charges[i] ∈ Charge.ofBase 3) ∧
      (Surface.fresh Geometry.pairAndFar s.charges).PhysicallyValid := by decide +kernel
  refine ⟨by decide +kernel, valid, by decide +kernel, List.forall_mem_map.mpr fun charges _ => ?_⟩
  rw [Surface.fresh_eq_charged]
  exact Surface.charged_accurate _ charges

open Outcome in
/-- The first of the two ground states is at the lowest level, and the second is past the middle. -/
theorem groundStates_by_level_pairAndFar :
    (∀ s ∈ pairAndFar.configurations, LevelHeld s.cachedEnergy) ∧ pairAndFar.minimumEnergy? = some 0.00000047 ∧
      (pairAndFar.energyDistribution.map (·.2)).sum = 2 ∧
      ∃ count later, pairAndFar.energyDistribution = ((levelOf (0.00000047 : ℚ) : ℚ) * energyResolution, count) :: later ∧
        ¬ pairAndFar.groundStates.length ≤ count := by
  have held : ∀ s ∈ pairAndFar.configurations, LevelHeld s.cachedEnergy := by decide +kernel
  have least : pairAndFar.minimumEnergy? = some 0.00000047 := by decide +kernel
  obtain ⟨_, total, _, _, lowest⟩ := groundStates_by_level pairAndFar held
  obtain ⟨⟨count, later, listed, _, fewer⟩, _⟩ := lowest _ least
  refine ⟨held, least, total, count, later, listed, fewer.not.mpr ?_⟩
  decide +kernel

/-- Two ground states that are closer to each other than the resolution are listed at two levels, and the
    lowest level counts only one of them. -/
theorem close_energies_split :
    Outcome.pairAndFar.Sound ∧ Outcome.pairAndFar.isComplete = true ∧
      Outcome.pairAndFar.groundStates.map (·.cachedEnergy) = [0.00000047, 0.00000051] ∧
      Outcome.pairAndFar.energyDistribution = [(0, 1), (0.000001, 1)] :=
  ⟨Outcome.pairAndFar_sound, rfl, by decide +kernel, by decide +kernel⟩

end DanglingBond
