import Mathlib
import DanglingBond.Proofs.Search.Exhaustive
import DanglingBond.Proofs.Stability.Apart

/-!
The exhaustive search that runs out of time. It stops after the first step at which the clock shows the
limit to be reached, and the assignment to which that step leads is judged no more. What is found are the
valid ones among the judged, whose indices are those below their number; the number of visited assignments
that is told is greater by one (`exhaustive_interrupted`). So a valid assignment with an index below the
told number can be missing (`overstated_missing`).
-/

namespace DanglingBond

namespace Exhaustive

variable {K σ : Type} [ExactScalar K] {g : Geometry K}

/-- A search that runs out of time has judged the assignments below the first step at which the clock told so.
    It finds the valid ones among them, and tells one more than it has judged. -/
theorem search_interrupted (environment : Environment σ) (settings : ExhaustiveSettings) (reciprocal : g.Reciprocal)
    (base : g.params.base = 2 ∨ g.params.base = 3) {outcome : Outcome g}
    (searched : search environment settings g = .ok outcome) (cut : outcome.status = .timedOut) :
    ∃ codec judged, Codec.uniform g.size g.params.base = .ok codec ∧ judgedBy environment settings g codec = judged ∧
      judged.map (·.chargeIndex codec) = (List.range judged.length).map .ok ∧
      (∀ charges, charges ∈ outcome.configurations.map (·.charges) ↔
        g.IsValid charges ∧ ∃ i < judged.length, codec.encode charges.toList = .ok i) ∧
      IsLeast {steps | 0 < steps ∧ Polled steps ∧ expiredAt environment settings steps = true} judged.length ∧
      outcome.details["visited_configurations"]? = some (toString (judged.length + 1)) := by
  have small : g.params.base ^ g.size < wordLimit := by
    by_contra large
    have refused := (search_spec environment settings reciprocal base).1 (Nat.not_lt.mp large)
    cases refused.symm.trans searched
  obtain ⟨codec, walk, visited, uniform, radices, result, same, found, walked⟩ :=
    search_walk environment settings reciprocal base small
  obtain rfl := Except.ok.inj (result.symm.trans searched)
  have index {charges : Vector Charge g.size} (fits : Codec.Fits codec.radices charges.toList) :
      codec.encode charges.toList = .ok (Codec.number codec.radices charges.toList) := by
    have below := Codec.number_lt_prod fits
    rw [radices, List.prod_replicate, ← radices] at below
    exact codec.encode_eq fits (below.trans small)
  obtain ⟨_, _, listed⟩ := walked_sound base radices walked found (environment.clock .finish)
  -- The clock ended the walk, so the number of its steps is both what was visited and what was looked at.
  obtain ⟨complete, _⟩ | ⟨_, _, positive, counted, polled, expired⟩ := walked.ending
  · exact absurd (complete.symm.trans cut) (by decide)
  rw [Nat.zero_add] at counted
  refine ⟨codec, _, uniform, same, ?_, fun charges => ?_, ?_, ?_⟩
  · have numbers := congrArg (List.map (Except.ok (ε := CodecError))) walked.numbers
    rw [List.length_map, List.range_eq_range', ← numbers, List.map_map, List.map_map]
    refine List.map_congr_left fun charges visit => ?_
    rw [Function.comp_apply, Function.comp_apply, Surface.chargeIndex, Surface.states, Surface.fresh_charges,
      index (walked.fits charges visit)]
  · refine (listed charges).trans (and_congr_right fun valid => ?_)
    have fits := (uses_base_iff (by omega) charges).mp valid.1
    rw [← radices] at fits
    simp [index fits]
  · rw [List.length_map, counted]
    refine ⟨⟨positive, polled, expired⟩, ?_⟩
    rintro steps ⟨later, polled, expired⟩
    refine not_lt.mp fun before => ?_
    have quiet := walked.quiet steps later (by omega) polled
    exact Bool.false_ne_true (quiet.symm.trans expired)
  · rw [List.length_map, counted]
    exact Std.TreeMap.getElem?_insert_self

end Exhaustive

/-- Only a search can run out of time. -/
theorem simulate_interrupted {K σ : Type} [ExactScalar K] [RandomSource σ] {environment : Environment σ}
    {settings : ExhaustiveSettings} {g : Geometry K} {outcome : Outcome g}
    (simulated : simulate environment (.exhaustive settings) g = .ok outcome) (cut : outcome.status = .timedOut) :
    g.params.validate = .ok () ∧ Exhaustive.search environment settings g = .ok outcome := by
  have valid := validate_of_simulate simulated
  by_cases occupied : g.size = 0
  · obtain rfl := Except.ok.inj ((simulate_empty valid occupied).symm.trans simulated)
    cases (cut : SearchStatus.complete = .timedOut)
  · exact ⟨valid, (simulate_occupied environment (.exhaustive settings) valid occupied).symm.trans simulated⟩

section

/-- The first two columns are neighbours, and the other nine are far from them and from each other. -/
def scatteredColumn (i : Fin 11) : Int := if i = 0 then 1 else 100000000 * (i.val - 1)

def Layout.scattered : Layout := .ofCoords ((List.finRange 11).map fun i => ⟨scatteredColumn i, 0, 0⟩)

/-- The standard parameters, with no positive charges. -/
noncomputable def Parameters.binary : Parameters ℝ := { Parameters.standard with base := 2 }

theorem Parameters.binary_valid : Parameters.binary.validate = .ok () := by
  rw [validate_eq_ok_iff]
  refine ⟨?_, ?_, .inl rfl⟩ <;> norm_num [binary, standard]

noncomputable def Geometry.scattered : Geometry ℝ := .ofLayout .scattered .binary

private theorem scattered_coord (i : Fin 11) :
    (Geometry.scattered.sites.get i).coord = ⟨scatteredColumn i, 0, 0⟩ := by
  have placed : ∀ i : Fin 11, (Vector.get (n := 11) Layout.scattered.sites.toArray.toVector i).coord =
      ⟨scatteredColumn i, 0, 0⟩ := by decide
  exact placed i

/-- Sites that are at least 99999999 columns apart hardly act on each other. -/
private theorem faint_of_far {columns : ℝ} (far : 99999999 ≤ |columns|) :
    screenedPotential Parameters.binary |columns * 0.384| ≤ 7e-9 := by
  have permittivity : Parameters.binary.epsilonR = 5.6 := rfl
  have distance : 38000000 ≤ |columns * 0.384| := by
    rw [abs_mul, abs_of_pos (by norm_num : (0 : ℝ) < 0.384)]
    linarith
  obtain ⟨epsilonR, lambdaTF, _⟩ := (Parameters.validate_eq_ok_iff _).mp Parameters.binary_valid
  have bare := (screenedPotential_bounds epsilonR lambdaTF (by linarith : 0 < |columns * 0.384|) rfl).2
  refine bare.trans ?_
  rw [permittivity, div_div, div_mul_eq_mul_div, div_le_iff₀ (by positivity)]
  norm_num
  linarith

private theorem scattered_pair :
    ∃ near : ℝ, (0.61 ≤ near ∧ near ≤ 0.68) ∧ Geometry.scattered.IsPairApart (0 : Fin 11) (1 : Fin 11) near 7e-9 := by
  have permittivity : Parameters.binary.epsilonR = 5.6 := rfl
  have screening : Parameters.binary.lambdaTF = 5.0 := rfl
  obtain ⟨epsilonR, lambdaTF, _⟩ := (Parameters.validate_eq_ok_iff _).mp Parameters.binary_valid
  have potential (i j : Fin 11) : Geometry.scattered.potential i j =
      screenedPotential Parameters.binary |((scatteredColumn i - scatteredColumn j : Int) : ℝ) * 0.384| := by
    refine (Geometry.potential_ofLayout _ _ _ _).trans (congrArg _ (Eq.trans ?_ (Coord.distance_row .silicon _ _ 0 0)))
    exact congrArg₂ (Coord.distance _) (scattered_coord i) (scattered_coord j)
  have repulsive := Geometry.ofLayout_repulsive .scattered Parameters.binary_valid
  have near := screenedPotential_bounds epsilonR lambdaTF (by norm_num : (0 : ℝ) < 0.384) rfl
  rw [permittivity, screening] at near
  norm_num at near
  refine ⟨screenedPotential Parameters.binary 0.384, ⟨?_, ?_⟩, repulsive, Fin.zero_ne_one, ?_, ?_, ?_⟩
  · norm_num
    linarith
  · norm_num
    linarith
  · exact (potential 0 1).trans (by norm_num [scatteredColumn])
  · norm_num
    linarith
  · have apart : ∀ i j : Fin 11, ¬ (i = 0 ∧ j = 1) → ¬ (i = 1 ∧ j = 0) → i = j ∨
        99999999 ≤ |scatteredColumn i - scatteredColumn j| := by decide +kernel
    intro i j forth back
    obtain rfl | far := apart i j forth back
    · exact (repulsive.self i).trans_le (by norm_num)
    · exact (potential i j).trans_le (faint_of_far (by exact_mod_cast far))

private theorem first_poll {steps : Nat} (least : IsLeast {steps | 0 < steps ∧ Exhaustive.Polled steps ∧
    Exhaustive.expiredAt (⟨Clock.still, ChaCha.ofSeed, 0⟩ : Environment ChaCha) ⟨some 0⟩ steps = true} steps) :
    steps = 1024 := by
  refine least.unique ⟨⟨by decide, rfl, rfl⟩, ?_⟩
  rintro later ⟨positive, polled, _⟩
  exact Nat.le_of_dvd positive (Nat.dvd_of_mod_eq_zero polled)

private theorem scattered_cut : ∃ outcome, simulateLayout (⟨Clock.still, ChaCha.ofSeed, 0⟩ : Environment ChaCha)
    (.exhaustive ⟨some 0⟩) .scattered .binary = .ok outcome ∧ outcome.status = .timedOut := by
  have repulsive := Geometry.ofLayout_repulsive .scattered Parameters.binary_valid
  obtain ⟨outcome, _, searched, _, _, _, _, complete, _⟩ :=
    (Exhaustive.search_spec (⟨Clock.still, ChaCha.ofSeed, 0⟩ : Environment ChaCha) ⟨some 0⟩ repulsive.toReciprocal
      (.inl rfl)).2 (by decide)
  refine ⟨outcome, (simulate_occupied _ _ Parameters.binary_valid (by decide)).trans searched, ?_⟩
  cases status : outcome.status with
  | complete => exact absurd (complete.mp status 1024 (by decide) (by decide) rfl) (by decide)
  | timedOut => rfl

end

section
variable {K σ : Type} [ExactElementary K] [RandomSource σ]

/-- An exhaustive search of a layout that runs out of time stops at the first step at which the clock is looked
    at and the limit is reached. It has judged the assignments whose indices are less than that step, and what
    it returns are exactly the valid ones among them. The number that it tells of visited assignments counts
    one more. -/
theorem exhaustive_interrupted {environment : Environment σ} {settings : ExhaustiveSettings} {layout : Layout}
    {params : Parameters K} {outcome : Outcome (Geometry.ofLayout layout params)}
    (simulated : simulateLayout environment (.exhaustive settings) layout params = .ok outcome)
    (cut : outcome.status = .timedOut) :
    ∃ codec judged, Codec.uniform layout.size params.base = .ok codec ∧
      Exhaustive.judgedBy environment settings (Geometry.ofLayout layout params) codec = judged ∧
      judged.map (·.chargeIndex codec) = (List.range judged.length).map .ok ∧
      (∀ charges, charges ∈ outcome.configurations.map (·.charges) ↔
        (Geometry.ofLayout layout params).IsValid charges ∧ ∃ i < judged.length, codec.encode charges.toList = .ok i) ∧
      IsLeast {steps | 0 < steps ∧ Exhaustive.Polled steps ∧ Exhaustive.expiredAt environment settings steps = true}
        judged.length ∧
      outcome.details["visited_configurations"]? = some (toString (judged.length + 1)) := by
  obtain ⟨valid, searched⟩ := simulate_interrupted simulated cut
  have reciprocal := (Geometry.ofLayout_repulsive layout valid).toReciprocal
  have base := (params.validate_eq_ok_iff.mp valid).2.2
  exact Exhaustive.search_interrupted environment settings reciprocal base searched cut

end

section

/-- Where no time is allowed the search of eleven sites stops when it first looks at the clock. It has judged 1024
    assignments of 2048, and tells 1025. -/
theorem exhaustive_interrupted_scattered :
    ∃ outcome codec, simulateLayout (⟨Clock.still, ChaCha.ofSeed, 0⟩ : Environment ChaCha) (.exhaustive ⟨some 0⟩)
        .scattered .binary = .ok outcome ∧ outcome.status = .timedOut ∧
      Codec.uniform Layout.scattered.size 2 = .ok codec ∧
      (∀ charges, charges ∈ outcome.configurations.map (·.charges) ↔
        Geometry.scattered.IsValid charges ∧ ∃ i < 1024, codec.encode charges.toList = .ok i) ∧
      outcome.details["visited_configurations"]? = some "1025" := by
  obtain ⟨outcome, simulated, cut⟩ := scattered_cut
  obtain ⟨codec, judged, uniform, _, _, listed, least, told⟩ := exhaustive_interrupted simulated cut
  have length := first_poll least
  rw [length] at listed told
  exact ⟨outcome, codec, simulated, cut, uniform, listed, told⟩

/-- The first assignment that is not judged is valid, and its index is less than the number that is told. -/
theorem overstated_missing :
    ∃ outcome codec, simulateLayout (⟨Clock.still, ChaCha.ofSeed, 0⟩ : Environment ChaCha) (.exhaustive ⟨some 0⟩)
        .scattered .binary = .ok outcome ∧ outcome.status = .timedOut ∧
      outcome.details["visited_configurations"]? = some "1025" ∧ Codec.uniform Layout.scattered.size 2 = .ok codec ∧
      ∃ charges, Geometry.scattered.IsValid charges ∧ codec.encode charges.toList = .ok 1024 ∧
        charges ∉ outcome.configurations.map (·.charges) := by
  obtain ⟨outcome, simulated, cut⟩ := scattered_cut
  obtain ⟨_, searched⟩ := simulate_interrupted simulated cut
  have repulsive := Geometry.ofLayout_repulsive .scattered Parameters.binary_valid
  obtain ⟨codec, judged, uniform, _, _, listed, least, told⟩ :=
    Exhaustive.search_interrupted _ _ repulsive.toReciprocal (.inl rfl) searched cut
  have length := first_poll least
  rw [length] at listed told
  -- The assignment at which the walk stopped has the second site drive the first one neutral.
  obtain ⟨near, ⟨low, high⟩, pair⟩ := scattered_pair
  have muMinus : Geometry.scattered.params.muMinus = -0.32 := rfl
  have size : Geometry.scattered.size = 11 := rfl
  have index : codec.encode ((Vector.replicate 11 Charge.negative).put 0 .neutral).toList = .ok 1024 := by
    have encoded : (Codec.uniform 11 2 >>= fun codec =>
        codec.encode ((Vector.replicate 11 Charge.negative).put 0 .neutral).toList) = .ok 1024 := by decide +kernel
    obtain ⟨same, made, encoded⟩ := Except.bind_eq_ok.mp encoded
    obtain rfl : same = codec := Except.ok.inj (made.symm.trans uniform)
    exact encoded
  refine ⟨outcome, codec, simulated, cut, told, uniform, _, pair.isValid ?_ ?_ ?_ ?_, index, fun member => ?_⟩
  · rw [size]
    norm_num
  · rw [muMinus]
    norm_num
  · rw [muMinus]
    norm_num at *
    linarith
  · rw [Parameters.muPlus, muMinus]
    norm_num at *
    linarith
  · obtain ⟨_, i, below, encoded⟩ := (listed _).mp member
    exact below.ne (Except.ok.inj (encoded.symm.trans index))

end

end DanglingBond
