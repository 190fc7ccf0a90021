import Mathlib
import DanglingBond.Proofs.Gate.Acceptance
import DanglingBond.Proofs.Search.GroundState
import DanglingBond.Proofs.Stability.Row
import DanglingBond.Random.ChaCha

/-!
What the verdict on a gate means. Under an input pattern a layout works when no site can be positive,
some assignment is valid, and every ground state computes the tables (`Works`). This mentions no search,
and the verdict of every exact engine comes down to it: a layout is operational when it works under all
patterns, and the judging stops at the first pattern under which it does not (`assess_verdict`).
-/

namespace DanglingBond

theorem InputPatterns.setAll_sites_ne_nil {layout : Layout} (occupied : layout.sites ≠ [])
    (inputs : List (BdlPair × Direction)) (number : Nat) : (setAll layout inputs number).sites ≠ [] := by
  induction inputs generalizing layout number with
  | nil => exact occupied
  | cons input inputs ih =>
    refine ih ?_ (number / 2)
    exact Layout.assign_sites_ne_nil _ (by decide)

section

variable {K : Type} [ExactElementary K]

/-- What is left of a layout under an input pattern, with two charges for every site. -/
def OperabilitySettings.instanceOf (settings : OperabilitySettings K) (layout : Layout) (pattern : Nat) : Geometry K :=
  .ofLayout ((InputPatterns.ofLayout settings.spacing layout).apply pattern) { settings.params with base := 2 }

/-- The layout does under an input pattern what the tables say. -/
structure Works (settings : OperabilitySettings K) (layout : Layout) (tables : List TruthTable) (pattern : Nat) :
    Prop where
  noPositive : Checker.standard.canPositiveOccur (settings.instanceOf layout pattern) = false
  stable : ∃ charges, (settings.instanceOf layout pattern).IsValid charges
  computes : ∀ charges, (settings.instanceOf layout pattern).IsGroundState charges →
    Gate.Computes settings.spacing layout tables settings.rejectKinks pattern
      ((settings.instanceOf layout pattern).chargeAt? charges)

variable {σ : Type} [RandomSource σ] {settings : OperabilitySettings K} {layout : Layout} {tables : List TruthTable}

theorem instanceOf_occupied {kind : SiteKind} (pairs : BdlPair.ofLayout settings.spacing layout kind ≠ [])
    (pattern : Nat) : 0 < (settings.instanceOf layout pattern).size := by
  have occupied : layout.sites ≠ [] := by
    obtain ⟨pair, listed⟩ := List.exists_mem_of_ne_nil _ pairs
    obtain ⟨_, upper, _⟩ := BdlPair.mem_ofLayout listed
    rintro nothing
    simp [Layout.coordsOfKind, nothing] at upper
  exact List.length_pos_iff.mpr (InputPatterns.setAll_sites_ne_nil occupied _ pattern)

namespace Gate

/-- A verdict under one pattern is reached without a simulation if some site can be positive, and
    otherwise after one that has not been cut short. -/
theorem assessPattern_cases {environment : Environment σ} {pattern : Nat} {verdict : Assessment}
    (assessed : (described settings.spacing layout tables).assessPattern environment settings pattern = .ok verdict) :
    (settings.instanceOf layout pattern).params.validate = .ok () ∧
      (Checker.standard.canPositiveOccur (settings.instanceOf layout pattern) = true ∧ verdict = ⟨.nonOperational, 0⟩ ∨
        Checker.standard.canPositiveOccur (settings.instanceOf layout pattern) = false ∧
          ∃ outcome, simulate environment settings.selection (settings.instanceOf layout pattern) = .ok outcome ∧
            outcome.status = .complete ∧
            verdict = ⟨if outcome.groundStates ≠ [] ∧ ∀ s ∈ outcome.groundStates,
              (described settings.spacing layout tables).Accepts s.chargeAt? pattern settings.rejectKinks
                then .operational else .nonOperational, 1⟩) := by
  obtain ⟨g, built, assessed⟩ := Except.bind_eq_ok.mp assessed
  obtain ⟨valid, same⟩ := Geometry.ofLayout?_eq_ok_iff.mp (Except.mapError_eq_ok.mp built)
  obtain rfl : settings.instanceOf layout pattern = g := same
  refine ⟨valid, ?_⟩
  simp only at assessed
  split at assessed
  · rename_i positive
    exact .inl ⟨positive, (Except.ok.inj assessed).symm⟩
  rename_i negative
  obtain ⟨outcome, searched, assessed⟩ := Except.bind_eq_ok.mp assessed
  split at assessed
  · contradiction
  rename_i uncut
  refine .inr ⟨by simpa using negative, outcome, searched, ?_, (Except.ok.inj assessed).symm⟩
  cases status : outcome.status with
  | complete => rfl
  | timedOut => exact absurd status uncut

theorem assessPattern_spec {environment : Environment σ} (exact : settings.selection.engine ≠ .growth)
    (distinct : layout.Distinct) (outputs : BdlPair.ofLayout settings.spacing layout .output ≠ []) {pattern : Nat}
    {verdict : Assessment}
    (assessed : (described settings.spacing layout tables).assessPattern environment settings pattern = .ok verdict) :
    (verdict.status = .operational ↔ Works settings layout tables pattern) ∧
      verdict.invocations =
        if Checker.standard.canPositiveOccur (settings.instanceOf layout pattern) then 0 else 1 := by
  obtain ⟨valid, ⟨positive, rfl⟩ | ⟨negative, outcome, searched, complete, rfl⟩⟩ := assessPattern_cases assessed
  · refine ⟨⟨nofun, fun works => ?_⟩, by rw [if_pos positive]⟩
    exact absurd (works.noPositive.symm.trans positive) (by decide)
  · obtain ⟨sound, exhausts⟩ := simulate_sound exact (Geometry.ofLayout_repulsive _ valid) valid
      (instanceOf_occupied outputs pattern) searched
    have accepted : (outcome.groundStates ≠ [] ∧ ∀ s ∈ outcome.groundStates,
        (described settings.spacing layout tables).Accepts s.chargeAt? pattern settings.rejectKinks) ↔
          Works settings layout tables pattern := by
      simp only [accepts_iff distinct]
      have stable := Outcome.groundStates_ne_nil_iff sound (exhausts complete)
      have computes := Outcome.forall_groundStates_iff sound (exhausts complete) (P := fun charges =>
        Computes settings.spacing layout tables settings.rejectKinks pattern
          ((settings.instanceOf layout pattern).chargeAt? charges))
      constructor
      · rintro ⟨something, all⟩
        exact ⟨negative, stable.mp something, computes.mp all⟩
      · exact fun works => ⟨stable.mpr works.stable, computes.mpr works.computes⟩
    refine ⟨?_, by simp [negative]⟩
    rw [← accepted]
    simp only
    split <;> simp_all

/-- From a pattern on either the layout works under all patterns that are left, or the judging ends at the
    first under which it does not. -/
theorem assessAll_spec {environment : Nat → Environment σ} (exact : settings.selection.engine ≠ .growth)
    (distinct : layout.Distinct) (outputs : BdlPair.ofLayout settings.spacing layout .output ≠ []) (start count : Nat)
    {assessment : Assessment}
    (judged : (described settings.spacing layout tables).assessAll environment settings
      (List.range' start count) start = .ok assessment) :
    assessment = ⟨.operational, start + count⟩ ∧
        (∀ pattern, start ≤ pattern → pattern < start + count → Works settings layout tables pattern) ∨
      ∃ failed, start ≤ failed ∧ failed < start + count ∧ ¬ Works settings layout tables failed ∧
        (∀ pattern, start ≤ pattern → pattern < failed → Works settings layout tables pattern) ∧
        assessment = ⟨.nonOperational,
          failed + if Checker.standard.canPositiveOccur (settings.instanceOf layout failed) then 0 else 1⟩ := by
  induction count generalizing start with
  | zero =>
    obtain rfl := Except.ok.inj judged
    exact .inl ⟨rfl, fun pattern after before => absurd before (Nat.not_lt.mpr after)⟩
  | succ count ih =>
    rw [List.range'_succ, assessAll] at judged
    obtain ⟨verdict, assessed, judged⟩ := Except.bind_eq_ok.mp judged
    obtain ⟨status, invocations⟩ := assessPattern_spec exact distinct outputs assessed
    split at judged
    · rename_i operational
      have works := status.mp operational
      simp only [invocations, works.noPositive, Bool.false_eq_true, if_false] at judged
      have extend {limit : Nat}
          (rest : ∀ pattern, start + 1 ≤ pattern → pattern < limit → Works settings layout tables pattern) :
          ∀ pattern, start ≤ pattern → pattern < limit → Works settings layout tables pattern := by
        intro pattern after before
        rcases Nat.eq_or_lt_of_le after with rfl | later
        · exact works
        · exact rest pattern later before
      have steps : start + 1 + count = start + (count + 1) := by omega
      rw [← steps]
      rcases ih (start + 1) judged with ⟨rfl, all⟩ | ⟨failed, after, before, fails, earlier, rfl⟩
      · exact .inl ⟨rfl, extend all⟩
      · exact .inr ⟨failed, by omega, before, fails, extend earlier, rfl⟩
    · rename_i refused
      refine .inr ⟨start, le_rfl, by omega, fun works => refused (status.mpr works), ?_, ?_⟩
      · intro pattern after before
        omega
      · rw [← invocations]
        exact (Except.ok.inj judged).symm

theorem assessPattern_total {environment : Environment σ} {pattern : Nat}
    (valid : (settings.instanceOf layout pattern).params.validate = .ok ())
    {outcome : Outcome (settings.instanceOf layout pattern)}
    (searched : simulate environment settings.selection (settings.instanceOf layout pattern) = .ok outcome)
    (complete : outcome.status = .complete) :
    ∃ verdict, (described settings.spacing layout tables).assessPattern environment settings pattern = .ok verdict := by
  have built := Geometry.ofLayout?_eq_ok_iff.mpr ⟨valid, (rfl : _ = settings.instanceOf layout pattern)⟩
  cases positive : Checker.standard.canPositiveOccur (settings.instanceOf layout pattern) with
  | true => exact ⟨_, Except.bind_eq_ok.mpr ⟨_, Except.mapError_eq_ok.mpr built, if_pos positive⟩⟩
  | false =>
    have negative : ¬ Checker.standard.canPositiveOccur (settings.instanceOf layout pattern) = true := by
      simp [positive]
    have uncut : ¬ outcome.status = .timedOut := by simp [complete]
    exact ⟨_, Except.bind_eq_ok.mpr ⟨_, Except.mapError_eq_ok.mpr built,
      (if_neg negative).trans (Except.bind_eq_ok.mpr ⟨outcome, searched, if_neg uncut⟩)⟩⟩

theorem assessAll_total {environment : Nat → Environment σ} {gate : Gate} {patterns : List Nat}
    (all : ∀ pattern ∈ patterns, ∃ verdict, gate.assessPattern (environment pattern) settings pattern = .ok verdict)
    (invocations : Nat) : ∃ assessment, gate.assessAll environment settings patterns invocations = .ok assessment := by
  induction patterns generalizing invocations with
  | nil => exact ⟨_, rfl⟩
  | cons pattern patterns ih =>
    obtain ⟨verdict, assessed⟩ := all pattern List.mem_cons_self
    by_cases operational : verdict.status = .operational
    · obtain ⟨assessment, judged⟩ := ih (fun other later => all other (List.mem_cons_of_mem pattern later))
        (invocations + verdict.invocations)
      exact ⟨assessment, Except.bind_eq_ok.mpr ⟨verdict, assessed, (if_pos operational).trans judged⟩⟩
    · exact ⟨_, Except.bind_eq_ok.mpr ⟨verdict, assessed, if_neg operational⟩⟩

end Gate

/-- Where the tables fit the layout and no simulation fails or is cut short, there is a verdict. -/
theorem assess_total {environment : Nat → Environment σ} {gate : Gate}
    (made : Gate.ofLayout? settings.spacing layout tables = .ok gate)
    (valid : ∀ pattern, (settings.instanceOf layout pattern).params.validate = .ok ())
    (completes : ∀ pattern < gate.patterns.numPatterns, ∃ outcome,
      simulate (environment pattern) settings.selection (settings.instanceOf layout pattern) = .ok outcome ∧
        outcome.status = .complete) :
    ∃ assessment, assess environment settings layout tables = .ok assessment := by
  obtain ⟨rfl, _⟩ := Gate.ofLayout?_eq_ok made
  have total (pattern : Nat)
      (listed : pattern ∈ List.range (Gate.described settings.spacing layout tables).patterns.numPatterns) :
      ∃ verdict, (Gate.described settings.spacing layout tables).assessPattern (environment pattern) settings pattern =
        .ok verdict := by
    obtain ⟨outcome, searched, complete⟩ := completes pattern (List.mem_range.mp listed)
    exact Gate.assessPattern_total (valid pattern) searched complete
  obtain ⟨assessment, judged⟩ := Gate.assessAll_total total 0
  exact ⟨assessment, Except.bind_eq_ok.mpr ⟨_, Except.mapError_eq_ok.mpr made, judged⟩⟩

/-- Whatever exact engine is asked, with whatever settings and clock, a verdict means the same: the layout
    is operational when it works under all patterns, of which there are two to the power of the number of
    input pairs, and then each has been simulated once. Otherwise it stops at the first pattern under which
    the layout does not work, and that pattern is simulated unless some site can be positive. -/
theorem assess_verdict {environment : Nat → Environment σ} (exact : settings.selection.engine ≠ .growth)
    (sites : List Site) {assessment : Assessment}
    (judged : assess environment settings (.ofSites sites) tables = .ok assessment) :
    let layout := Layout.ofSites sites
    let total := 2 ^ (BdlPair.ofLayout settings.spacing layout .input).length
    (assessment.status = .operational ↔ ∀ pattern < total, Works settings layout tables pattern) ∧
      (assessment.status = .operational → assessment.invocations = total) ∧
      (assessment.status = .nonOperational → ∃ failed < total, ¬ Works settings layout tables failed ∧
        (∀ pattern < failed, Works settings layout tables pattern) ∧
        assessment.invocations =
          if Checker.standard.canPositiveOccur (settings.instanceOf layout failed) then failed else failed + 1) := by
  intro layout total
  have distinct : layout.Distinct := Layout.ofSites_distinct sites
  obtain ⟨gate, made, judged⟩ := Except.bind_eq_ok.mp judged
  obtain ⟨rfl, outputs, inputs⟩ := Gate.ofLayout?_eq_ok (Except.mapError_eq_ok.mp made)
  have count : (Gate.described settings.spacing layout tables).patterns.numPatterns = total := by
    have small : min (Gate.described settings.spacing layout tables).patterns.numInputs 63 =
        (Gate.described settings.spacing layout tables).patterns.numInputs :=
      Nat.min_eq_left (Nat.le_trans inputs (by decide))
    rw [InputPatterns.numPatterns, small]
    exact congrArg (2 ^ ·) (List.length_map _)
  rw [count, List.range_eq_range'] at judged
  rcases Gate.assessAll_spec exact distinct outputs 0 total judged with
    ⟨rfl, all⟩ | ⟨failed, _, before, fails, earlier, rfl⟩
  · rw [Nat.zero_add] at all
    refine ⟨⟨fun _ pattern before => ?_, fun _ => rfl⟩, fun _ => Nat.zero_add total, nofun⟩
    exact all pattern (Nat.zero_le _) before
  · rw [Nat.zero_add] at before
    refine ⟨⟨nofun, fun all => absurd (all failed before) fails⟩, nofun, fun _ => ⟨failed, before, fails, ?_, ?_⟩⟩
    · exact fun pattern => earlier pattern (Nat.zero_le _)
    · simp only
      split <;> simp

end

section

/-- The parameters and thresholds for sites a nanometre apart, with little screening. -/
noncomputable def OperabilitySettings.perturbed : OperabilitySettings ℝ where
  params := { Parameters.standard with lambdaTF := 100, muMinus := -0.45, lattice := ⟨1, 1, 1⟩ }
  selection := .exhaustive {}
  rejectKinks := true
  spacing := ⟨1.5, 1.5, ⟨1, 1, 1⟩⟩

/-- An output pair with a perturber to its left. -/
def Layout.perturbed : Layout := .ofSites [⟨⟨0, 0, 0⟩, .normal⟩, ⟨⟨1, 0, 0⟩, .output⟩, ⟨⟨2, 0, 0⟩, .output⟩]

def BdlPair.perturbed : BdlPair := ⟨⟨1, 0, 0⟩, ⟨2, 0, 0⟩, .output⟩

/-- The table without inputs whose value is one. -/
def TruthTable.one : TruthTable := ⟨0, #v[true], by decide⟩

/-- The only instance of the layout, as it has no input. -/
noncomputable def Geometry.perturbed : Geometry ℝ :=
  .ofLayout .perturbed { OperabilitySettings.perturbed.params with base := 2 }

open OperabilitySettings (perturbed)

private theorem perturbed_input : BdlPair.ofLayout perturbed.spacing .perturbed .input = [] := by
  have dots : Layout.perturbed.coordsOfKind .input = [] := by decide
  simp [BdlPair.ofLayout, dots, BdlPair.closeChoices, BdlPair.twoOf, BdlPair.matchUp]

private theorem perturbed_normal : BdlPair.ofLayout perturbed.spacing .perturbed .normal = [] := by
  have dots : Layout.perturbed.coordsOfKind .normal = [⟨0, 0, 0⟩] := by decide
  simp [BdlPair.ofLayout, dots, BdlPair.closeChoices, BdlPair.twoOf, BdlPair.matchUp]

private theorem perturbed_output : BdlPair.ofLayout perturbed.spacing .perturbed .output = [.perturbed] := by
  have dots : Layout.perturbed.coordsOfKind .output = [⟨1, 0, 0⟩, ⟨2, 0, 0⟩] := by decide
  have close : ¬ perturbed.spacing.pairThreshold < Coord.distance perturbed.spacing.lattice ⟨1, 0, 0⟩ ⟨2, 0, 0⟩ := by
    norm_num [perturbed, Coord.distance_row]
  have pair : BdlPair.of .output ⟨1, 0, 0⟩ ⟨2, 0, 0⟩ = .perturbed := by decide
  rw [BdlPair.ofLayout_of_two dots close, pair]

private theorem perturbed_wires :
    BdlWire.ofLayout perturbed.spacing .perturbed .all = [⟨[.perturbed], .undetermined⟩] := by
  simp [BdlWire.ofLayout, BdlWire.pairsOf, perturbed_input, perturbed_normal, perturbed_output, BdlWire.chains,
    BdlWire.chainFrom, BdlWire.next?, BdlWire.ofPairs, Direction.ofPairs]

private theorem perturbed_instance (pattern : Nat) : perturbed.instanceOf .perturbed pattern = .perturbed := by
  simp [OperabilitySettings.instanceOf, InputPatterns.apply, InputPatterns.ofLayout, perturbed_input,
    InputPatterns.setAll, Geometry.perturbed]

private theorem perturbed_validate : Geometry.perturbed.params.validate = .ok () := by
  rw [Parameters.validate_eq_ok_iff]
  refine ⟨?_, ?_, .inl rfl⟩ <;> norm_num [Geometry.perturbed, Geometry.ofLayout, perturbed, Parameters.standard]

private theorem perturbed_coord (i : Fin 3) : (Geometry.perturbed.sites.get i).coord = ⟨i.val, 0, 0⟩ := by
  have placed : ∀ i : Fin 3, (Vector.get (n := 3) Layout.perturbed.sites.toArray.toVector i).coord = ⟨i.val, 0, 0⟩ := by
    decide
  exact placed i

private theorem perturbed_index (i : Fin 3) : Geometry.perturbed.indexOf? ⟨i.val, 0, 0⟩ = some i := by
  have placed : ∀ i : Fin 3, Vector.findFinIdx? (n := 3) (·.coord = ⟨i.val, 0, 0⟩)
      Layout.perturbed.sites.toArray.toVector = some i := by decide +kernel
  exact placed i

private theorem perturbed_row : ∃ near far : ℝ, (0.25 ≤ near ∧ near ≤ 0.26) ∧ (0 ≤ far ∧ far ≤ 0.13) ∧
    Geometry.perturbed.IsRow (0 : Fin 3) (1 : Fin 3) (2 : Fin 3) near far := by
  have epsilonR : Geometry.perturbed.params.epsilonR = 5.6 := rfl
  have lambdaTF : Geometry.perturbed.params.lambdaTF = 100 := rfl
  obtain ⟨permittivity, screening, _⟩ := (Parameters.validate_eq_ok_iff _).mp perturbed_validate
  have near := screenedPotential_bounds permittivity screening one_pos rfl
  have far := screenedPotential_bounds permittivity screening two_pos rfl
  rw [epsilonR, lambdaTF] at near far
  have potential (i j : Fin 3) : Geometry.perturbed.potential i j =
      screenedPotential Geometry.perturbed.params |((i.val - j.val : Int) : ℝ)| := by
    have apart : Coord.distance (⟨1, 1, 1⟩ : Lattice ℝ) ⟨i.val, 0, 0⟩ ⟨j.val, 0, 0⟩ = |((i.val - j.val : Int) : ℝ)| := by
      rw [Coord.distance_row, mul_one]
    refine (Geometry.potential_ofLayout _ _ _ _).trans (congrArg _ (Eq.trans ?_ apart))
    exact congrArg₂ (Coord.distance _) (perturbed_coord i) (perturbed_coord j)
  have reciprocal := (Geometry.ofLayout_repulsive .perturbed perturbed_validate).toReciprocal
  norm_num at near far
  refine ⟨screenedPotential Geometry.perturbed.params 1, screenedPotential Geometry.perturbed.params 2, ?_, ?_,
    reciprocal, ?_, ?_, ?_, ?_, ?_⟩
  · constructor <;> linarith
  · constructor <;> linarith
  · exact (by decide : ∀ i : Fin 3, i = 0 ∨ i = 1 ∨ i = 2)
  · exact (by decide : [(0 : Fin 3), 1, 2].Nodup)
  · exact (potential 0 1).trans (by norm_num)
  · exact (potential 2 1).trans (by norm_num)
  · exact (potential 0 2).trans (by norm_num)

private theorem perturbed_isValid_iff (charges : Vector Charge Geometry.perturbed.size) :
    Geometry.perturbed.IsValid charges ↔
      charges[(0 : Fin 3)] = .negative ∧ charges[(1 : Fin 3)] = .neutral ∧ charges[(2 : Fin 3)] = .negative := by
  obtain ⟨near, far, ⟨low, high⟩, ⟨nonneg, small⟩, row⟩ := perturbed_row
  have muMinus : Geometry.perturbed.params.muMinus = -0.45 := rfl
  refine row.isValid_iff rfl nonneg (by linarith) ?_ ?_ ?_ charges
  · rw [muMinus]
    norm_num at *
    linarith
  · rw [muMinus]
    norm_num at *
    linarith
  · rw [Parameters.muPlus, muMinus]
    norm_num at *
    linarith

private theorem perturbed_noPositive : Checker.standard.canPositiveOccur Geometry.perturbed = false := by
  obtain ⟨near, far, ⟨low, high⟩, ⟨nonneg, small⟩, row⟩ := perturbed_row
  have muMinus : Geometry.perturbed.params.muMinus = -0.45 := rfl
  refine row.canPositiveOccur_eq_false (by linarith) ?_
  rw [Parameters.muPlus, muMinus]
  norm_num at *
  linarith

private theorem perturbed_computes {charges : Vector Charge Geometry.perturbed.size}
    (valid : Geometry.perturbed.IsValid charges) :
    Gate.Computes perturbed.spacing .perturbed [.one] true 0 (Geometry.perturbed.chargeAt? charges) := by
  obtain ⟨_, upper, lower⟩ := (perturbed_isValid_iff charges).mp valid
  have charged (i : Fin 3) : Geometry.perturbed.chargeAt? charges ⟨i.val, 0, 0⟩ = some charges[i] :=
    congrArg (Option.map fun site => charges[site]) (perturbed_index i)
  have encodes : BdlPair.perturbed.Encodes (Geometry.perturbed.chargeAt? charges) .undetermined true :=
    ⟨(charged 2).trans (congrArg some lower), (charged 1).trans (congrArg some upper)⟩
  have carries (picked : BdlPair → Prop) : BdlWire.Carries perturbed.spacing .perturbed
      (Geometry.perturbed.chargeAt? charges) .perturbed picked true := by
    refine ⟨⟨[.perturbed], .undetermined⟩, by simp [perturbed_wires], List.mem_singleton_self _, ?_⟩
    rintro other member _
    rwa [List.mem_singleton.mp member]
  have output (picked : BdlPair → BdlPair → Prop) (index : Nat) (pair : BdlPair) (table : TruthTable)
      (placed : (BdlPair.ofLayout perturbed.spacing .perturbed .output)[index]? = some pair)
      (tabled : [TruthTable.one][index]? = some table) : BdlWire.Carries perturbed.spacing .perturbed
        (Geometry.perturbed.chargeAt? charges) pair (picked pair) (table.bit 0) := by
    rw [perturbed_output] at placed
    cases index with
    | zero =>
      obtain rfl := Option.some.inj placed
      obtain rfl := Option.some.inj tabled
      exact carries _
    | succ => simp at placed
  refine ⟨output fun pair other => other = pair, ?_, fun _ => output fun _ other => other.kind ≠ .input⟩
  simp [perturbed_input]

private theorem perturbed_completes (environment : Environment ChaCha) : ∃ outcome,
    simulate environment perturbed.selection Geometry.perturbed = .ok outcome ∧ outcome.status = .complete := by
  have reciprocal := (Geometry.ofLayout_repulsive .perturbed perturbed_validate).toReciprocal
  obtain ⟨outcome, _, searched, _, _, _, _, uncut, _⟩ :=
    (Exhaustive.search_spec environment {} reciprocal (.inl rfl)).2 (by decide)
  exact ⟨outcome, (simulate_occupied environment perturbed.selection perturbed_validate (by decide)).trans searched,
    uncut.mpr fun _ _ _ _ => rfl⟩

/-- The perturber keeps the electron of the pair away from itself, in the lower dot, so the pair reads
    one. -/
theorem assess_verdict_perturbed :
    assess (fun _ => (⟨Clock.still, ChaCha.ofSeed, 0⟩ : Environment ChaCha)) perturbed .perturbed [.one] =
      .ok ⟨.operational, 1⟩ := by
  have made :
      Gate.ofLayout? perturbed.spacing .perturbed [.one] = .ok (.described perturbed.spacing .perturbed [.one]) := by
    have inputs : (InputPatterns.ofLayout perturbed.spacing .perturbed).numInputs = 0 := by
      simp [InputPatterns.ofLayout, InputPatterns.numInputs, perturbed_input]
    simp [Gate.ofLayout?, TruthTable.commonArity, TruthTable.one, bind, Except.bind, pure, Except.pure, inputs,
      perturbed_output, Gate.described]
  obtain ⟨assessment, judged⟩ := assess_total made (fun _ => perturbed_validate) fun pattern _ => by
    rw [perturbed_instance]
    exact perturbed_completes ⟨Clock.still, ChaCha.ofSeed, 0⟩
  have works : Works perturbed .perturbed [.one] 0 := by
    constructor
    · rw [perturbed_instance]
      exact perturbed_noPositive
    · rw [perturbed_instance]
      exact ⟨(#v[.negative, .neutral, .negative] : Vector Charge 3), (perturbed_isValid_iff _).mpr ⟨rfl, rfl, rfl⟩⟩
    · rw [perturbed_instance]
      exact fun charges ground => perturbed_computes ground.valid
  have total : 2 ^ (BdlPair.ofLayout perturbed.spacing .perturbed .input).length = 1 := by
    rw [perturbed_input]
    rfl
  obtain ⟨operational, invocations, _⟩ := assess_verdict (by decide) _ judged
  have status : assessment.status = .operational := operational.mpr fun pattern before => by
    obtain rfl : pattern = 0 := Nat.lt_one_iff.mp (before.trans_eq total)
    exact works
  have once : assessment.invocations = 1 := (invocations status).trans total
  rw [judged, ← status, ← once]

end

end DanglingBond
