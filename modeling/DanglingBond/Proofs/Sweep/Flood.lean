import Mathlib
import DanglingBond.Proofs.Scalar.Exact
import DanglingBond.Proofs.Sweep.Evaluation
import DanglingBond.Random.ChaCha

/-!
Flood fill as a closure. Waves go out from the cells last found operational until no open cell lies
beside them (`Spreads`); every wave classifies a cell of the grid, so the bound on their number is never
what ends them (`expand_spreads`). What a wave keeps is `Flooded`: classified cells are seeds or lie
beside reached ones, and an operational cell has open cells beside it only while it is in the frontier.
Where no wave is left, the classified cells are the seeds and all cells beside the reached ones
(`floodFill_exact`).
-/

namespace DanglingBond

namespace Sweep

variable {K : Type} [Scalar K] {grid : Grid K}

/-- The cells at which a flood starts: those drawn at random and those given. -/
def startCells {σ : Type} [RandomSource σ] (grid : Grid K) (seeds : Seeds) (random : σ) : List Cell :=
  grid.drawCells seeds.drawn random ++ seeds.given

/-- The cell lies in the grid, and the evaluator finds it operational. -/
def Operational (evaluator : Evaluator K) (grid : Grid K) (cell : Cell) : Prop :=
  grid.Contains cell ∧ statusAt? evaluator grid cell = some .operational

/-- A path of adjacent operational cells leads to the cell from an operational one among the starts. -/
def Reached (evaluator : Evaluator K) (grid : Grid K) (starts : List Cell) (cell : Cell) : Prop :=
  ∃ start ∈ starts, Operational evaluator grid start ∧
    Relation.ReflTransGen (fun source target => source.Adjacent target ∧ Operational evaluator grid target) start cell

theorem Reached.operational {evaluator : Evaluator K} {starts : List Cell} {cell : Cell}
    (reached : Reached evaluator grid starts cell) : Operational evaluator grid cell := by
  obtain ⟨start, _, operational, path⟩ := reached
  cases path with
  | refl => exact operational
  | tail _ step => exact step.2

theorem Reached.step {evaluator : Evaluator K} {starts : List Cell} {source target : Cell}
    (reached : Reached evaluator grid starts source) (adjacent : source.Adjacent target)
    (operational : Operational evaluator grid target) : Reached evaluator grid starts target := by
  obtain ⟨start, member, first, path⟩ := reached
  exact ⟨start, member, first, path.tail ⟨adjacent, operational⟩⟩

theorem mem_wave_iff (sweep : Sweep grid) (frontier : List Cell) (cell : Cell) :
    cell ∈ sweep.wave frontier ↔
      (∃ source ∈ frontier, cell ∈ grid.neighbours source) ∧ sweep.domain.status? cell = none := by
  simp [wave]

/-- The cells of the grid that are not classified yet. -/
noncomputable def openCells (domain : Domain grid) : Finset Cell :=
  grid.cells.toFinset.filter fun cell => domain.status? cell = none

theorem mem_openCells_iff (domain : Domain grid) (cell : Cell) :
    cell ∈ openCells domain ↔ grid.Contains cell ∧ ¬ (domain.status? cell).isSome := by
  simp [openCells, grid.mem_cells_iff]

theorem card_openCells_le (domain : Domain grid) : (openCells domain).card ≤ grid.numPoints := by
  rw [← grid.length_cells]
  exact (Finset.card_filter_le _ _).trans grid.cells.toFinset_card_le

/-- A batch with an open cell of the grid leaves fewer of them. -/
theorem card_openCells_lt {domain after : Domain grid} {batch : List Cell}
    (classified : ∀ cell, (after.status? cell).isSome ↔ (domain.status? cell).isSome ∨ cell ∈ batch) {cell : Cell}
    (member : cell ∈ batch) (inside : grid.Contains cell) (isOpen : domain.status? cell = none) :
    (openCells after).card < (openCells domain).card := by
  apply Finset.card_lt_card
  refine (Finset.ssubset_iff_of_subset ?_).mpr ⟨cell, ?_, ?_⟩
  · intro other unknown
    simp only [mem_openCells_iff, classified, not_or] at unknown ⊢
    exact ⟨unknown.1, unknown.2.1⟩
  · exact (mem_openCells_iff domain cell).mpr ⟨inside, by simp [isOpen]⟩
  · simp [mem_openCells_iff, classified, member]

/-- Waves without a bound on their number: they go out until there is nothing open beside the
    frontier. -/
inductive Spreads (evaluator : Evaluator K) : List Cell → Sweep grid → Nat → Sweep grid → Prop where
  | done {frontier : List Cell} {sweep : Sweep grid} : sweep.wave frontier = [] → Spreads evaluator frontier sweep 0 sweep
  | wave {frontier found : List Cell} {sweep after final : Sweep grid} {waves : Nat} :
    sweep.wave frontier ≠ [] → sweep.evaluate evaluator (sweep.wave frontier) = .ok (found, after) →
    Spreads evaluator found after waves final → Spreads evaluator frontier sweep (waves + 1) final

/-- What every wave keeps. -/
structure Flooded (evaluator : Evaluator K) (starts frontier : List Cell) (sweep : Sweep grid) : Prop where
  truthful : ∀ cell status, sweep.domain.status? cell = some status →
    grid.Contains cell ∧ statusAt? evaluator grid cell = some status
  started : ∀ cell ∈ starts, (sweep.domain.status? cell).isSome
  connected : ∀ cell, (sweep.domain.status? cell).isSome →
    cell ∈ starts ∨ ∃ source, Reached evaluator grid starts source ∧ source.Adjacent cell
  working : ∀ cell ∈ frontier, sweep.domain.status? cell = some .operational
  closed : ∀ cell, sweep.domain.status? cell = some .operational →
    cell ∈ frontier ∨ ∀ neighbour ∈ grid.neighbours cell, (sweep.domain.status? neighbour).isSome

section
variable {evaluator : Evaluator K} {starts frontier : List Cell} {sweep : Sweep grid}

theorem Flooded.reached (flooded : Flooded evaluator starts frontier sweep) {cell : Cell}
    (status : sweep.domain.status? cell = some .operational) : Reached evaluator grid starts cell := by
  have operational : Operational evaluator grid cell := flooded.truthful cell _ status
  rcases flooded.connected cell (by rw [status]; rfl) with start | ⟨source, reached, adjacent⟩
  · exact ⟨cell, start, operational, .refl⟩
  · exact reached.step adjacent operational

theorem Flooded.wave_contained (flooded : Flooded evaluator starts frontier sweep) {cell : Cell}
    (member : cell ∈ sweep.wave frontier) :
    grid.Contains cell ∧ ∃ source, Reached evaluator grid starts source ∧ source.Adjacent cell := by
  obtain ⟨⟨source, inFrontier, beside⟩, _⟩ := (sweep.mem_wave_iff frontier cell).mp member
  have reached := flooded.reached (flooded.working source inFrontier)
  obtain ⟨inside, adjacent⟩ := (grid.mem_neighbours_iff reached.operational.1 cell).mp beside
  exact ⟨inside, source, reached, adjacent⟩

/-- What a sweep tells does not touch its classification. -/
theorem Flooded.report (flooded : Flooded evaluator starts frontier sweep) (events : List SweepEvent) :
    Flooded evaluator starts frontier (sweep.report events) :=
  ⟨flooded.truthful, flooded.started, flooded.connected, flooded.working, flooded.closed⟩

/-- Whatever batch is judged, cells that were classified keep their status. -/
theorem Evaluated.isSome_iff {batch found : List Cell} {after : Sweep grid}
    (evaluated : Evaluated evaluator sweep batch found after)
    (answers : ∀ cell ∈ batch, (statusAt? evaluator grid cell).isSome) (cell : Cell) :
    (after.domain.status? cell).isSome ↔ (sweep.domain.status? cell).isSome ∨ cell ∈ batch := by
  rw [evaluated.status, Option.isSome_or, Bool.or_eq_true]
  by_cases member : cell ∈ batch
  · simp [member, answers cell member]
  · simp [member]

theorem Evaluated.operational_iff {batch found : List Cell} {after : Sweep grid}
    (evaluated : Evaluated evaluator sweep batch found after) (cell : Cell) :
    after.domain.status? cell = some .operational ↔ sweep.domain.status? cell = some .operational ∨ cell ∈ found := by
  rw [evaluated.status, evaluated.found, Option.or_eq_some_iff]
  by_cases member : cell ∈ batch
  · simp [member]
  · simp [member]

variable (total : ∀ cell, grid.Contains cell → ∃ assessment, evaluator (grid.parametersAt cell) = .ok assessment)

include total in
theorem answers_of_contained {batch : List Cell} (inside : ∀ cell ∈ batch, grid.Contains cell) :
    ∀ cell ∈ batch, (statusAt? evaluator grid cell).isSome := by
  intro cell member
  obtain ⟨assessment, answer⟩ := total cell (inside cell member)
  rw [statusAt?_of_answer answer]
  rfl

include total in
/-- The start cells are what is flooded first. -/
theorem flooded_starts {found : List Cell} {after : Sweep grid}
    (nothing : ∀ cell, sweep.domain.status? cell = none) (inside : ∀ cell ∈ starts, grid.Contains cell)
    (judged : sweep.evaluate evaluator starts = .ok (found, after)) : Flooded evaluator starts found after := by
  have evaluated := evaluate_spec judged
  have classified (cell : Cell) : (after.domain.status? cell).isSome ↔ cell ∈ starts := by
    rw [evaluated.isSome_iff (answers_of_contained total inside), nothing]
    simp
  have operational (cell : Cell) : after.domain.status? cell = some .operational ↔ cell ∈ found := by
    rw [evaluated.operational_iff, nothing]
    simp
  refine ⟨?_, fun cell => (classified cell).mpr, fun cell known => .inl ((classified cell).mp known),
    fun cell => (operational cell).mpr, fun cell known => .inl ((operational cell).mp known)⟩
  intro cell status known
  rw [evaluated.status, nothing, Option.none_or] at known
  by_cases member : cell ∈ starts
  · rw [if_pos member] at known
    exact ⟨inside cell member, known⟩
  · rw [if_neg member] at known
    contradiction

include total in
/-- One wave: the cells it finds operational are the next frontier, and all cells beside the last one
    are classified now. -/
theorem Flooded.wave (flooded : Flooded evaluator starts frontier sweep) {found : List Cell} {after : Sweep grid}
    (judged : sweep.evaluate evaluator (sweep.wave frontier) = .ok (found, after)) :
    Flooded evaluator starts found after := by
  have evaluated := evaluate_spec judged
  have inside : ∀ cell ∈ sweep.wave frontier, grid.Contains cell := fun cell member => (flooded.wave_contained member).1
  have classified := evaluated.isSome_iff (answers_of_contained total inside)
  refine ⟨?_, ?_, ?_, ?_, ?_⟩
  · intro cell status known
    rw [evaluated.status, Option.or_eq_some_iff] at known
    rcases known with before | ⟨_, now⟩
    · exact flooded.truthful cell status before
    · by_cases member : cell ∈ sweep.wave frontier
      · rw [if_pos member] at now
        exact ⟨inside cell member, now⟩
      · rw [if_neg member] at now
        contradiction
  · intro cell start
    exact (classified cell).mpr (.inl (flooded.started cell start))
  · intro cell known
    rcases (classified cell).mp known with before | member
    · exact flooded.connected cell before
    · exact .inr (flooded.wave_contained member).2
  · intro cell member
    exact (evaluated.operational_iff cell).mpr (.inr member)
  · intro cell operational
    rcases (evaluated.operational_iff cell).mp operational with before | new
    · right
      intro neighbour beside
      rw [classified]
      rcases flooded.closed cell before with inFrontier | settled
      · by_cases known : (sweep.domain.status? neighbour).isSome
        · exact .inl known
        · exact .inr ((sweep.mem_wave_iff frontier neighbour).mpr ⟨⟨cell, inFrontier, beside⟩, by simpa using known⟩)
      · exact .inl (settled neighbour beside)
    · exact .inl new

include total in
theorem Spreads.flooded {waves : Nat} {final : Sweep grid} (spreads : Spreads evaluator frontier sweep waves final)
    (flooded : Flooded evaluator starts frontier sweep) :
    ∃ last, Flooded evaluator starts last final ∧ final.wave last = [] := by
  induction spreads with
  | done nothing => exact ⟨_, flooded, nothing⟩
  | wave _ judged _ ih => exact ih (flooded.wave total judged)

/-- Where no wave is left, the classification is that of the closure. -/
theorem Flooded.settled (flooded : Flooded evaluator starts frontier sweep) (nothing : sweep.wave frontier = []) (cell : Cell) :
    (sweep.domain.status? cell = some .operational ↔ Reached evaluator grid starts cell) ∧
      ((sweep.domain.status? cell).isSome ↔ grid.Contains cell ∧
        (cell ∈ starts ∨ ∃ source, Reached evaluator grid starts source ∧ source.Adjacent cell)) := by
  have closed {source target : Cell} (operational : sweep.domain.status? source = some .operational)
      (beside : target ∈ grid.neighbours source) : (sweep.domain.status? target).isSome := by
    rcases flooded.closed source operational with inFrontier | settled
    · by_contra unknown
      have member := (sweep.mem_wave_iff frontier target).mpr ⟨⟨source, inFrontier, beside⟩, by simpa using unknown⟩
      rw [nothing] at member
      exact List.not_mem_nil member
    · exact settled target beside
  have known {target : Cell} (classified : (sweep.domain.status? target).isSome)
      (operational : Operational evaluator grid target) : sweep.domain.status? target = some .operational := by
    obtain ⟨status, found⟩ := Option.isSome_iff_exists.mp classified
    have same := (flooded.truthful target status found).2.symm.trans operational.2
    rw [found, same]
  have complete {target : Cell} (reached : Reached evaluator grid starts target) :
      sweep.domain.status? target = some .operational := by
    obtain ⟨start, member, first, path⟩ := reached
    induction path with
    | refl => exact known (flooded.started start member) first
    | @tail source target path step ih =>
      have inside : grid.Contains source := (flooded.truthful source _ ih).1
      exact known (closed ih ((grid.mem_neighbours_iff inside target).mpr ⟨step.2.1, step.1⟩)) step.2
  refine ⟨⟨flooded.reached, complete⟩, ?_, ?_⟩
  · intro classified
    obtain ⟨status, found⟩ := Option.isSome_iff_exists.mp classified
    exact ⟨(flooded.truthful cell status found).1, flooded.connected cell classified⟩
  · rintro ⟨inside, start | ⟨source, reached, adjacent⟩⟩
    · exact flooded.started cell start
    · exact closed (complete reached) ((grid.mem_neighbours_iff reached.operational.1 cell).mpr ⟨inside, adjacent⟩)

include total in
theorem Flooded.openCells_lt (flooded : Flooded evaluator starts frontier sweep) (something : sweep.wave frontier ≠ [])
    {found : List Cell} {after : Sweep grid}
    (judged : sweep.evaluate evaluator (sweep.wave frontier) = .ok (found, after)) :
    (openCells after.domain).card < (openCells sweep.domain).card := by
  have inside : ∀ cell ∈ sweep.wave frontier, grid.Contains cell := fun cell member => (flooded.wave_contained member).1
  obtain ⟨cell, member⟩ := List.exists_mem_of_ne_nil _ something
  exact card_openCells_lt ((evaluate_spec judged).isSome_iff (answers_of_contained total inside)) member (inside cell member)
    ((sweep.mem_wave_iff frontier cell).mp member).2

include total in
/-- A bound on the number of waves that is not below the number of open cells does not cut them off. -/
theorem expand_spreads (more start : Nat) (flooded : Flooded evaluator starts frontier sweep)
    (enough : (openCells sweep.domain).card ≤ more) :
    ∃ waves final, sweep.expand evaluator more start frontier = .ok (start + waves, final) ∧
      Spreads evaluator frontier sweep waves final := by
  induction more generalizing start frontier sweep with
  | zero =>
    have nothing : sweep.wave frontier = [] := by
      by_contra something
      obtain ⟨cell, member⟩ := List.exists_mem_of_ne_nil _ something
      have unknown := ((sweep.mem_wave_iff frontier cell).mp member).2
      have inside := (flooded.wave_contained member).1
      have isOpen : cell ∈ openCells sweep.domain := (mem_openCells_iff _ cell).mpr ⟨inside, by simp [unknown]⟩
      exact absurd (Finset.card_pos.mpr ⟨cell, isOpen⟩) (by omega)
    exact ⟨0, sweep, rfl, .done nothing⟩
  | succ more ih =>
    by_cases nothing : sweep.wave frontier = []
    · exact ⟨0, sweep, by simp [expand, nothing], .done nothing⟩
    · obtain ⟨found, after, judged⟩ := evaluate_total
        (fun cell member => total cell (flooded.wave_contained member).1) sweep
      have fewer := flooded.openCells_lt total nothing judged
      obtain ⟨waves, final, expanded, spreads⟩ := ih (start + 1) (flooded.wave total judged) (by omega)
      refine ⟨waves + 1, final, ?_, .wave nothing judged spreads⟩
      have shifted : start + (waves + 1) = start + 1 + waves := by omega
      rw [expand, shifted, ← expanded]
      simp [nothing, judged, bind, Except.bind]

end

theorem checkSeeds_eq_ok_iff (grid : Grid K) (seeds : Seeds) :
    checkSeeds grid seeds = .ok () ↔
      (∀ cell ∈ seeds.given, grid.Contains cell) ∧ (seeds.given ≠ [] ∨ seeds.drawn ≠ 0) := by
  unfold checkSeeds
  cases outside : seeds.given.find? fun cell => ¬ grid.Contains cell with
  | some cell =>
    have found := List.find?_some outside
    simp only [decide_eq_true_eq] at found
    simp only [reduceCtorEq, false_iff, not_and]
    intro inside
    exact absurd (inside cell (List.mem_of_find?_eq_some outside)) found
  | none =>
    simp only [List.find?_eq_none, decide_eq_true_eq, not_not] at outside
    by_cases missing : seeds.given.isEmpty ∧ seeds.drawn = 0
    · simp_all
    · simp only [if_neg missing, true_iff]
      refine ⟨outside, ?_⟩
      simpa [← not_and_or] using missing

theorem startCells_contained {σ : Type} [RandomSource σ] {seeds : Seeds} (inside : ∀ cell ∈ seeds.given, grid.Contains cell)
    (random : σ) : ∀ cell ∈ startCells grid seeds random, grid.Contains cell := by
  intro cell member
  rcases List.mem_append.mp member with drawn | given
  · exact grid.drawCells_contained _ random cell drawn
  · exact inside cell given

theorem startCells_ne_nil {σ : Type} [RandomSource σ] {seeds : Seeds} (something : seeds.given ≠ [] ∨ seeds.drawn ≠ 0)
    (random : σ) : startCells grid seeds random ≠ [] := by
  intro nothing
  obtain ⟨noneDrawn, noneGiven⟩ := List.append_eq_nil_iff.mp nothing
  have count := grid.length_drawCells seeds.drawn random
  rw [noneDrawn] at count
  rcases something with given | drawn
  · exact given noneGiven
  · exact drawn count.symm

/-- Seeds are accepted when they name at least one cell and all of those they name lie in the grid. -/
theorem checkSeeds_of_startCells {σ : Type} [RandomSource σ] {seeds : Seeds} {random : σ}
    (inside : ∀ cell ∈ startCells grid seeds random, grid.Contains cell) (something : startCells grid seeds random ≠ []) :
    checkSeeds grid seeds = .ok () := by
  refine (checkSeeds_eq_ok_iff grid seeds).mpr ⟨fun cell given => inside cell (List.mem_append_right _ given), ?_⟩
  by_contra nothing
  obtain ⟨noneGiven, noneDrawn⟩ := not_or.mp nothing
  apply something
  rw [startCells, not_not.mp noneGiven, not_not.mp noneDrawn]
  rfl

/-- A flood depends on its start cells only as a set. -/
theorem floodFill_congr {σ τ : Type} [RandomSource σ] [RandomSource τ] (evaluator : Evaluator K) (isActive : Bool)
    {seeds otherSeeds : Seeds} {random : σ} {otherRandom : τ} (accepted : checkSeeds grid seeds = .ok ())
    (otherAccepted : checkSeeds grid otherSeeds = .ok ())
    (same : ∀ cell, cell ∈ startCells grid seeds random ↔ cell ∈ startCells grid otherSeeds otherRandom) :
    floodFill evaluator grid isActive seeds random = floodFill evaluator grid isActive otherSeeds otherRandom := by
  have batch := batchOf_congr same
  have judged (sweep : Sweep grid) : sweep.evaluate evaluator (startCells grid seeds random) =
      sweep.evaluate evaluator (startCells grid otherSeeds otherRandom) := by
    simp only [evaluate, openAmong_congr sweep.domain same]
  simp only [startCells] at batch judged
  simp only [floodFill, accepted, otherAccepted, batch, judged]

section
variable {evaluator : Evaluator K}
  (total : ∀ cell, grid.Contains cell → ∃ assessment, evaluator (grid.parametersAt cell) = .ok assessment)

include total in
theorem floodFill_settles {σ : Type} [RandomSource σ] (isActive : Bool) {seeds : Seeds} (random : σ)
    (accepted : checkSeeds grid seeds = .ok ()) :
    ∃ sweep frontier, floodFill evaluator grid isActive seeds random = .ok sweep ∧
      Flooded evaluator (startCells grid seeds random) frontier sweep ∧ sweep.wave frontier = [] := by
  have inside := startCells_contained ((checkSeeds_eq_ok_iff grid seeds).mp accepted).1 random
  obtain ⟨found, seeded, judged⟩ := evaluate_total (fun cell member => total cell (inside cell member))
    ((start grid isActive).report [.phaseStart "Seeding"])
  have flooded := flooded_starts total Domain.status?_empty inside judged
  have told := flooded.report
    [.message s!"{found.length} of {(batchOf (startCells grid seeds random)).length} seed points are operational",
      .phaseFinish, .phaseStart "Expansion"]
  obtain ⟨waves, expanded, ran, spreads⟩ := expand_spreads total grid.numPoints 0 told (card_openCells_le _)
  obtain ⟨frontier, last, nothing⟩ := spreads.flooded total told
  refine ⟨expanded.report [.message s!"{0 + waves} waves, {grid.numPoints - expanded.domain.size} points not reached",
    .phaseFinish], frontier, ?_, last.report _, nothing⟩
  simp only [startCells] at judged ran
  simp only [floodFill, accepted, judged, ran, bind, Except.bind, Except.mapError]
  rfl

include total in
/-- The grid search gives every cell of the grid the status of the evaluator. -/
theorem gridSearch_spec (isActive : Bool) :
    ∃ sweep, gridSearch evaluator grid isActive = .ok sweep ∧
      ∀ cell, grid.Contains cell → sweep.domain.status? cell = statusAt? evaluator grid cell := by
  obtain ⟨found, after, judged⟩ := evaluate_total (fun cell member => total cell ((grid.mem_cells_iff cell).mp member))
    ((start grid isActive).report [.phaseStart "Grid Search"])
  refine ⟨after.report [.phaseFinish], ?_, ?_⟩
  · simp only [gridSearch, onePhase, judged, bind, Except.bind]
    rfl
  · intro cell inside
    refine ((evaluate_spec judged).status cell).trans ?_
    rw [if_pos ((grid.mem_cells_iff cell).mpr inside)]
    exact Option.none_or

end

end Sweep

open Sweep in
/-- Flood fill ends, and its domain is the closure of its start cells: it classifies the start cells and
    the cells of the grid beside reached ones, gives each the status of the evaluator, as the grid search
    does, and its operational cells are the reached ones. Only which cells it starts from matters, not
    their order, their number or where they come from. The counts of the grid are taken to fit a machine
    word, which they do where `Grid.numPoints?` gives one. -/
theorem floodFill_exact {K σ : Type} [Scalar K] [RandomSource σ] (evaluator : Evaluator K) (grid : Grid K)
    (isActive : Bool) (seeds : Seeds) (random : σ)
    (total : ∀ cell, grid.Contains cell → ∃ assessment, evaluator (grid.parametersAt cell) = .ok assessment)
    (inside : ∀ cell ∈ seeds.given, grid.Contains cell) (something : seeds.given ≠ [] ∨ seeds.drawn ≠ 0) :
    ∃ sweep, floodFill evaluator grid isActive seeds random = .ok sweep ∧
      (∀ cell, (sweep.domain.status? cell).isSome ↔ grid.Contains cell ∧
        (cell ∈ startCells grid seeds random ∨
          ∃ source, Reached evaluator grid (startCells grid seeds random) source ∧ source.Adjacent cell)) ∧
      (∀ cell status, sweep.domain.status? cell = some status → statusAt? evaluator grid cell = some status) ∧
      (∀ cell, sweep.domain.status? cell = some .operational ↔
        Reached evaluator grid (startCells grid seeds random) cell) ∧
      (∃ full, gridSearch evaluator grid isActive = .ok full ∧
        ∀ cell status, sweep.domain.status? cell = some status → full.domain.status? cell = some status) ∧
      ∀ {τ : Type} [RandomSource τ] (otherSeeds : Seeds) (otherRandom : τ),
        (∀ cell, cell ∈ startCells grid seeds random ↔ cell ∈ startCells grid otherSeeds otherRandom) →
          floodFill evaluator grid isActive otherSeeds otherRandom = .ok sweep := by
  have accepted := (checkSeeds_eq_ok_iff grid seeds).mpr ⟨inside, something⟩
  obtain ⟨sweep, frontier, filled, flooded, nothing⟩ := floodFill_settles total isActive random accepted
  obtain ⟨full, searched, statuses⟩ := gridSearch_spec total isActive
  refine ⟨sweep, filled, fun cell => (flooded.settled nothing cell).2,
    fun cell status known => (flooded.truthful cell status known).2, fun cell => (flooded.settled nothing cell).1,
    ⟨full, searched, ?_⟩, ?_⟩
  · intro cell status known
    obtain ⟨contained, given⟩ := flooded.truthful cell status known
    exact (statuses cell contained).trans given
  · intro τ _ otherSeeds otherRandom same
    have otherInside : ∀ cell ∈ startCells grid otherSeeds otherRandom, grid.Contains cell :=
      fun cell member => startCells_contained inside random cell ((same cell).mpr member)
    have otherSomething : startCells grid otherSeeds otherRandom ≠ [] := by
      obtain ⟨cell, member⟩ := List.exists_mem_of_ne_nil (startCells grid seeds random) (startCells_ne_nil something random)
      exact List.ne_nil_of_mem ((same cell).mp member)
    rw [← filled]
    exact (floodFill_congr evaluator isActive accepted (checkSeeds_of_startCells otherInside otherSomething) same).symm

/-- Four cells in a row, with permittivities from one to four. -/
def Grid.row : Grid ℚ := ⟨.standard, ⟨.epsilonR, 1, 4, 1⟩, ⟨.muMinus, 0, 0, 1⟩⟩

/-- Finds every permittivity operational but three. -/
def Evaluator.exceptThree : Evaluator ℚ := fun params =>
  .ok ⟨if params.epsilonR = 3 then .nonOperational else .operational, 1⟩

open Sweep in
/-- From the first cell of the row the flood reaches the second and stops at the third, so that the
    fourth is never classified. -/
theorem floodFill_exact_row :
    ∃ sweep, floodFill .exceptThree .row true { given := [⟨0, 0⟩] } (ChaCha.ofSeed 0) = .ok sweep ∧
      sweep.domain.status? ⟨1, 0⟩ = some .operational ∧ sweep.domain.status? ⟨2, 0⟩ = some .nonOperational ∧
      sweep.domain.status? ⟨3, 0⟩ = none ∧
      floodFill .exceptThree .row true { given := [⟨0, 0⟩, ⟨0, 0⟩] } (ChaCha.ofSeed 1) = .ok sweep := by
  have inside : ∀ cell ∈ [(⟨0, 0⟩ : Cell)], Grid.row.Contains cell := by decide +kernel
  obtain ⟨sweep, filled, classified, truthful, operational, _, unique⟩ := floodFill_exact .exceptThree .row true
    { given := [⟨0, 0⟩] } (ChaCha.ofSeed 0) (fun _ _ => ⟨_, rfl⟩) inside (.inl (by decide))
  have first : Operational .exceptThree .row ⟨0, 0⟩ := ⟨by decide +kernel, by decide +kernel⟩
  have next : Operational .exceptThree .row ⟨1, 0⟩ := ⟨by decide +kernel, by decide +kernel⟩
  have second : Reached .exceptThree .row (startCells .row { given := [⟨0, 0⟩] } (ChaCha.ofSeed 0)) ⟨1, 0⟩ :=
    ⟨⟨0, 0⟩, by decide, first, .single ⟨.inl ⟨rfl, .inl rfl⟩, next⟩⟩
  refine ⟨sweep, filled, (operational _).mpr second, ?_, ?_, ?_⟩
  · obtain ⟨status, known⟩ := Option.isSome_iff_exists.mp
      ((classified ⟨2, 0⟩).mpr ⟨by decide +kernel, .inr ⟨_, second, .inl ⟨rfl, .inl rfl⟩⟩⟩)
    rw [known, ← truthful _ _ known]
    decide +kernel
  · rw [← Option.not_isSome_iff_eq_none, classified]
    rintro ⟨_, start | ⟨⟨x, y⟩, reached, adjacent⟩⟩
    · exact absurd start (by decide)
    · have width : Grid.row.width = 4 := by decide +kernel
      have height : Grid.row.height = 1 := by decide +kernel
      obtain ⟨⟨left, below⟩, status⟩ := reached.operational
      simp only [width, height, Cell.Adjacent] at left below adjacent
      obtain rfl : x = 2 := by omega
      obtain rfl : y = 0 := by omega
      exact absurd status (by decide +kernel)
  · exact unique _ _ fun cell => by simp [startCells, Grid.drawCells]

end DanglingBond
