import Mathlib
import DanglingBond.Proofs.Sweep.Accounting

/-!
What a sweep tells. Judging a batch is one task with a step for every cell that was open in it
(`evaluate_told`), so a flood tells of a task for the start cells and of one for each wave after them
(`expand_told`). By the statuses that the cells have in the end, the waves are the layers that lie around the
operational cells of the batch before (`Layers`): the domain that a sweep comes to says all that was told on
the way (`sweep_progress`).
-/

namespace DanglingBond

namespace Reporter

@[simp] theorem report_nil (reporter : Reporter) : reporter.report [] = reporter := by
  simp [report]

@[simp] theorem report_report (reporter : Reporter) (events more : List SweepEvent) :
    (reporter.report events).report more = reporter.report (events ++ more) := by
  cases active : reporter.isActive <;> simp [report, active]

end Reporter

namespace Sweep

/-- What is told within a phase: a task of so many steps, or a word. -/
inductive Item where
  | task (steps : Nat)
  | message (text : String)

namespace Item

/-- A task starts with the number of its steps, takes just as many, and finishes. -/
def events : Item → List SweepEvent
  | task steps => .taskStart steps :: (List.replicate steps .taskStep ++ [.taskFinish])
  | message text => [.message text]

def steps : Item → Nat
  | task steps => steps
  | message _ => 0

theorem count_events (item : Item) : item.events.count .taskStep = item.steps := by
  cases item with
  | task steps => simp [events, Item.steps]
  | message text => simp [events, Item.steps]

end Item

structure Phase where
  name : String
  items : List Item

namespace Phase

def events (phase : Phase) : List SweepEvent :=
  .phaseStart phase.name :: (phase.items.flatMap Item.events ++ [.phaseFinish])

def steps (phase : Phase) : Nat := (phase.items.map Item.steps).sum

theorem count_events (phase : Phase) : phase.events.count .taskStep = phase.steps := by
  simp [events, steps, List.count_flatMap, Function.comp_def, Item.count_events]

/-- Of phases told one after the other, the steps add up. -/
theorem count_flatMap_events (phases : List Phase) :
    (phases.flatMap events).count .taskStep = (phases.map steps).sum := by
  simp [List.count_flatMap, Function.comp_def, count_events]

end Phase

variable {K τ : Type} [Scalar K] {grid : Grid K}

/-- The cells among the given ones that the domain says are operational. -/
def operationalAmong (domain : Domain grid) (cells : Finset Cell) : Finset Cell :=
  cells.filter fun cell => domain.status? cell = some .operational

/-- The cells beside the operational ones of the last batch that were in no batch yet. -/
def layer (domain : Domain grid) (judged last : Finset Cell) : Finset Cell :=
  (operationalAmong domain last).biUnion (fun cell => (grid.neighbours cell).toFinset) \ judged

/-- The layers around the last batch, none of them empty and with nothing beside the last of them. -/
inductive Layers (domain : Domain grid) : Finset Cell → Finset Cell → List (Finset Cell) → Prop where
  | done {judged last : Finset Cell} : layer domain judged last = ∅ → Layers domain judged last []
  | wave {judged last : Finset Cell} {later : List (Finset Cell)} : (layer domain judged last).Nonempty →
    Layers domain (judged ∪ layer domain judged last) (layer domain judged last) later →
    Layers domain judged last (layer domain judged last :: later)

/-- The phases of a sweep that has come to this domain and to these counts, in these waves. -/
def Method.phases {σ : Type} [RandomSource σ] (method : Method σ) (domain : Domain grid) (stats : SweepStats)
    (waves : List (Finset Cell)) : List Phase :=
  let starts := (method.starts grid).toFinset
  match method with
  | gridSearch => [⟨"Grid Search", [.task starts.card]⟩]
  | randomSampling .. => [⟨"Random Sampling", [.task starts.card]⟩]
  | floodFill .. =>
    [⟨"Seeding", [.task starts.card,
        .message s!"{(operationalAmong domain starts).card} of {starts.card} seed points are operational"]⟩,
      ⟨"Expansion", waves.map (.task ·.card) ++
        [.message s!"{waves.length} waves, {stats.unclassified} points not reached"]⟩]

variable {evaluator : Evaluator K (StateT τ (Except (SimulationError K)))}

/-! ## Batches -/

theorem length_batchOf (cells : List Cell) : (batchOf cells).length = cells.toFinset.card := by
  rw [← List.toFinset_card_of_nodup (batchOf_nodup cells)]
  congr 1
  ext cell
  simp

/-- Judging a batch of open cells is one task, with a step for each of them. -/
theorem evaluate_told {sweep after : Sweep grid} {answers : List (Cell × Assessment)} {batch found : List Cell}
    {state last : τ} (accounted : Accounted sweep answers) (inside : ∀ cell ∈ batch, grid.Contains cell)
    (isOpen : ∀ cell ∈ batch, sweep.domain.status? cell = none)
    (judged : (sweep.evaluate evaluator batch).run state = .ok ((found, after), last)) :
    ∃ new, (new.map (·.1)).toFinset = batch.toFinset ∧ new.length = batch.toFinset.card ∧ found = operationalOf new ∧
      Accounted after (answers ++ new) ∧
      (∀ cell, (after.domain.status? cell).isSome ↔ (sweep.domain.status? cell).isSome ∨ cell ∈ batch) ∧
      after.reporter = sweep.reporter.report (Item.task batch.toFinset.card).events := by
  obtain ⟨new, _, cells, rfl, rfl⟩ := evaluate_run_eq_ok_iff.mp judged
  have listed : (openAmong sweep.domain batch).toFinset = batch.toFinset := by
    ext cell
    simpa using isOpen cell
  have counted : new.length = batch.toFinset.card := by
    rw [← listed, List.toFinset_card_of_nodup (openAmong_nodup _ _), ← cells, List.length_map]
  refine ⟨new, cells ▸ listed, counted, rfl, (accounted.report _).taking inside cells,
    isSome_taking_iff (sweep.report _) cells, ?_⟩
  rw [← cells, List.length_map, List.map_const', counted]
  rfl

/-- What answers found operational is what is operational among their cells in the end. -/
theorem Accounted.toFinset_operationalOf {final : Sweep grid} {answers new : List (Cell × Assessment)}
    (books : Accounted final answers) (members : new ⊆ answers) :
    (operationalOf new).toFinset = operationalAmong final.domain (new.map (·.1)).toFinset := by
  ext cell
  simp only [operationalOf, operationalAmong, List.mem_toFinset, List.mem_map, List.mem_filter, decide_eq_true_eq,
    Finset.mem_filter]
  constructor
  · rintro ⟨⟨_, assessment⟩, ⟨member, works⟩, rfl⟩
    exact ⟨⟨_, member, rfl⟩, works ▸ books.status (members member)⟩
  · rintro ⟨⟨⟨_, assessment⟩, member, rfl⟩, works⟩
    exact ⟨_, ⟨member, Option.some.inj ((books.status (members member)).symm.trans works)⟩, rfl⟩

/-- So many of the answers found their cell operational as there are operational cells among theirs. -/
theorem Accounted.length_operationalOf {final : Sweep grid} {answers new : List (Cell × Assessment)}
    (books : Accounted final answers) (part : new.Sublist answers) :
    (operationalOf new).length = (operationalAmong final.domain (new.map (·.1)).toFinset).card := by
  have distinct : (operationalOf new).Nodup :=
    books.distinct.sublist ((List.filter_sublist.trans part).map _)
  rw [← books.toFinset_operationalOf part.subset, List.toFinset_card_of_nodup distinct]

/-- The wave of a frontier is the layer that lies around it in the end: a status stays, and what was judged
    before is all that is not open. -/
theorem Accounted.toFinset_wave {sweep final : Sweep grid} {answers new later : List (Cell × Assessment)}
    (accounted : Accounted sweep (answers ++ new)) (books : Accounted final (answers ++ new ++ later)) :
    (sweep.wave (operationalOf new)).toFinset =
      layer final.domain ((answers ++ new).map (·.1)).toFinset (new.map (·.1)).toFinset := by
  have members : new ⊆ answers ++ new ++ later := fun _ member =>
    List.mem_append_left later (List.mem_append_right answers member)
  rw [layer, ← books.toFinset_operationalOf members]
  ext cell
  have judged := accounted.isSome_iff cell
  simp only [List.mem_toFinset, mem_wave_iff, Finset.mem_sdiff, Finset.mem_biUnion, ← judged, Option.not_isSome_iff_eq_none]

/-! ## Waves -/

/-- Where no cell of the grid is open, there is no wave. -/
theorem wave_eq_nil_of_card {sweep : Sweep grid} {frontier : List Cell} (inside : ∀ cell ∈ frontier, grid.Contains cell)
    (none : (openCells sweep.domain).card = 0) : sweep.wave frontier = [] := by
  refine List.eq_nil_iff_forall_not_mem.mpr fun cell member => ?_
  have isOpen := ((mem_openAmong _).mp member).2
  have listed : cell ∈ openCells sweep.domain :=
    (mem_openCells_iff _ cell).mpr ⟨wave_contained inside _ cell member, by simp [isOpen]⟩
  rw [Finset.card_eq_zero.mp none] at listed
  exact Finset.notMem_empty cell listed

/-- A flood has gone on from a sweep with these answers, of which the last are new, in these layers. -/
structure Expanded (sweep final : Sweep grid) (answers new : List (Cell × Assessment)) (layers : List (Finset Cell)) :
    Prop where
  books : ∃ later, Accounted final (answers ++ new ++ later) ∧ later.length = (layers.map Finset.card).sum
  around : Layers final.domain ((answers ++ new).map (·.1)).toFinset (new.map (·.1)).toFinset layers
  told : final.reporter = sweep.reporter.report (layers.flatMap fun layer => (Item.task layer.card).events)

theorem Expanded.nothing {sweep : Sweep grid} {answers new : List (Cell × Assessment)}
    (accounted : Accounted sweep (answers ++ new)) (nothing : sweep.wave (operationalOf new) = []) :
    Expanded sweep sweep answers new [] := by
  have books : Accounted sweep (answers ++ new ++ []) := by rwa [List.append_nil]
  refine ⟨⟨[], books, rfl⟩, .done ?_, by simp⟩
  rw [← accounted.toFinset_wave books, nothing]
  rfl

/-- A wave closes cells of the grid and is told as a task, and it is the first layer of what comes of it. -/
theorem Expanded.wave {sweep after : Sweep grid} {answers new : List (Cell × Assessment)} {found : List Cell}
    {state next : τ} (accounted : Accounted sweep (answers ++ new)) (something : sweep.wave (operationalOf new) ≠ [])
    (judged : (sweep.evaluate evaluator (sweep.wave (operationalOf new))).run state = .ok ((found, after), next)) :
    ∃ now, found = operationalOf now ∧ Accounted after (answers ++ new ++ now) ∧
      (openCells after.domain).card < (openCells sweep.domain).card ∧
      ∀ final layers, Expanded after final (answers ++ new) now layers →
        Expanded sweep final answers new ((sweep.wave (operationalOf new)).toFinset :: layers) := by
  have inside : ∀ cell ∈ sweep.wave (operationalOf new), grid.Contains cell :=
    wave_contained accounted.operational_contained _
  have isOpen : ∀ cell ∈ sweep.wave (operationalOf new), sweep.domain.status? cell = none := fun _ member =>
    ((mem_openAmong _).mp member).2
  obtain ⟨cell, member⟩ := List.exists_mem_of_ne_nil _ something
  obtain ⟨now, cells, card, rfl, books, classified, told⟩ := evaluate_told accounted inside isOpen judged
  refine ⟨now, rfl, books, card_openCells_lt classified member (inside cell member) (isOpen cell member), ?_⟩
  -- A layer is read off the domain in the end, so the wave is seen to be one after the later answers are in.
  rintro final layers ⟨⟨later, closed, counted⟩, around, toldLater⟩
  rw [List.append_assoc _ now later] at closed
  have wave := accounted.toFinset_wave closed
  refine ⟨⟨now ++ later, closed, ?_⟩, ?_, ?_⟩
  · rw [List.length_append, counted, card, List.map_cons, List.sum_cons]
  · rw [List.map_append, List.toFinset_append, cells, wave] at around
    rw [wave]
    exact .wave (wave ▸ ⟨cell, List.mem_toFinset.mpr member⟩) around
  · rw [toldLater, told, Reporter.report_report, List.flatMap_cons]

/-- Where the bound counts the open cells, it is never what ends the waves: a flood goes on until there is no
    layer left, and counts the layers. -/
theorem expand_told {more waves count : Nat} {sweep final : Sweep grid} {answers new : List (Cell × Assessment)}
    {state last : τ} (accounted : Accounted sweep (answers ++ new)) (enough : (openCells sweep.domain).card ≤ more)
    (ran : (sweep.expand evaluator more waves (operationalOf new)).run state = .ok ((count, final), last)) :
    ∃ layers, Expanded sweep final answers new layers ∧ count = waves + layers.length := by
  induction more generalizing waves sweep answers new state with
  | zero =>
    simp only [expand, StateT.run_pure, Except.pure_eq_ok, Prod.mk.injEq] at ran
    obtain ⟨⟨rfl, rfl⟩, rfl⟩ := ran
    have nothing := wave_eq_nil_of_card accounted.operational_contained (Nat.le_zero.mp enough)
    exact ⟨[], .nothing accounted nothing, rfl⟩
  | succ more ih =>
    by_cases nothing : sweep.wave (operationalOf new) = []
    · simp only [expand, nothing, List.isEmpty_nil, if_true, StateT.run_pure, Except.pure_eq_ok, Prod.mk.injEq] at ran
      obtain ⟨⟨rfl, rfl⟩, rfl⟩ := ran
      exact ⟨[], .nothing accounted nothing, rfl⟩
    · simp only [expand, List.isEmpty_iff, if_neg nothing, StateT.run_bind, Except.bind_eq_ok, Prod.exists] at ran
      obtain ⟨found, after, next, judged, ran⟩ := ran
      obtain ⟨now, rfl, books, fewer, further⟩ := Expanded.wave accounted nothing judged
      obtain ⟨layers, expanded, rfl⟩ := ih books (by omega) ran
      refine ⟨_, further final layers expanded, ?_⟩
      rw [List.length_cons]
      omega

/-! ## Whole runs -/

theorem onePhase_told {name : String} {isActive : Bool} {batch : List Cell} {sweep : Sweep grid} {state last : τ}
    (inside : ∀ cell ∈ batch, grid.Contains cell)
    (ran : (onePhase evaluator grid isActive name batch).run state = .ok (sweep, last)) :
    sweep.evaluated = batch.toFinset.card ∧
      sweep.reporter = ({ isActive } : Reporter).report (Phase.events ⟨name, [.task batch.toFinset.card]⟩) := by
  simp only [onePhase, StateT.run_bind, StateT.run_pure, Except.bind_eq_ok, Except.pure_eq_ok, Prod.exists,
    Prod.mk.injEq] at ran
  obtain ⟨found, after, _, judged, rfl, rfl⟩ := ran
  obtain ⟨new, _, counted, _, books, _, told⟩ :=
    evaluate_told ((Accounted.start isActive).report _) inside (fun _ _ => Domain.status?_empty _) judged
  refine ⟨books.evaluated.trans counted, ?_⟩
  rw [Sweep.report, told, Phase.events, List.flatMap_singleton]
  exact (Reporter.report_report ..).trans (Reporter.report_report ..)

variable {σ : Type} [RandomSource σ]

theorem floodFill_told {isActive : Bool} {seeds : Seeds} {random : σ} {sweep : Sweep grid} {state last : τ}
    (ran : (floodFill evaluator grid isActive seeds random).run state = .ok (sweep, last)) (runtime : Nat) :
    ∃ waves, Layers sweep.domain (startCells grid seeds random).toFinset (startCells grid seeds random).toFinset waves ∧
      sweep.evaluated = (startCells grid seeds random).toFinset.card + (waves.map Finset.card).sum ∧
      sweep.reporter = ({ isActive } : Reporter).report
        (((Method.floodFill seeds random).phases sweep.domain (sweep.stats runtime) waves).flatMap Phase.events) := by
  have accepted : (Method.floodFill seeds random).check grid = .ok () := Method.check_of_run ran
  have inside : ∀ cell ∈ startCells grid seeds random, grid.Contains cell := Method.starts_contained accepted
  simp only [floodFill, StateT.run_bind, StateT.run_pure, Except.bind_eq_ok, Except.pure_eq_ok, Prod.exists,
    Prod.mk.injEq] at ran
  obtain ⟨_, _, _, found, seeded, _, judged, count, expanded, _, ran, rfl, rfl⟩ := ran
  rw [← startCells] at judged ran
  obtain ⟨new, cells, counted, rfl, books, _, told⟩ :=
    evaluate_told ((Accounted.start isActive).report _) inside (fun _ _ => Domain.status?_empty _) judged
  obtain ⟨waves, ⟨⟨later, closed, countedLater⟩, around, toldLater⟩, rfl⟩ :=
    expand_told (books.report _) (card_openCells_le _) ran
  rw [List.nil_append] at closed around
  have working := closed.length_operationalOf (List.sublist_append_left new later)
  rw [cells] at around working
  refine ⟨waves, around, ?_, ?_⟩
  · exact closed.evaluated.trans (by rw [List.length_append, counted, countedLater])
  · simp only [Sweep.report, start, toldLater, told, Reporter.report_report, Method.phases, Method.starts, stats, working,
      length_batchOf, Phase.events, List.flatMap_cons, List.flatMap_nil, List.flatMap_append, List.flatMap_map]
    simp [Item.events]

/-- Every way over the grid tells of its phases, of which only the flood has one with waves. -/
theorem Method.run_told {method : Method σ} {isActive : Bool} {sweep : Sweep grid} {state last : τ}
    (ran : (method.run evaluator grid isActive).run state = .ok (sweep, last)) (runtime : Nat) :
    ∃ waves, (method.spreads = true →
        Layers sweep.domain (method.starts grid).toFinset (method.starts grid).toFinset waves) ∧
      (method.spreads = false → waves = []) ∧
      sweep.evaluated = (method.starts grid).toFinset.card + (waves.map Finset.card).sum ∧
      sweep.reporter = ({ isActive } : Reporter).report
        ((method.phases sweep.domain (sweep.stats runtime) waves).flatMap Phase.events) := by
  have inside := Method.starts_contained (Method.check_of_run ran)
  cases method with
  | gridSearch =>
    obtain ⟨evaluated, told⟩ := onePhase_told inside ran
    exact ⟨[], nofun, fun _ => rfl, evaluated, by rw [told, Method.phases, List.flatMap_singleton]⟩
  | randomSampling samples random =>
    obtain ⟨evaluated, told⟩ := onePhase_told inside ran
    exact ⟨[], nofun, fun _ => rfl, evaluated, by rw [told, Method.phases, List.flatMap_singleton]⟩
  | floodFill seeds random =>
    obtain ⟨waves, layers, evaluated, told⟩ := floodFill_told ran runtime
    exact ⟨waves, fun _ => layers, nofun, evaluated, told⟩

/-- The tasks of the phases have a step for each start cell and for each cell of the waves. -/
theorem Method.sum_steps_phases {method : Method σ} {waves : List (Finset Cell)}
    (still : method.spreads = false → waves = []) (domain : Domain grid) (stats : SweepStats) :
    ((method.phases domain stats waves).map Phase.steps).sum =
      (method.starts grid).toFinset.card + (waves.map Finset.card).sum := by
  cases method with
  | gridSearch => simp [Method.phases, Phase.steps, Item.steps, still rfl]
  | randomSampling samples random => simp [Method.phases, Phase.steps, Item.steps, still rfl]
  | floodFill seeds random => simp [Method.phases, Phase.steps, Item.steps, Function.comp_def]

theorem Layers.nonempty {domain : Domain grid} {judged last : Finset Cell} {waves : List (Finset Cell)}
    (layers : Layers domain judged last waves) : ∀ wave ∈ waves, wave.Nonempty := by
  induction layers with
  | done _ => exact nofun
  | wave something _ ih => exact List.forall_mem_cons.mpr ⟨something, ih⟩

end Sweep

open Sweep in
/-- A sweep that succeeds has told of its phases and nothing else. Every task of them has as many steps as it
    was announced with. A flood has told of one task for each of its waves, which are the layers around the
    operational cells that come one after the other until there is none, so that no task of theirs is empty.
    There are as many steps in all as cells were judged. -/
theorem sweep_progress {K σ τ : Type} [Scalar K] [RandomSource σ]
    (evaluator : Evaluator K (StateT τ (Except (SimulationError K)))) (grid : Grid K) (method : Method σ) (state : τ)
    (sweep : Sweep grid) (last : τ) (ran : (method.run evaluator grid true).run state = .ok (sweep, last)) (runtime : Nat) :
    ∃ waves, sweep.reporter.events = (method.phases sweep.domain (sweep.stats runtime) waves).flatMap Phase.events ∧
      (method.spreads = true → (∀ wave ∈ waves, wave.Nonempty) ∧
        Layers sweep.domain (method.starts grid).toFinset (method.starts grid).toFinset waves) ∧
      sweep.reporter.events.count .taskStep = (sweep.stats runtime).evaluated := by
  obtain ⟨waves, layers, still, evaluated, told⟩ := Method.run_told ran runtime
  have events : sweep.reporter.events =
      (method.phases sweep.domain (sweep.stats runtime) waves).flatMap Phase.events := by
    rw [told]
    rfl
  refine ⟨waves, events, fun spreads => ⟨(layers spreads).nonempty, layers spreads⟩, ?_⟩
  rw [events, Phase.count_flatMap_events, Method.sum_steps_phases still]
  exact evaluated.symm

open Sweep in
/-- A flood from the first cell of the row goes out in two waves, of a cell each, and then has one cell
    left. -/
theorem sweep_progress_row :
    ∃ sweep, ((Method.floodFill { given := [⟨0, 0⟩] } (ChaCha.ofSeed 0)).run .remembering Grid.row true).run [] =
        .ok (sweep, [1, 2, 3]) ∧
      sweep.reporter.events =
        (Phase.mk "Seeding" [.task 1, .message "1 of 1 seed points are operational"]).events ++
          (Phase.mk "Expansion" [.task 1, .task 1, .message "2 waves, 1 points not reached"]).events ∧
      sweep.reporter.events.count .taskStep = 3 := by
  let flood := ((Method.floodFill { given := [⟨0, 0⟩] } (ChaCha.ofSeed 0)).run .remembering Grid.row true).run []
  have evaluated : flood.toOption.map (fun done => (done.2, done.1.stats 0, done.1.reporter.events)) =
      some ([1, 2, 3], ⟨6, 3, 2, 1, 1, 4, 0⟩,
        (Phase.mk "Seeding" [.task 1, .message "1 of 1 seed points are operational"]).events ++
          (Phase.mk "Expansion" [.task 1, .task 1, .message "2 waves, 1 points not reached"]).events) := by
    decide +kernel
  obtain ⟨⟨sweep, last⟩, ran, told⟩ := Option.map_eq_some_iff.mp evaluated
  simp only [Prod.mk.injEq] at told
  obtain ⟨rfl, stats, events⟩ := told
  have done := Except.toOption_eq_some_iff.mp ran
  obtain ⟨_, _, _, counted⟩ := sweep_progress _ _ _ _ sweep _ done 0
  exact ⟨sweep, done, events, by rw [counted, stats]⟩

end DanglingBond
