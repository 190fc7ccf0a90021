import Mathlib
import DanglingBond.Proofs.Sweep.Flood

/-!
The books of a sweep, for an evaluator that may remember what it was asked and may fail. A sweep asks for
cells one after the other (`Asked`), and what it holds is what the answers so far say of different cells of
the grid (`Accounted`); judging a batch keeps the books in order (`evaluate_accounted`), and so does every
run (`Method.accounted_of_run`), also where the evaluator remembers nothing (`Method.run_memoryless`). A run is
always the rest of what it does from the batch it has come to (`Turns.remainder`), so it fails where the
evaluator fails on that batch, and never takes back what it held before.
-/

namespace DanglingBond

namespace Sweep

/-- The ways to sweep a grid, each with what it is told. -/
inductive Method (σ : Type) where
  | gridSearch
  | randomSampling (samples : Nat) (random : σ)
  | floodFill (seeds : Seeds) (random : σ)

namespace Method

variable {K σ : Type} [Scalar K] [RandomSource σ]

def run {m : Type → Type} [Monad m] [MonadLiftT (Except (SimulationError K)) m] (method : Method σ)
    (evaluator : Evaluator K m) (grid : Grid K) (isActive : Bool) : m (Sweep grid) :=
  match method with
  | gridSearch => Sweep.gridSearch evaluator grid isActive
  | randomSampling samples random => Sweep.randomSampling evaluator grid isActive samples random
  | floodFill seeds random => Sweep.floodFill evaluator grid isActive seeds random

/-- Only seeds can be refused. -/
def check (method : Method σ) (grid : Grid K) : Except (SettingsError K) Unit :=
  match method with
  | gridSearch | randomSampling .. => .ok ()
  | floodFill seeds _ => checkSeeds grid seeds

/-- The batch that is judged first. -/
def starts (method : Method σ) (grid : Grid K) : List Cell :=
  match method with
  | gridSearch => grid.cells
  | randomSampling samples random => grid.drawCells samples random
  | floodFill seeds random => startCells grid seeds random

/-- Whether waves go out from the cells found operational. -/
def spreads : Method σ → Bool
  | gridSearch | randomSampling .. => false
  | floodFill .. => true

theorem starts_contained {method : Method σ} {grid : Grid K} (accepted : method.check grid = .ok ()) :
    ∀ cell ∈ method.starts grid, grid.Contains cell := by
  cases method with
  | gridSearch => exact fun cell => (grid.mem_cells_iff cell).mp
  | randomSampling samples random => exact grid.drawCells_contained samples random
  | floodFill seeds random => exact startCells_contained ((checkSeeds_eq_ok_iff grid seeds).mp accepted).1 random

end Method

variable {K τ : Type} [Scalar K] {grid : Grid K}

/-- The evaluator, asked for the cells of these answers one after the other, gives them, and so comes from
    the first state to the last. -/
inductive Asked (evaluator : Evaluator K (StateT τ (Except (SimulationError K)))) (grid : Grid K) :
    τ → List (Cell × Assessment) → τ → Prop where
  | nothing {state : τ} : Asked evaluator grid state [] state
  | call {state next last : τ} {cell : Cell} {assessment : Assessment} {later : List (Cell × Assessment)} :
    (evaluator (grid.parametersAt cell)).run state = .ok (assessment, next) → Asked evaluator grid next later last →
    Asked evaluator grid state ((cell, assessment) :: later) last

/-- The classification that answers come to. -/
def classification (grid : Grid K) (answers : List (Cell × Assessment)) : Domain grid := Domain.recordAll {} answers

/-- The sweep holds what the answers say, which are for different cells of the grid. -/
structure Accounted (sweep : Sweep grid) (answers : List (Cell × Assessment)) : Prop where
  distinct : (answers.map (·.1)).Nodup
  contained : ∀ cell ∈ answers.map (·.1), grid.Contains cell
  domain : sweep.domain = classification grid answers
  evaluated : sweep.evaluated = answers.length
  invocations : sweep.invocations = (answers.map (·.2.invocations)).sum

/-- The open cells beside those that the last answers found operational. -/
def waveAfter (grid : Grid K) (answers new : List (Cell × Assessment)) : List Cell :=
  openAmong (classification grid (answers ++ new)) ((operationalOf new).flatMap grid.neighbours)

/-- A sweep turns to a batch, after some answers and with the evaluator in some state: first to where it
    starts, and where it spreads, to wave after wave as long as there is any. -/
inductive Turns {σ : Type} [RandomSource σ] (evaluator : Evaluator K (StateT τ (Except (SimulationError K))))
    (grid : Grid K) (method : Method σ) (state : τ) : List (Cell × Assessment) → List Cell → τ → Prop where
  | first : method.check grid = .ok () → Turns evaluator grid method state [] (method.starts grid) state
  | wave {answers new : List (Cell × Assessment)} {batch : List Cell} {before after : τ} :
    method.spreads = true → Turns evaluator grid method state answers batch before →
    Asked evaluator grid before new after → new.map (·.1) = openAmong (classification grid answers) batch →
    waveAfter grid answers new ≠ [] →
    Turns evaluator grid method state (answers ++ new) (waveAfter grid answers new) after

/-- What is left of a sweep that has come to a batch: to judge it, to tell what was found, and to send out
    at most so many waves from there. -/
def remainder {m : Type → Type} [Monad m] (evaluator : Evaluator K m) (batch : List Cell) (sweep : Sweep grid)
    (told : List Cell → List SweepEvent) (more waves : Nat) (closing : Nat → Sweep grid → List SweepEvent) :
    m (Sweep grid) := do
  let (found, after) ← sweep.evaluate evaluator batch
  let (waves, final) ← (after.report (told found)).expand evaluator more waves found
  return final.report (closing waves final)

variable {evaluator : Evaluator K (StateT τ (Except (SimulationError K)))}

/-! ## Asking -/

theorem Asked.append {state next last : τ} {answers later : List (Cell × Assessment)}
    (asked : Asked evaluator grid state answers next) (askedLater : Asked evaluator grid next later last) :
    Asked evaluator grid state (answers ++ later) last := by
  induction asked with
  | nothing => exact askedLater
  | call answered _ ih => exact .call answered (ih askedLater)

theorem ask_run_eq_ok_iff {cell : Cell} {state next : τ} {answer : Cell × Assessment} :
    (ask evaluator grid cell).run state = .ok (answer, next) ↔
      ∃ assessment, (evaluator (grid.parametersAt cell)).run state = .ok (assessment, next) ∧ (cell, assessment) = answer := by
  simp only [ask, StateT.run_bind, StateT.run_pure, Except.bind_eq_ok, Except.pure_eq_ok, Prod.exists, Prod.mk.injEq]
  constructor
  · rintro ⟨assessment, _, answered, same, rfl⟩
    exact ⟨assessment, answered, same⟩
  · rintro ⟨assessment, answered, same⟩
    exact ⟨assessment, _, answered, same, rfl⟩

theorem mapM_run_eq_ok_iff {cells : List Cell} {state last : τ} {answers : List (Cell × Assessment)} :
    (cells.mapM (ask evaluator grid)).run state = .ok (answers, last) ↔
      Asked evaluator grid state answers last ∧ answers.map (·.1) = cells := by
  induction cells generalizing state last answers with
  | nil =>
    simp only [List.mapM_nil, StateT.run_pure, Except.pure_eq_ok, Prod.mk.injEq, List.map_eq_nil_iff]
    constructor
    · rintro ⟨rfl, rfl⟩
      exact ⟨.nothing, rfl⟩
    · rintro ⟨asked, rfl⟩
      cases asked
      exact ⟨rfl, rfl⟩
  | cons cell cells ih =>
    simp only [List.mapM_cons, StateT.run_bind, StateT.run_pure, Except.bind_eq_ok, Except.pure_eq_ok, Prod.exists,
      Prod.mk.injEq, ih]
    constructor
    · rintro ⟨_, _, _, first, later, last, ⟨asked, cells⟩, rfl, rfl⟩
      obtain ⟨assessment, answered, same⟩ := ask_run_eq_ok_iff.mp first
      obtain ⟨rfl, rfl⟩ := Prod.mk.inj same
      exact ⟨.call answered asked, congrArg (cell :: ·) cells⟩
    · rintro ⟨asked, same⟩
      cases asked with
      | nothing => exact absurd same.symm (List.cons_ne_nil _ _)
      | call answered asked =>
        obtain ⟨rfl, others⟩ := List.cons_eq_cons.mp same
        exact ⟨_, _, _, ask_run_eq_ok_iff.mpr ⟨_, answered, rfl⟩, _, _, ⟨asked, others⟩, rfl, rfl⟩

theorem mapM_run_eq_error {before later : List Cell} {cell : Cell} {state next : τ} {answers : List (Cell × Assessment)}
    {cause : SimulationError K} (asked : Asked evaluator grid state answers next) (cells : answers.map (·.1) = before)
    (fails : (evaluator (grid.parametersAt cell)).run next = .error cause) :
    ((before ++ cell :: later).mapM (ask evaluator grid)).run state = .error cause := by
  have first := mapM_run_eq_ok_iff.mpr ⟨asked, cells⟩
  have second : ((cell :: later).mapM (ask evaluator grid)).run next = .error cause := by
    simp only [List.mapM_cons, ask, StateT.run_bind, fails]
    rfl
  rw [List.mapM_append, StateT.run_bind, first, Except.ok_bind, StateT.run_bind, second]
  rfl

/-! ## One batch -/

theorem evaluate_run_eq_ok_iff {sweep after : Sweep grid} {batch found : List Cell} {state last : τ} :
    (sweep.evaluate evaluator batch).run state = .ok ((found, after), last) ↔
      ∃ answers, Asked evaluator grid state answers last ∧ answers.map (·.1) = openAmong sweep.domain batch ∧
        found = operationalOf answers ∧
        after = (sweep.report ([.taskStart (openAmong sweep.domain batch).length] ++ answers.map (fun _ => .taskStep) ++
          [.taskFinish])).taking answers := by
  simp only [evaluate, StateT.run_bind, StateT.run_pure, Except.bind_eq_ok, Except.pure_eq_ok, Prod.exists, Prod.mk.injEq,
    mapM_run_eq_ok_iff, and_assoc]
  refine exists_congr fun answers => ?_
  constructor
  · rintro ⟨_, asked, cells, told, rfl⟩
    rw [foldl_record_openAmong cells, Prod.mk.injEq] at told
    exact ⟨asked, cells, told.1.symm, told.2.symm⟩
  · rintro ⟨asked, cells, rfl, rfl⟩
    exact ⟨last, asked, cells, foldl_record_openAmong cells _, rfl⟩

/-- Where the evaluator fails on an open cell of a batch after it has answered for those before, the batch
    is not judged. -/
theorem evaluate_run_eq_error {sweep : Sweep grid} {batch before later : List Cell} {cell : Cell} {state next : τ}
    {answers : List (Cell × Assessment)} {cause : SimulationError K}
    (pending : openAmong sweep.domain batch = before ++ cell :: later) (asked : Asked evaluator grid state answers next)
    (cells : answers.map (·.1) = before) (fails : (evaluator (grid.parametersAt cell)).run next = .error cause) :
    (sweep.evaluate evaluator batch).run state = .error cause := by
  simp only [evaluate, pending, StateT.run_bind, mapM_run_eq_error asked cells fails]
  rfl

/-- A status that a cell has stays, whatever batch is judged. -/
theorem evaluate_keeps {sweep after : Sweep grid} {batch found : List Cell} {state last : τ}
    (judged : (sweep.evaluate evaluator batch).run state = .ok ((found, after), last)) {cell : Cell}
    {status : OperationalStatus} (known : sweep.domain.status? cell = some status) :
    after.domain.status? cell = some status := by
  obtain ⟨answers, _, _, _, rfl⟩ := evaluate_run_eq_ok_iff.mp judged
  refine (Domain.status?_recordAll sweep.domain answers cell).trans ?_
  rw [known]
  rfl

/-! ## The books -/

theorem Accounted.start (isActive : Bool) : Accounted (start grid isActive) [] :=
  ⟨List.nodup_nil, nofun, rfl, rfl, rfl⟩

/-- Words are not entered in the books. -/
theorem Accounted.report {sweep : Sweep grid} {answers : List (Cell × Assessment)} (accounted : Accounted sweep answers)
    (events : List SweepEvent) : Accounted (sweep.report events) answers :=
  ⟨accounted.distinct, accounted.contained, accounted.domain, accounted.evaluated, accounted.invocations⟩

theorem Accounted.isSome_iff {sweep : Sweep grid} {answers : List (Cell × Assessment)}
    (accounted : Accounted sweep answers) (cell : Cell) :
    (sweep.domain.status? cell).isSome ↔ cell ∈ answers.map (·.1) := by
  rw [accounted.domain, classification, Domain.isSome_status?_recordAll]
  simp

/-- Of different cells each has the status of its answer. -/
theorem Accounted.status {sweep : Sweep grid} {answers : List (Cell × Assessment)} (accounted : Accounted sweep answers)
    {cell : Cell} {assessment : Assessment} (member : (cell, assessment) ∈ answers) :
    sweep.domain.status? cell = some assessment.status := by
  rw [accounted.domain, classification, Domain.status?_recordAll, Domain.status?_empty, Option.none_or]
  cases first : answers.find? (·.1 = cell) with
  | none => simpa using List.find?_eq_none.mp first _ member
  | some answer =>
    have same : answer.1 = cell := by simpa using List.find?_some first
    have unique := List.inj_on_of_nodup_map accounted.distinct (List.mem_of_find?_eq_some first) member same
    rw [unique]
    rfl

theorem Accounted.status_iff {sweep : Sweep grid} {answers : List (Cell × Assessment)} (accounted : Accounted sweep answers)
    {cell : Cell} {status : OperationalStatus} :
    sweep.domain.status? cell = some status ↔ ∃ assessment, (cell, assessment) ∈ answers ∧ assessment.status = status := by
  constructor
  · intro known
    obtain ⟨⟨_, assessment⟩, member, rfl⟩ := List.mem_map.mp ((accounted.isSome_iff cell).mp (by rw [known]; rfl))
    exact ⟨assessment, member, Option.some.inj ((accounted.status member).symm.trans known)⟩
  · rintro ⟨assessment, member, rfl⟩
    exact accounted.status member

theorem Accounted.taking {sweep : Sweep grid} {answers new : List (Cell × Assessment)} {batch : List Cell}
    (accounted : Accounted sweep answers) (inside : ∀ cell ∈ batch, grid.Contains cell)
    (cells : new.map (·.1) = openAmong sweep.domain batch) : Accounted (sweep.taking new) (answers ++ new) := by
  have known {cell : Cell} (member : cell ∈ new.map (·.1)) : cell ∈ batch ∧ sweep.domain.status? cell = none :=
    (mem_openAmong _).mp (cells ▸ member)
  refine ⟨?_, ?_, ?_, ?_, ?_⟩
  · rw [List.map_append]
    refine accounted.distinct.append (cells ▸ openAmong_nodup _ _) fun cell before now => ?_
    have classified := (accounted.isSome_iff cell).mpr before
    rw [(known now).2] at classified
    contradiction
  · intro cell member
    rw [List.map_append, List.mem_append] at member
    exact member.elim (accounted.contained cell) fun now => inside cell (known now).1
  · simp only [Sweep.taking, accounted.domain, classification, Domain.recordAll, List.foldl_append]
  · simp only [Sweep.taking, accounted.evaluated, List.length_append]
  · simp only [Sweep.taking, accounted.invocations, List.map_append, List.sum_append]

omit [Scalar K] in
/-- The answers for what is open in a batch leave nothing of it open. -/
theorem isSome_taking_iff (sweep : Sweep grid) {new : List (Cell × Assessment)} {batch : List Cell}
    (cells : new.map (·.1) = openAmong sweep.domain batch) (cell : Cell) :
    ((sweep.taking new).domain.status? cell).isSome ↔ (sweep.domain.status? cell).isSome ∨ cell ∈ batch := by
  rw [Sweep.taking, Domain.isSome_status?_recordAll, cells, mem_openAmong]
  cases sweep.domain.status? cell <;> simp

/-- Judging a batch keeps the books in order. -/
theorem evaluate_accounted {sweep after : Sweep grid} {answers : List (Cell × Assessment)} {batch found : List Cell}
    {state last : τ} (accounted : Accounted sweep answers) (inside : ∀ cell ∈ batch, grid.Contains cell)
    (judged : (sweep.evaluate evaluator batch).run state = .ok ((found, after), last)) :
    ∃ new, Asked evaluator grid state new last ∧ found = operationalOf new ∧ Accounted after (answers ++ new) ∧
      ∀ cell, (after.domain.status? cell).isSome ↔ (sweep.domain.status? cell).isSome ∨ cell ∈ batch := by
  obtain ⟨new, asked, cells, rfl, rfl⟩ := evaluate_run_eq_ok_iff.mp judged
  exact ⟨new, asked, rfl, (accounted.report _).taking inside cells, isSome_taking_iff (sweep.report _) cells⟩

/-- A batch is judged when the evaluator answers for what is open in it. -/
theorem evaluate_of_asked {sweep : Sweep grid} {answers new : List (Cell × Assessment)} {batch : List Cell}
    {state last : τ} (accounted : Accounted sweep answers) (inside : ∀ cell ∈ batch, grid.Contains cell)
    (asked : Asked evaluator grid state new last) (cells : new.map (·.1) = openAmong sweep.domain batch) :
    ∃ after, (sweep.evaluate evaluator batch).run state = .ok ((operationalOf new, after), last) ∧
      Accounted after (answers ++ new) ∧
      ∀ cell, (after.domain.status? cell).isSome ↔ (sweep.domain.status? cell).isSome ∨ cell ∈ batch :=
  ⟨_, evaluate_run_eq_ok_iff.mpr ⟨new, asked, cells, rfl, rfl⟩, (accounted.report _).taking inside cells,
    isSome_taking_iff (sweep.report _) cells⟩

theorem Accounted.operational_contained {sweep : Sweep grid} {answers new : List (Cell × Assessment)}
    (accounted : Accounted sweep (answers ++ new)) : ∀ cell ∈ operationalOf new, grid.Contains cell := by
  intro cell member
  obtain ⟨answer, operational, rfl⟩ := List.mem_map.mp member
  have listed : answer ∈ answers ++ new := List.mem_append_right _ (List.mem_of_mem_filter operational)
  exact accounted.contained _ (List.mem_map_of_mem listed)

/-- Beside cells of the grid there are only cells of the grid. -/
theorem wave_contained {frontier : List Cell} (inside : ∀ cell ∈ frontier, grid.Contains cell) (domain : Domain grid) :
    ∀ cell ∈ openAmong domain (frontier.flatMap grid.neighbours), grid.Contains cell := by
  intro cell member
  obtain ⟨source, source_mem, beside⟩ := List.mem_flatMap.mp ((mem_openAmong _).mp member).1
  exact ((grid.mem_neighbours_iff (inside source source_mem) cell).mp beside).1

/-- However many waves go out, the books stay in order. -/
theorem expand_accounted {more waves count : Nat} {frontier : List Cell} {sweep final : Sweep grid}
    {answers : List (Cell × Assessment)} {state last : τ} (accounted : Accounted sweep answers)
    (inside : ∀ cell ∈ frontier, grid.Contains cell)
    (ran : (sweep.expand evaluator more waves frontier).run state = .ok ((count, final), last)) :
    ∃ new, Asked evaluator grid state new last ∧ Accounted final (answers ++ new) := by
  induction more generalizing waves frontier sweep answers state with
  | zero =>
    simp only [expand, StateT.run_pure, Except.pure_eq_ok, Prod.mk.injEq] at ran
    obtain ⟨⟨_, rfl⟩, rfl⟩ := ran
    exact ⟨[], .nothing, by rwa [List.append_nil]⟩
  | succ more ih =>
    by_cases nothing : sweep.wave frontier = []
    · simp only [expand, nothing, List.isEmpty_nil, if_true, StateT.run_pure, Except.pure_eq_ok, Prod.mk.injEq] at ran
      obtain ⟨⟨_, rfl⟩, rfl⟩ := ran
      exact ⟨[], .nothing, by rwa [List.append_nil]⟩
    · simp only [expand, List.isEmpty_iff, if_neg nothing, StateT.run_bind, Except.bind_eq_ok, Prod.exists] at ran
      obtain ⟨found, after, next, judged, ran⟩ := ran
      obtain ⟨new, asked, rfl, accounted, _⟩ := evaluate_accounted accounted (wave_contained inside _) judged
      obtain ⟨later, askedLater, accounted⟩ := ih accounted accounted.operational_contained ran
      exact ⟨new ++ later, asked.append askedLater, by rwa [← List.append_assoc]⟩

/-! ## Whole runs -/

omit [Scalar K] in
@[simp] theorem report_nil (sweep : Sweep grid) : sweep.report [] = sweep := by
  simp [report, Reporter.report]

/-- What is left of a sweep keeps its books in order, and leaves nothing open in the batch. -/
theorem remainder_accounted {batch : List Cell} {sweep final : Sweep grid} {told : List Cell → List SweepEvent}
    {more waves : Nat} {closing : Nat → Sweep grid → List SweepEvent} {answers : List (Cell × Assessment)} {state last : τ}
    (accounted : Accounted sweep answers) (inside : ∀ cell ∈ batch, grid.Contains cell)
    (ran : (remainder evaluator batch sweep told more waves closing).run state = .ok (final, last)) :
    ∃ new, Asked evaluator grid state new last ∧ Accounted final (answers ++ new) ∧
      ∀ cell ∈ batch, cell ∈ (answers ++ new).map (·.1) := by
  simp only [remainder, StateT.run_bind, StateT.run_pure, Except.bind_eq_ok, Except.pure_eq_ok, Prod.exists,
    Prod.mk.injEq] at ran
  obtain ⟨found, after, next, judged, count, expanded, _, ran, rfl, rfl⟩ := ran
  obtain ⟨new, asked, rfl, books, classified⟩ := evaluate_accounted accounted inside judged
  obtain ⟨later, askedLater, closed⟩ := expand_accounted (books.report _) books.operational_contained ran
  refine ⟨new ++ later, asked.append askedLater, (List.append_assoc answers new later ▸ closed).report _, ?_⟩
  intro cell member
  have judged : cell ∈ (answers ++ new).map (·.1) := (books.isSome_iff cell).mp ((classified cell).mpr (.inr member))
  rw [← List.append_assoc, List.map_append]
  exact List.mem_append_left _ judged

variable {σ : Type} [RandomSource σ]

/-- Once the seeds are accepted, a flood is what is left of it at its start cells. -/
theorem floodFill_eq_bind (evaluator : Evaluator K (StateT τ (Except (SimulationError K)))) (grid : Grid K)
    (isActive : Bool) (seeds : Seeds) (random : σ) :
    ∃ events told closing, Sweep.floodFill evaluator grid isActive seeds random =
      (liftM ((checkSeeds grid seeds).mapError SimulationError.settings) >>= fun _ =>
        remainder evaluator (startCells grid seeds random) ((start grid isActive).report events) told
          grid.numPoints 0 closing) :=
  ⟨[.phaseStart "Seeding"],
    fun found => [.message s!"{found.length} of {(batchOf (startCells grid seeds random)).length} seed points are operational",
      .phaseFinish, .phaseStart "Expansion"],
    fun waves final => [.message s!"{waves} waves, {grid.numPoints - final.domain.size} points not reached", .phaseFinish],
    rfl⟩

theorem onePhase_eq_remainder (isActive : Bool) (name : String) (batch : List Cell) :
    onePhase evaluator grid isActive name batch =
      remainder evaluator batch ((start grid isActive).report [.phaseStart name]) (fun _ => []) 0 0
        (fun _ _ => [.phaseFinish]) := by
  simp only [onePhase, remainder, expand, report_nil, pure_bind]

variable {method : Method σ}

/-- A sweep that is not refused is what is left of it at its first batch, and its bound on the number of
    waves is as high as the grid has cells. -/
theorem Method.run_eq_remainder (evaluator : Evaluator K (StateT τ (Except (SimulationError K))))
    (accepted : method.check grid = .ok ()) (isActive : Bool) :
    ∃ events told more closing, (method.spreads = true → grid.numPoints ≤ more) ∧
      method.run evaluator grid isActive =
        remainder evaluator (method.starts grid) ((start grid isActive).report events) told more 0 closing := by
  cases method with
  | gridSearch => exact ⟨_, _, _, _, nofun, onePhase_eq_remainder _ _ _⟩
  | randomSampling samples random => exact ⟨_, _, _, _, nofun, onePhase_eq_remainder _ _ _⟩
  | floodFill seeds random =>
    have checked : checkSeeds grid seeds = .ok () := accepted
    obtain ⟨events, told, closing, flood⟩ := floodFill_eq_bind evaluator grid isActive seeds random
    rw [checked] at flood
    exact ⟨events, told, grid.numPoints, closing, fun _ => le_rfl, flood⟩

theorem Method.check_of_run {isActive : Bool} {state last : τ} {sweep : Sweep grid}
    (ran : (method.run evaluator grid isActive).run state = .ok (sweep, last)) : method.check grid = .ok () := by
  cases method with
  | gridSearch | randomSampling samples random => rfl
  | floodFill seeds random =>
    cases checked : checkSeeds grid seeds with
    | ok _ => exact checked
    | error cause =>
      have refused : (Sweep.floodFill evaluator grid isActive seeds random).run state = .error (.settings cause) := by
        obtain ⟨_, _, _, flood⟩ := floodFill_eq_bind evaluator grid isActive seeds random
        rw [flood, checked]
        rfl
      exact nomatch refused.symm.trans ran

/-- A run that succeeds has its books in order, and leaves nothing open where it starts. -/
theorem Method.accounted_of_run {isActive : Bool} {state last : τ} {sweep : Sweep grid}
    (ran : (method.run evaluator grid isActive).run state = .ok (sweep, last)) :
    ∃ answers, Asked evaluator grid state answers last ∧ Accounted sweep answers ∧
      ∀ cell ∈ method.starts grid, cell ∈ answers.map (·.1) := by
  have accepted := Method.check_of_run ran
  obtain ⟨events, told, more, closing, _, rest⟩ := Method.run_eq_remainder evaluator accepted isActive
  rw [rest] at ran
  exact remainder_accounted ((Accounted.start isActive).report events) (Method.starts_contained accepted) ran

/-- Where a batch has a wave after it, what is left at the batch comes to what is left at the wave. -/
theorem remainder_wave {batch found : List Cell} {sweep next : Sweep grid} {told : List Cell → List SweepEvent}
    {more waves : Nat} {closing : Nat → Sweep grid → List SweepEvent} {before after : τ}
    (judged : (sweep.evaluate evaluator batch).run before = .ok ((found, next), after))
    (something : (next.report (told found)).wave found ≠ []) :
    (remainder evaluator batch sweep told (more + 1) waves closing).run before =
      (remainder evaluator ((next.report (told found)).wave found) (next.report (told found)) (fun _ => []) more
        (waves + 1) closing).run after := by
  simp only [remainder, StateT.run_bind, judged, Except.ok_bind, expand, List.isEmpty_iff, if_neg something, report_nil,
    bind_assoc]

/-- Every run is what is left of it at each batch that it turns to. -/
theorem Turns.remainder {state before : τ} {answers : List (Cell × Assessment)} {batch : List Cell}
    (turns : Turns evaluator grid method state answers batch before) (isActive : Bool) :
    (∀ cell ∈ batch, grid.Contains cell) ∧
    ∃ sweep told more waves closing, Accounted sweep answers ∧
      (method.spreads = true → ∀ after : Domain grid, (∀ cell, (after.status? cell).isSome ↔
        (sweep.domain.status? cell).isSome ∨ cell ∈ batch) → (openCells after).card ≤ more) ∧
      (method.run evaluator grid isActive).run state =
        (Sweep.remainder evaluator batch sweep told more waves closing).run before := by
  induction turns with
  | first accepted =>
    obtain ⟨events, told, more, closing, enough, ran⟩ := Method.run_eq_remainder evaluator accepted isActive
    refine ⟨Method.starts_contained accepted, _, told, more, 0, closing, (Accounted.start isActive).report events, ?_,
      by rw [ran]⟩
    exact fun spreads after _ => (card_openCells_le after).trans (enough spreads)
  | @wave answers new batch before after spreads _ asked cells something ih =>
    obtain ⟨inside, sweep, told, more, waves, closing, accounted, enough, ran⟩ := ih
    rw [← accounted.domain] at cells
    obtain ⟨next, judged, books, classified⟩ := evaluate_of_asked accounted inside asked cells
    have wave : (next.report (told (operationalOf new))).wave (operationalOf new) = waveAfter grid answers new := by
      rw [Sweep.wave, (books.report _).domain, waveAfter]
    have within : ∀ cell ∈ waveAfter grid answers new, grid.Contains cell :=
      wave_contained books.operational_contained _
    obtain ⟨cell, member⟩ := List.exists_mem_of_ne_nil _ something
    have isOpen : next.domain.status? cell = none := by
      rw [waveAfter, ← books.domain, mem_openAmong] at member
      exact member.2
    -- The bound counts the open cells of the wave, so that there is a wave left to make.
    have counted := enough spreads next.domain classified
    have positive : 0 < (openCells next.domain).card :=
      Finset.card_pos.mpr ⟨cell, (mem_openCells_iff _ cell).mpr ⟨within cell member, by simp [isOpen]⟩⟩
    obtain ⟨fewer, rfl⟩ := Nat.exists_eq_succ_of_ne_zero (Nat.ne_of_gt (positive.trans_le counted))
    refine ⟨within, next.report (told (operationalOf new)), fun _ => [], fewer, waves + 1, closing, books.report _, ?_, ?_⟩
    · intro _ after known
      exact Nat.le_of_lt_succ ((card_openCells_lt known member (within cell member) isOpen).trans_le counted)
    · rw [ran, ← wave]
      exact remainder_wave judged (wave ▸ something)

/-! ## What the books come to -/

/-- The counts of a sweep are those of these answers, and they add up. -/
structure Balanced (sweep : Sweep grid) (answers : List (Cell × Assessment)) (stats : SweepStats) : Prop where
  evaluated : stats.evaluated = sweep.domain.size
  operational : stats.operational = (answers.filter (·.2.status = .operational)).length
  nonOperational : stats.nonOperational = (answers.filter (·.2.status = .nonOperational)).length
  invocations : stats.invocations = (answers.map (·.2.invocations)).sum
  total : stats.total = grid.width * grid.height
  /-- Taking the operational cells from the classified ones does not go below zero, -/
  operational_le : sweep.domain.operationalCells.length ≤ sweep.domain.size
  /-- and neither does taking the classified ones from all. -/
  classified_le : sweep.domain.size ≤ grid.numPoints
  classified : stats.operational + stats.nonOperational = stats.evaluated
  all : stats.evaluated + stats.unclassified = stats.total

theorem Accounted.size {sweep : Sweep grid} {answers : List (Cell × Assessment)} (accounted : Accounted sweep answers) :
    sweep.domain.size = answers.length := by
  rw [accounted.domain, classification, Domain.size_recordAll accounted.distinct fun _ _ => Domain.status?_empty _]
  exact Nat.zero_add _

theorem Accounted.operationalCells {sweep : Sweep grid} {answers : List (Cell × Assessment)}
    (accounted : Accounted sweep answers) : sweep.domain.operationalCells.Perm (operationalOf answers) := by
  refine (List.perm_ext_iff_of_nodup sweep.domain.operationalCells_nodup
    (accounted.distinct.sublist (List.filter_sublist.map _))).mpr fun cell => ?_
  rw [Domain.mem_operationalCells_iff, accounted.status_iff]
  simp

theorem Accounted.size_le {sweep : Sweep grid} {answers : List (Cell × Assessment)} (accounted : Accounted sweep answers) :
    sweep.domain.size ≤ grid.numPoints := by
  have listed : answers.map (·.1) ⊆ grid.cells := fun cell member =>
    (grid.mem_cells_iff cell).mpr (accounted.contained cell member)
  rw [accounted.size, ← grid.length_cells]
  exact (List.length_map _).ge.trans (List.subperm_of_subset accounted.distinct listed).length_le

/-- Where no cell of the grid is open, as many are classified as there are. -/
theorem Accounted.numPoints_le {sweep : Sweep grid} {answers : List (Cell × Assessment)} (accounted : Accounted sweep answers)
    (covered : ∀ cell ∈ grid.cells, cell ∈ answers.map (·.1)) : grid.numPoints ≤ sweep.domain.size := by
  rw [accounted.size, ← grid.length_cells]
  exact (List.subperm_of_subset grid.cells_nodup covered).length_le.trans (List.length_map _).le

theorem Accounted.balanced {sweep : Sweep grid} {answers : List (Cell × Assessment)} (accounted : Accounted sweep answers)
    (runtime : Nat) : Balanced sweep answers (sweep.stats runtime) := by
  have operational : sweep.domain.operationalCells.length = (answers.filter (·.2.status = .operational)).length := by
    rw [accounted.operationalCells.length_eq, Sweep.operationalOf, List.length_map]
  have split : (answers.filter (·.2.status = .operational)).length +
      (answers.filter (·.2.status = .nonOperational)).length = answers.length := by
    rw [List.length_eq_length_filter_add (l := answers) (·.2.status = .operational)]
    congr 2
    refine List.filter_congr fun answer _ => ?_
    cases answer.2.status <;> decide
  have size := accounted.size
  have fits := accounted.size_le
  refine ⟨?_, operational, ?_, accounted.invocations, rfl, ?_, fits, ?_, ?_⟩
  · exact accounted.evaluated.trans size.symm
  · simp only [stats]
    omega
  · omega
  · simp only [stats, accounted.evaluated]
    omega
  · simp only [stats, accounted.evaluated]
    omega

/-! ## Evaluators without memory -/

section
variable {n : Type → Type} [Monad n] [LawfulMonad n] [MonadLiftT (Except (SimulationError K)) n]
  [LawfulMonadLiftT (Except (SimulationError K)) n] (memoryless : Evaluator K)

omit [LawfulMonad n] in
theorem ask_lift (cell : Cell) :
    ask (fun params => (liftM (memoryless params) : n Assessment)) grid cell = liftM (ask memoryless grid cell) := by
  simp only [ask, liftM_bind, liftM_pure]

theorem mapM_lift (cells : List Cell) : cells.mapM (ask (fun params => (liftM (memoryless params) : n Assessment)) grid) =
    liftM (cells.mapM (ask memoryless grid)) := by
  induction cells with
  | nil => simp only [List.mapM_nil, liftM_pure]
  | cons cell cells ih => simp only [List.mapM_cons, ih, ask_lift, liftM_bind, liftM_pure]

theorem evaluate_lift (sweep : Sweep grid) (batch : List Cell) :
    sweep.evaluate (fun params => (liftM (memoryless params) : n Assessment)) batch = liftM (sweep.evaluate memoryless batch) := by
  simp only [evaluate, mapM_lift, liftM_bind, liftM_pure]

theorem expand_lift (more waves : Nat) (frontier : List Cell) (sweep : Sweep grid) :
    sweep.expand (fun params => (liftM (memoryless params) : n Assessment)) more waves frontier =
      liftM (sweep.expand memoryless more waves frontier) := by
  induction more generalizing waves frontier sweep with
  | zero => simp only [expand, liftM_pure]
  | succ more ih =>
    by_cases nothing : sweep.wave frontier = []
    · simp only [expand, nothing, List.isEmpty_nil, if_true, liftM_pure]
    · simp only [expand, List.isEmpty_iff, if_neg nothing, evaluate_lift, ih, liftM_bind]

/-- An evaluator that has no memory makes the same sweep in every monad that failures are lifted to, so that
    what holds with a state holds without one. -/
theorem Method.run_lift (method : Method σ) (isActive : Bool) :
    method.run (fun params => (liftM (memoryless params) : n Assessment)) grid isActive =
      liftM (method.run memoryless grid isActive) := by
  cases method with
  | gridSearch => simp only [Method.run, Sweep.gridSearch, onePhase, evaluate_lift, liftM_bind, liftM_pure]
  | randomSampling samples random =>
    simp only [Method.run, Sweep.randomSampling, onePhase, evaluate_lift, liftM_bind, liftM_pure]
  | floodFill seeds random =>
    simp only [Method.run, Sweep.floodFill, evaluate_lift, expand_lift, liftM_bind, liftM_pure]
    rfl

end

/-- Without memory each answer is what the evaluator says of its cell. -/
theorem Asked.eq_ok_of_memoryless {memoryless : Evaluator K} {state last : Unit} {answers : List (Cell × Assessment)}
    (asked : Asked (fun params => liftM (memoryless params)) grid state answers last) :
    ∀ answer ∈ answers, memoryless (grid.parametersAt answer.1) = .ok answer.2 := by
  induction asked with
  | nothing => exact nofun
  | call answered _ ih =>
    refine List.forall_mem_cons.mpr ⟨?_, ih⟩
    obtain ⟨assessment, given, same⟩ := Except.bind_eq_ok.mp answered
    obtain ⟨rfl, _⟩ := Prod.mk.inj (Except.ok.inj same)
    exact given

/-- A sweep without memory has the answers of its evaluator for exactly the classified cells, and its counts
    are those of these answers. -/
theorem Method.run_memoryless {memoryless : Evaluator K} {isActive : Bool} {sweep : Sweep grid}
    (ran : method.run memoryless grid isActive = .ok sweep) :
    ∃ answers : List (Cell × Assessment), (answers.map (·.1)).Nodup ∧
      (∀ cell assessment, (cell, assessment) ∈ answers ↔
        (sweep.domain.status? cell).isSome ∧ memoryless (grid.parametersAt cell) = .ok assessment) ∧
      ∀ runtime, Balanced sweep answers (sweep.stats runtime) := by
  have lifted : (method.run (fun params => (liftM (memoryless params) : StateT Unit (Except (SimulationError K)) Assessment))
      grid isActive).run () = .ok (sweep, ()) := by
    rw [Method.run_lift, ran]
    rfl
  obtain ⟨answers, asked, books, _⟩ := Method.accounted_of_run lifted
  refine ⟨answers, books.distinct, fun cell assessment => ?_, books.balanced⟩
  constructor
  · intro member
    exact ⟨(books.isSome_iff cell).mpr (List.mem_map_of_mem member), asked.eq_ok_of_memoryless _ member⟩
  · rintro ⟨classified, given⟩
    obtain ⟨⟨_, answer⟩, member, rfl⟩ := List.mem_map.mp ((books.isSome_iff cell).mp classified)
    obtain rfl : answer = assessment := Except.ok.inj ((asked.eq_ok_of_memoryless _ member).symm.trans given)
    exact member

end Sweep

open Sweep in
/-- The books of a sweep balance, whichever way it goes over the grid and whatever the evaluator does. Where
    it succeeds, it has asked the evaluator once for every cell that is classified afterwards and for nothing
    else; each has the status of its answer, which is that of any moment before at which the cell was
    classified; and the counts are those of the answers. The grid search leaves nothing unclassified. No batch
    changes a status that a cell has. Where the evaluator fails on a cell of a batch that the sweep has come
    to, the sweep fails with it. -/
theorem sweep_accounting {K σ τ : Type} [Scalar K] [RandomSource σ]
    (evaluator : Evaluator K (StateT τ (Except (SimulationError K)))) (grid : Grid K) (isActive : Bool)
    (method : Method σ) (state : τ) :
    (∀ sweep last, (method.run evaluator grid isActive).run state = .ok (sweep, last) →
      ∃ answers, Asked evaluator grid state answers last ∧ (answers.map (·.1)).Nodup ∧
        (∀ cell, cell ∈ answers.map (·.1) ↔ (sweep.domain.status? cell).isSome) ∧
        (∀ cell assessment, (cell, assessment) ∈ answers → grid.Contains cell ∧
          sweep.domain.status? cell = some assessment.status) ∧
        (∀ earlier batch before, Turns evaluator grid method state earlier batch before →
          ∀ cell status, (classification grid earlier).status? cell = some status →
            sweep.domain.status? cell = some status) ∧
        (∀ runtime, Balanced sweep answers (sweep.stats runtime)) ∧
        (method = .gridSearch → (∀ cell, grid.Contains cell → (sweep.domain.status? cell).isSome) ∧
          ∀ runtime, (sweep.stats runtime).unclassified = 0)) ∧
    (∀ (sweep after : Sweep grid) batch found before last,
      (sweep.evaluate evaluator batch).run before = .ok ((found, after), last) →
        ∀ cell status, sweep.domain.status? cell = some status → after.domain.status? cell = some status) ∧
    (∀ earlier batch before, Turns evaluator grid method state earlier batch before →
      ∀ asked cell later answers next cause, openAmong (classification grid earlier) batch = asked ++ cell :: later →
        Asked evaluator grid before answers next → answers.map (·.1) = asked →
        (evaluator (grid.parametersAt cell)).run next = .error cause →
        (method.run evaluator grid isActive).run state = .error cause) := by
  refine ⟨?_, fun _ _ _ _ _ _ judged _ _ => evaluate_keeps judged, ?_⟩
  · intro sweep last ran
    obtain ⟨answers, asked, books, covered⟩ := Method.accounted_of_run ran
    refine ⟨answers, asked, books.distinct, fun cell => (books.isSome_iff cell).symm, ?_, ?_, books.balanced, ?_⟩
    · intro cell assessment member
      exact ⟨books.contained cell (List.mem_map_of_mem member), books.status member⟩
    · intro earlier batch before turns cell status known
      obtain ⟨within, _, _, _, _, _, held, _, rest⟩ := turns.remainder isActive
      obtain ⟨new, _, kept, _⟩ := remainder_accounted held within (rest ▸ ran)
      rw [← held.domain, held.status_iff] at known
      obtain ⟨assessment, member, rfl⟩ := known
      exact kept.status (List.mem_append_left new member)
    · rintro rfl
      exact ⟨fun cell inside => (books.isSome_iff cell).mpr (covered cell ((grid.mem_cells_iff cell).mpr inside)),
        fun runtime => Nat.sub_eq_zero_of_le (books.numPoints_le covered)⟩
  · intro earlier batch before turns asked cell later answers next cause pending replied cells fails
    obtain ⟨_, sweep, _, _, _, _, accounted, _, rest⟩ := turns.remainder isActive
    rw [← accounted.domain] at pending
    rw [rest, remainder, StateT.run_bind, evaluate_run_eq_error pending replied cells fails]
    rfl

/-- Remembers the permittivities it is asked for, finds three not operational, and fails at four. -/
def Evaluator.remembering : Evaluator ℚ (StateT (List ℚ) (Except (SimulationError ℚ))) := fun params => do
  modify (· ++ [params.epsilonR])
  if params.epsilonR = 4 then throw (.incomplete .exhaustive)
  return ⟨if params.epsilonR = 3 then .nonOperational else .operational, 2⟩

open Sweep in
/-- A flood from the first cell of the row asks for three permittivities in turn and leaves the fourth
    alone, and the grid search fails on it. -/
theorem sweep_accounting_row :
    (∃ sweep answers, ((Method.floodFill { given := [⟨0, 0⟩] } (ChaCha.ofSeed 0)).run .remembering Grid.row true).run [] =
        .ok (sweep, [1, 2, 3]) ∧ sweep.stats 0 = ⟨6, 3, 2, 1, 1, 4, 0⟩ ∧ Balanced sweep answers (sweep.stats 0) ∧
      Asked .remembering Grid.row [] answers [1, 2, 3] ∧ ∀ cell, cell ∈ answers.map (·.1) ↔ (sweep.domain.status? cell).isSome) ∧
    ((Method.gridSearch : Method ChaCha).run .remembering Grid.row true).run [] = .error (.incomplete .exhaustive) := by
  constructor
  · let flood := ((Method.floodFill { given := [⟨0, 0⟩] } (ChaCha.ofSeed 0)).run .remembering Grid.row true).run []
    have evaluated : flood.toOption.map (fun done => (done.2, done.1.stats 0)) =
        some ([1, 2, 3], ⟨6, 3, 2, 1, 1, 4, 0⟩) := by decide +kernel
    obtain ⟨⟨sweep, last⟩, ran, told⟩ := Option.map_eq_some_iff.mp evaluated
    obtain ⟨rfl, stats⟩ := Prod.mk.inj told
    have done := Except.toOption_eq_some_iff.mp ran
    obtain ⟨answers, asked, _, classified, _, _, balanced, _⟩ := (sweep_accounting _ _ _ _ _).1 sweep _ done
    exact ⟨sweep, answers, done, stats, balanced 0, asked, classified⟩
  · have pending : openAmong (classification Grid.row []) Grid.row.cells = [⟨0, 0⟩, ⟨1, 0⟩, ⟨2, 0⟩] ++ ⟨3, 0⟩ :: [] := by
      decide +kernel
    have answered : (([⟨0, 0⟩, ⟨1, 0⟩, ⟨2, 0⟩] : List Cell).mapM (ask .remembering Grid.row)).run [] = .ok
        ([(⟨0, 0⟩, ⟨.operational, 2⟩), (⟨1, 0⟩, ⟨.operational, 2⟩), (⟨2, 0⟩, ⟨.nonOperational, 2⟩)], [1, 2, 3]) :=
      Except.toOption_eq_some_iff.mp (by decide +kernel)
    obtain ⟨asked, cells⟩ := mapM_run_eq_ok_iff.mp answered
    have four : (Grid.row.parametersAt ⟨3, 0⟩).epsilonR = 4 := by decide +kernel
    refine (sweep_accounting _ _ _ _ _).2.2 [] _ [] (.first rfl) _ _ _ _ _ _ pending asked cells ?_
    simp only [Evaluator.remembering, if_pos four]
    rfl

end DanglingBond
