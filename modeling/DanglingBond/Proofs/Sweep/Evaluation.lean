import Mathlib
import DanglingBond.Proofs.Sweep.Cell

/-!
One batch of a sweep. Answers for different open cells are all taken in (`foldl_record`), and each gives
its cell a status (`status?_recordAll`, `size_recordAll`). So judging a batch gives every cell of it that was open the status
of the evaluator's answer and leaves all others alone, and the cells it returns are those that were open and
turned out operational (`evaluate_spec`). It succeeds whenever the evaluator answers for each of its cells
(`evaluate_total`).
-/

namespace DanglingBond

namespace Domain

variable {K : Type} {grid : Grid K}

/-- The domain with the statuses of some answers. -/
def recordAll (domain : Domain grid) (answers : List (Cell × Assessment)) : Domain grid :=
  answers.foldl (fun domain answer => domain.record answer.1 answer.2.status) domain

/-- A cell that was open takes the status of its first answer. -/
theorem status?_recordAll (domain : Domain grid) (answers : List (Cell × Assessment)) (cell : Cell) :
    (domain.recordAll answers).status? cell =
      (domain.status? cell).or ((answers.find? (·.1 = cell)).map (·.2.status)) := by
  induction answers generalizing domain with
  | nil => simp [recordAll]
  | cons answer answers ih =>
    refine (ih (domain.record answer.1 answer.2.status)).trans ?_
    rw [status?_record, Option.or_assoc, List.find?_cons]
    by_cases same : answer.1 = cell
    · simp [same]
    · simp [same]

theorem isSome_status?_recordAll (domain : Domain grid) (answers : List (Cell × Assessment)) (cell : Cell) :
    ((domain.recordAll answers).status? cell).isSome ↔
      (domain.status? cell).isSome ∨ cell ∈ answers.map (·.1) := by
  simp [status?_recordAll]

/-- Of answers for different cells the rest stays open when the first is taken in. -/
theorem open_of_record {domain : Domain grid} {answer : Cell × Assessment} {later : List (Cell × Assessment)}
    (new : answer.1 ∉ later.map (·.1)) (isOpen : ∀ other ∈ later, domain.status? other.1 = none) :
    ∀ other ∈ later, (domain.record answer.1 answer.2.status).status? other.1 = none := by
  intro other member
  have apart : answer.1 ≠ other.1 := fun same => new (same ▸ List.mem_map_of_mem member)
  rw [status?_record_of_ne domain apart, isOpen other member]

theorem size_recordAll {domain : Domain grid} {answers : List (Cell × Assessment)} (distinct : (answers.map (·.1)).Nodup)
    (isOpen : ∀ answer ∈ answers, domain.status? answer.1 = none) :
    (domain.recordAll answers).size = domain.size + answers.length := by
  induction answers generalizing domain with
  | nil => rfl
  | cons answer answers ih =>
    rw [List.map_cons, List.nodup_cons] at distinct
    obtain ⟨first, rest⟩ := List.forall_mem_cons.mp isOpen
    refine (ih distinct.2 (open_of_record distinct.1 rest)).trans ?_
    rw [size_record first, List.length_cons]
    omega

end Domain

namespace Sweep

/-- The cells that the answers find operational. -/
def operationalOf (answers : List (Cell × Assessment)) : List Cell :=
  (answers.filter (·.2.status = .operational)).map (·.1)

variable {K : Type} {grid : Grid K}

/-- The sweep with all of the answers. -/
def taking (sweep : Sweep grid) (answers : List (Cell × Assessment)) : Sweep grid :=
  { sweep with
    domain := sweep.domain.recordAll answers
    evaluated := sweep.evaluated + answers.length
    invocations := sweep.invocations + (answers.map (·.2.invocations)).sum }

/-- Of answers for different open cells none is passed over. -/
theorem foldl_record {answers : List (Cell × Assessment)} {sweep : Sweep grid}
    (distinct : (answers.map (·.1)).Nodup) (isOpen : ∀ answer ∈ answers, sweep.domain.status? answer.1 = none)
    (found : List Cell) :
    answers.foldl record (found, sweep) = (found ++ operationalOf answers, sweep.taking answers) := by
  induction answers generalizing sweep found with
  | nil => simp [operationalOf, taking, Domain.recordAll]
  | cons answer answers ih =>
    rw [List.map_cons, List.nodup_cons] at distinct
    obtain ⟨first, rest⟩ := List.forall_mem_cons.mp isOpen
    rw [List.foldl_cons, record, if_neg (by simp [first]), ih distinct.2 (Domain.open_of_record distinct.1 rest)]
    by_cases works : answer.2.status = .operational
    · simp [operationalOf, taking, Domain.recordAll, works]
      omega
    · simp [operationalOf, taking, Domain.recordAll, works]
      omega

/-- The answers for what is open in a batch are taken in, whatever the sweep tells in between. -/
theorem foldl_record_openAmong {answers : List (Cell × Assessment)} {sweep : Sweep grid} {batch : List Cell}
    (cells : answers.map (·.1) = openAmong sweep.domain batch) (events : List SweepEvent) :
    answers.foldl record ([], sweep.report events) = (operationalOf answers, (sweep.report events).taking answers) := by
  refine foldl_record (cells ▸ openAmong_nodup _ _) (fun answer member => ?_) []
  have listed : answer.1 ∈ openAmong sweep.domain batch := cells ▸ List.mem_map_of_mem member
  exact ((mem_openAmong _).mp listed).2

variable [Scalar K]

/-- The status that the evaluator gives to a cell, if it answers. -/
def statusAt? (evaluator : Evaluator K) (grid : Grid K) (cell : Cell) : Option OperationalStatus :=
  (evaluator (grid.parametersAt cell)).toOption.map (·.status)

theorem statusAt?_of_answer {evaluator : Evaluator K} {cell : Cell} {assessment : Assessment}
    (answer : evaluator (grid.parametersAt cell) = .ok assessment) :
    statusAt? evaluator grid cell = some assessment.status := by
  rw [statusAt?, answer]
  rfl

/-- These are the evaluator's answers for some cells, in their order. -/
def Answered (evaluator : Evaluator K) (grid : Grid K) (cells : List Cell) (answers : List (Cell × Assessment)) : Prop :=
  List.Forall₂ (fun cell answer => answer.1 = cell ∧ evaluator (grid.parametersAt cell) = .ok answer.2) cells answers

theorem mapM_eq_ok_iff (evaluator : Evaluator K) (cells : List Cell) (answers : List (Cell × Assessment)) :
    cells.mapM (ask evaluator grid) = .ok answers ↔ Answered evaluator grid cells answers := by
  unfold Answered
  induction cells generalizing answers with
  | nil =>
    simp only [List.mapM_nil, Except.pure_eq_ok, List.forall₂_nil_left_iff]
    exact eq_comm
  | cons cell cells ih =>
    simp only [List.mapM_cons, ask, Except.bind_eq_ok, Except.pure_eq_ok, List.forall₂_cons_left_iff, ih]
    constructor
    · rintro ⟨_, ⟨assessment, answered, rfl⟩, later, rest, rfl⟩
      exact ⟨_, later, ⟨rfl, answered⟩, rest, rfl⟩
    · rintro ⟨⟨_, assessment⟩, later, ⟨rfl, answered⟩, rest, rfl⟩
      exact ⟨_, ⟨assessment, answered, rfl⟩, later, rest, rfl⟩

theorem Answered.cells {evaluator : Evaluator K} {cells : List Cell} {answers : List (Cell × Assessment)}
    (answered : Answered evaluator grid cells answers) : answers.map (·.1) = cells := by
  induction answered with
  | nil => rfl
  | cons given _ ih => rw [List.map_cons, ih, given.1]

theorem Answered.status? {evaluator : Evaluator K} {cells : List Cell} {answers : List (Cell × Assessment)}
    (answered : Answered evaluator grid cells answers) (cell : Cell) :
    (answers.find? (·.1 = cell)).map (·.2.status) = if cell ∈ cells then statusAt? evaluator grid cell else none := by
  induction answered with
  | nil => simp
  | @cons first answer cells answers given _ ih =>
    obtain ⟨rfl, given⟩ := given
    rw [List.find?_cons]
    by_cases same : answer.1 = cell
    · subst same
      simp [statusAt?_of_answer given]
    · simp [same, Ne.symm same, ih]

theorem mem_operationalOf_iff {evaluator : Evaluator K} {cells : List Cell} {answers : List (Cell × Assessment)}
    (answered : Answered evaluator grid cells answers) (cell : Cell) :
    cell ∈ operationalOf answers ↔ cell ∈ cells ∧ statusAt? evaluator grid cell = some .operational := by
  unfold operationalOf
  induction answered with
  | nil => simp
  | @cons first answer cells answers given _ ih =>
    obtain ⟨rfl, given⟩ := given
    have status := statusAt?_of_answer given
    rw [List.filter_cons]
    by_cases works : answer.2.status = .operational
    · simp only [works, decide_true, if_true, List.map_cons, List.mem_cons, ih]
      rw [works] at status
      constructor
      · rintro (rfl | ⟨member, operational⟩)
        · exact ⟨.inl rfl, status⟩
        · exact ⟨.inr member, operational⟩
      · rintro ⟨rfl | member, operational⟩
        · exact .inl rfl
        · exact .inr ⟨member, operational⟩
    · simp only [works, decide_false, Bool.false_eq_true, if_false, List.mem_cons, ih]
      constructor
      · rintro ⟨member, operational⟩
        exact ⟨.inr member, operational⟩
      · rintro ⟨rfl | member, operational⟩
        · exact absurd (Option.some.inj (status.symm.trans operational)) works
        · exact ⟨member, operational⟩

/-- What judging a batch comes to: the statuses after it, and the cells that it found operational. -/
structure Evaluated (evaluator : Evaluator K) (sweep : Sweep grid) (batch found : List Cell) (after : Sweep grid) :
    Prop where
  status (cell : Cell) : after.domain.status? cell =
    (sweep.domain.status? cell).or (if cell ∈ batch then statusAt? evaluator grid cell else none)
  found (cell : Cell) : cell ∈ found ↔
    cell ∈ batch ∧ sweep.domain.status? cell = none ∧ statusAt? evaluator grid cell = some .operational

/-- A batch is judged by asking for its open cells in order and taking in the answers. -/
theorem evaluate_eq_ok_iff {evaluator : Evaluator K} {sweep : Sweep grid} {batch found : List Cell} {after : Sweep grid} :
    sweep.evaluate evaluator batch = .ok (found, after) ↔
      ∃ answers, Answered evaluator grid (openAmong sweep.domain batch) answers ∧ found = operationalOf answers ∧
        after = (sweep.report ([.taskStart (openAmong sweep.domain batch).length] ++ answers.map (fun _ => .taskStep) ++
          [.taskFinish])).taking answers := by
  simp only [Sweep.evaluate, Except.bind_eq_ok, Except.pure_eq_ok, mapM_eq_ok_iff]
  refine exists_congr fun answers => and_congr_right fun answered => ?_
  rw [foldl_record_openAmong answered.cells, Prod.mk.injEq, eq_comm (a := found), eq_comm (a := after)]

theorem evaluate_spec {evaluator : Evaluator K} {sweep : Sweep grid} {batch found : List Cell} {after : Sweep grid}
    (judged : sweep.evaluate evaluator batch = .ok (found, after)) : Evaluated evaluator sweep batch found after := by
  obtain ⟨answers, answered, rfl, rfl⟩ := evaluate_eq_ok_iff.mp judged
  constructor
  · intro cell
    refine (Domain.status?_recordAll sweep.domain answers cell).trans ?_
    rw [answered.status?]
    cases known : sweep.domain.status? cell with
    | none => simp [known]
    | some status => simp
  · intro cell
    rw [mem_operationalOf_iff answered, mem_openAmong, and_assoc]

theorem evaluate_total {evaluator : Evaluator K} {batch : List Cell}
    (answers : ∀ cell ∈ batch, ∃ assessment, evaluator (grid.parametersAt cell) = .ok assessment) (sweep : Sweep grid) :
    ∃ found after, sweep.evaluate evaluator batch = .ok (found, after) := by
  have given : ∀ cells : List Cell, (∀ cell ∈ cells, cell ∈ batch) → ∃ given, Answered evaluator grid cells given := by
    intro cells inside
    induction cells with
    | nil => exact ⟨[], .nil⟩
    | cons cell cells ih =>
      obtain ⟨assessment, answer⟩ := answers cell (inside cell List.mem_cons_self)
      obtain ⟨later, answered⟩ := ih fun other member => inside other (List.mem_cons_of_mem cell member)
      exact ⟨(cell, assessment) :: later, .cons ⟨rfl, answer⟩ answered⟩
  obtain ⟨given, answered⟩ := given (openAmong sweep.domain batch) fun cell member => ((mem_openAmong _).mp member).1
  exact ⟨_, _, evaluate_eq_ok_iff.mpr ⟨given, answered, rfl, rfl⟩⟩

end Sweep

end DanglingBond
