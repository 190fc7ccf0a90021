import Mathlib
import DanglingBond.Proofs.Charge.Index
import DanglingBond.Proofs.Search.Placement
import DanglingBond.Proofs.Stability.Bounds

/-!
The depth-first search loses nothing that it should find. When the levels follow a plan, charging
one block of sites after the other with bounds that hold for every valid assignment (`Plan`), an
infeasible branch has no valid assignment below it. A descent therefore visits a sublist of all
choices in their order, and without a timeout it misses only choices that no valid assignment agrees
with (`run_explored`).
-/

namespace DanglingBond

open Placement

variable {K : Type} [ExactScalar K] {g : Geometry K}

/-- Whatever valid charges the sites that are not placed yet take, what they induce lies within the
    reach. -/
def Reach.Covers (rest : Reach g) (placed : List (Fin g.size)) : Prop :=
  ∀ charges, g.IsValid charges → ∀ i : Fin g.size,
    rest[i].Contains (Surface.potentialOf g charges i - induced (restrict charges placed) i)

namespace Descent

/-- What the levels can charge together, in the order in which a descent comes to it. -/
def choices : List (Level g) → List (Placement g)
  | [] => [[]]
  | level :: levels => level.options.flatMap fun option => (choices levels).map (option ++ ·)

/-- The levels charge the last-named sites, block by block, after others are placed. Each level offers
    every placement of its block once, and among them those of all valid assignments. -/
inductive Plan : List (Fin g.size) → List (Level g) → List (Fin g.size) → Prop
  | done (placed : List (Fin g.size)) : Plan placed [] []
  | level {placed block later : List (Fin g.size)} {level : Level g} {levels : List (Level g)}
      (sites : ∀ option ∈ level.options, option.sites = block)
      (distinct : level.options.Nodup)
      (uses : ∀ option ∈ level.options, ∀ entry ∈ option, entry.2 ∈ Charge.ofBase g.params.base)
      (offered : ∀ charges, g.IsValid charges → restrict charges block ∈ level.options)
      (covers : level.rest.Covers (placed ++ block))
      (behind : Plan (placed ++ block) levels later) : Plan placed (level :: levels) (block ++ later)

namespace Plan

theorem sites_choices {placed later : List (Fin g.size)} {levels : List (Level g)} (plan : Plan placed levels later) :
    ∀ choice ∈ choices levels, choice.sites = later := by
  induction plan with
  | done placed =>
    intro choice member
    rw [List.mem_singleton.mp member]
    rfl
  | level sites distinct uses offered covers behind ih =>
    intro choice member
    obtain ⟨option, offer, below⟩ := List.mem_flatMap.mp member
    obtain ⟨rest, chosen, rfl⟩ := List.mem_map.mp below
    rw [sites_append, sites option offer, ih rest chosen]

theorem choices_distinct {placed later : List (Fin g.size)} {levels : List (Level g)}
    (plan : Plan placed levels later) : (choices levels).Nodup := by
  induction plan with
  | done placed => exact List.nodup_singleton []
  | level sites distinct uses offered covers behind ih =>
    refine List.nodup_flatMap.mpr ⟨?_, ?_⟩
    · intro option offer
      exact ih.map fun first second same => List.append_cancel_left same
    · refine distinct.imp_of_mem ?_
      intro option other offer otherOffer different choice first second
      obtain ⟨rest, _, rfl⟩ := List.mem_map.mp first
      obtain ⟨otherRest, _, same⟩ := List.mem_map.mp second
      have length : other.length = option.length := by
        have blocks := (sites other otherOffer).trans (sites option offer).symm
        simpa [Placement.sites] using congrArg List.length blocks
      exact different (List.append_inj_left same length).symm

theorem uses_choices {placed later : List (Fin g.size)} {levels : List (Level g)} (plan : Plan placed levels later) :
    ∀ choice ∈ choices levels, ∀ entry ∈ choice, entry.2 ∈ Charge.ofBase g.params.base := by
  induction plan with
  | done placed => simp [choices]
  | level sites distinct uses offered covers behind ih =>
    intro choice member entry inside
    obtain ⟨option, offer, below⟩ := List.mem_flatMap.mp member
    obtain ⟨rest, chosen, rfl⟩ := List.mem_map.mp below
    rcases List.mem_append.mp inside with first | later
    · exact uses option offer entry first
    · exact ih rest chosen entry later

/-- Assignments that come of different choices, and agree with them, are different. -/
theorem expand_distinct {placed later : List (Fin g.size)} {levels : List (Level g)} (plan : Plan placed levels later)
    {visited : List (Placement g)} (visits : visited.Sublist (choices levels))
    {expand : Placement g → List (Vector Charge g.size)} (each : ∀ choice ∈ choices levels, (expand choice).Nodup)
    (agrees : ∀ choice ∈ choices levels, ∀ charges ∈ expand choice, Agrees charges choice) :
    (visited.flatMap expand).Nodup := by
  refine List.nodup_flatMap.mpr ⟨?_, ?_⟩
  · intro choice seen
    exact each choice (visits.subset seen)
  · refine (visits.nodup plan.choices_distinct).imp_of_mem ?_
    intro choice other seen otherSeen different charges first second
    have known := (agrees choice (visits.subset seen) charges first).eq_restrict
    have otherKnown := (agrees other (visits.subset otherSeen) charges second).eq_restrict
    rw [plan.sites_choices choice (visits.subset seen)] at known
    rw [plan.sites_choices other (visits.subset otherSeen)] at otherKnown
    exact different (known.trans otherKnown.symm)

/-- The charges of a valid assignment are among the choices. -/
theorem restrict_mem_choices {placed later : List (Fin g.size)} {levels : List (Level g)}
    (plan : Plan placed levels later) {charges : Vector Charge g.size} (valid : g.IsValid charges) :
    restrict charges later ∈ choices levels := by
  induction plan with
  | done placed => exact List.mem_singleton_self _
  | level sites distinct uses offered covers behind ih =>
    rw [restrict_append]
    exact List.mem_flatMap.mpr ⟨_, offered charges valid, List.mem_map_of_mem ih⟩

end Plan

/-- Where a valid assignment lies below a node, the node is feasible. -/
theorem feasible_of_valid {charges : Vector Charge g.size} (valid : g.IsValid charges) {history : Placement g}
    (agrees : Agrees charges history) {carried : Vector K g.size} (known : ∀ i : Fin g.size, carried[i] = induced history i)
    {rest : Reach g} (covers : rest.Covers history.sites) :
    (PartialAssignment.empty.placeAll history).Feasible .standard carried rest := by
  intro site assigned
  rw [assigned_placeAll] at assigned
  have placed : site ∈ history.sites := assigned
  have potential : Surface.potentialOf g charges site =
      carried[site] + (Surface.potentialOf g charges site - induced (restrict charges history.sites) site) := by
    rw [known, ← agrees.eq_restrict]
    ring
  have stable := valid.stateStable site
  rw [potential] at stable
  rw [charges_placeAll_of_agrees _ agrees placed]
  exact stable.mayBeStableWith (covers charges valid site)

/-- What a descent below a history has done: it visited some of the choices in their order, found
    what comes of them, and left the carried potentials as they were. -/
structure Explored (complete : Vector Charge g.size → List (Surface g)) (history : Placement g)
    (choices : List (Placement g)) (before after : Progress g) (visited : List (Placement g)) : Prop where
  visits : visited.Sublist choices
  found : after.found = (visited.flatMap fun choice => complete (leaf history choice)).reverse ++ before.found
  induced : after.induced = before.induced
  expired : before.timedOut = true → after.timedOut = true
  missed : after.timedOut = false → ∀ choice ∈ choices, choice ∉ visited →
    ∀ charges, g.IsValid charges → ¬ Agrees charges (history ++ choice)

namespace Explored

variable {complete : Vector Charge g.size → List (Surface g)} {history : Placement g}

theorem stopped (choices : List (Placement g)) {progress : Progress g} (timedOut : progress.timedOut = true) :
    Explored complete history choices progress progress [] := by
  refine ⟨List.nil_sublist _, rfl, rfl, id, ?_⟩
  intro running
  rw [timedOut] at running
  contradiction

theorem cut (choices : List (Placement g)) (progress : Progress g)
    (hopeless : ∀ charges, g.IsValid charges → ¬ Agrees charges history) :
    Explored complete history choices progress progress [] := by
  refine ⟨List.nil_sublist _, rfl, rfl, id, ?_⟩
  intro _ choice _ _ charges valid agrees
  exact hopeless charges valid (agrees_append.mp agrees).1

theorem append {first second : List (Placement g)} {before middle after : Progress g} {visited later : List (Placement g)}
    (explored : Explored complete history first before middle visited)
    (next : Explored complete history second middle after later) :
    Explored complete history (first ++ second) before after (visited ++ later) := by
  refine ⟨explored.visits.append next.visits, ?_, next.induced.trans explored.induced,
    fun expired => next.expired (explored.expired expired), ?_⟩
  · rw [next.found, explored.found, List.flatMap_append, List.reverse_append, List.append_assoc]
  · intro running choice member missed
    obtain ⟨early, late⟩ := not_or.mp (mt List.mem_append.mpr missed)
    rcases List.mem_append.mp member with inFirst | inSecond
    · have going : middle.timedOut = false := by
        rw [← Bool.not_eq_true]
        intro expired
        rw [next.expired expired] at running
        contradiction
      exact explored.missed going choice inFirst early
    · exact next.missed running choice inSecond late

/-- Everything below an option, seen from the node that offers it. -/
theorem below {option : Placement g} {choices : List (Placement g)} {before after : Progress g}
    {visited : List (Placement g)}
    (explored : Explored complete (history ++ option) choices (before.enter option) after visited) :
    Explored complete history (choices.map (option ++ ·)) before (after.leave option) (visited.map (option ++ ·)) := by
  refine ⟨explored.visits.map _, ?_, Progress.leave_induced explored.induced, explored.expired, ?_⟩
  · have found : (after.leave option).found = after.found := rfl
    rw [found, explored.found, List.flatMap_map]
    simp only [leaf, List.append_assoc]
    rfl
  · intro running choice member missed charges valid agrees
    obtain ⟨rest, chosen, rfl⟩ := List.mem_map.mp member
    have unseen : rest ∉ visited := fun seen => missed (List.mem_map_of_mem seen)
    rw [← List.append_assoc] at agrees
    exact explored.missed running rest chosen unseen charges valid agrees

end Explored

private theorem explored_visit {descent : Descent g} {history : Placement g} {choices : List (Placement g)}
    {progress after : Progress g} {visited : List (Placement g)}
    (explored : Explored descent.complete history choices (descent.visit progress) after visited) :
    Explored descent.complete history choices progress after visited := by
  refine ⟨explored.visits, explored.found, explored.induced, ?_, explored.missed⟩
  intro expired
  exact explored.expired (by simp [visit, expired])

/-- The options of one level, one after the other. -/
private theorem foldl_explored {complete : Vector Charge g.size → List (Surface g)} {history : Placement g}
    {later : List (Placement g)} {branch : Progress g → Placement g → Progress g} (options : List (Placement g))
    (explored : ∀ option ∈ options, ∀ progress : Progress g,
      (∀ i : Fin g.size, progress.induced[i] = induced history i) →
      ∃ visited, Explored complete history (later.map (option ++ ·)) progress (branch progress option) visited)
    (progress : Progress g) (known : ∀ i : Fin g.size, progress.induced[i] = induced history i) :
    ∃ visited, Explored complete history (options.flatMap fun option => later.map (option ++ ·)) progress
      (options.foldl branch progress) visited := by
  induction options generalizing progress with
  | nil =>
    refine ⟨[], List.nil_sublist _, rfl, rfl, id, ?_⟩
    intro _ choice member
    contradiction
  | cons option options ih =>
    obtain ⟨visited, first⟩ := explored option List.mem_cons_self progress known
    have kept : ∀ i : Fin g.size, (branch progress option).induced[i] = induced history i := by
      intro i
      rw [first.induced]
      exact known i
    obtain ⟨others, rest⟩ := ih (fun other member => explored other (List.mem_cons_of_mem option member)) _ kept
    exact ⟨visited ++ others, first.append rest⟩

/-- Leaving out a node that is not feasible misses nothing. -/
theorem feasible_explored {descent : Descent g} (standard : descent.checker = .standard) {history : Placement g}
    {levels : List (Level g)} {rest : Reach g} (covers : rest.Covers history.sites) {progress : Progress g}
    (known : ∀ i : Fin g.size, progress.induced[i] = induced history i)
    (explored : ∃ visited, Explored descent.complete history (choices levels) progress
      (descent.run levels (PartialAssignment.empty.placeAll history) progress) visited) :
    ∃ visited, Explored descent.complete history (choices levels) progress
      (if (PartialAssignment.empty.placeAll history).Feasible descent.checker progress.induced rest then
        descent.run levels (PartialAssignment.empty.placeAll history) progress else progress) visited := by
  by_cases feasible : (PartialAssignment.empty.placeAll history).Feasible descent.checker progress.induced rest
  · rw [if_pos feasible]
    exact explored
  · rw [if_neg feasible]
    refine ⟨[], .cut _ progress ?_⟩
    intro charges valid agrees
    rw [standard] at feasible
    exact feasible (feasible_of_valid valid agrees known covers)

private theorem entered_known {progress : Progress g} {history : Placement g}
    (known : ∀ i : Fin g.size, progress.induced[i] = induced history i) (option : Placement g) (i : Fin g.size) :
    (progress.enter option).induced[i] = induced (history ++ option) i := by
  rw [Progress.enter_induced, known, induced_append]

theorem start_known (option : Placement g) (i : Fin g.size) :
    (Progress.start.enter option).induced[i] = induced option i := by
  have nothing : (Progress.start : Progress g).induced[i] = 0 := by simp [Progress.start]
  rw [Progress.enter_induced, nothing, zero_add]

/-- A descent explores all choices of its levels. -/
theorem run_explored {descent : Descent g} (standard : descent.checker = .standard) {levels : List (Level g)}
    {history : Placement g} {later : List (Fin g.size)} (plan : Plan history.sites levels later) (progress : Progress g)
    (known : ∀ i : Fin g.size, progress.induced[i] = induced history i) :
    ∃ visited, Explored descent.complete history (choices levels) progress
      (descent.run levels (PartialAssignment.empty.placeAll history) progress) visited := by
  induction levels generalizing history later progress with
  | nil =>
    rw [run]
    by_cases expired : (descent.visit progress).timedOut = true
    · rw [if_pos expired]
      exact ⟨[], explored_visit (.stopped _ expired)⟩
    · rw [if_neg expired]
      refine ⟨[[]], explored_visit ⟨List.Sublist.refl _, ?_, rfl, id, ?_⟩⟩
      · simp [leaf]
      · intro _ choice member missed
        exact absurd member missed
  | cons level levels ih =>
    rw [run]
    by_cases expired : (descent.visit progress).timedOut = true
    · rw [if_pos expired]
      exact ⟨[], explored_visit (.stopped _ expired)⟩
    · rw [if_neg expired]
      cases plan with
      | level sites distinct uses offered covers behind =>
        -- A branch begins with the potentials that its history induces, and leaves them to the next one.
        have branch (option : Placement g) (offer : option ∈ level.options) (progress : Progress g)
            (known : ∀ i : Fin g.size, progress.induced[i] = induced history i) :
            ∃ visited, Explored descent.complete (history ++ option) (choices levels) (progress.enter option)
              (if ((PartialAssignment.empty.placeAll history).placeAll option).Feasible descent.checker
                  (progress.enter option).induced level.rest then
                descent.run levels ((PartialAssignment.empty.placeAll history).placeAll option) (progress.enter option)
              else progress.enter option) visited := by
          rw [← sites option offer, ← sites_append] at covers behind
          rw [← placeAll_append]
          have entered := entered_known known option
          exact feasible_explored standard covers entered (ih behind _ entered)
        obtain ⟨visited, explored⟩ := foldl_explored level.options (fun option offer progress known =>
          (branch option offer progress known).imp' (·.map (option ++ ·)) fun _ explored => explored.below)
          (descent.visit progress) known
        exact ⟨visited, explored_visit explored⟩

namespace Plan

variable {history : Placement g} {levels : List (Level g)} {later : List (Fin g.size)}

theorem leaf_agrees (plan : Plan history.sites levels later) (distinct : (history.sites ++ later).Nodup)
    {choice : Placement g} (chosen : choice ∈ choices levels) : Agrees (leaf history choice) (history ++ choice) := by
  apply placeAll_agrees
  rw [sites_append, plan.sites_choices choice chosen]
  exact distinct

theorem leaf_uses (plan : Plan history.sites levels later)
    (before : ∀ entry ∈ history, entry.2 ∈ Charge.ofBase g.params.base) {choice : Placement g}
    (chosen : choice ∈ choices levels) (i : Fin g.size) : (leaf history choice)[i] ∈ Charge.ofBase g.params.base := by
  refine charges_placeAll_forall (· ∈ Charge.ofBase g.params.base) _ ?_ ?_ i
  · intro j
    simpa [PartialAssignment.empty] using Charge.negative_mem_ofBase g.params.base
  · intro entry inside
    rcases List.mem_append.mp inside with first | second
    · exact before entry first
    · exact plan.uses_choices choice chosen entry second

end Plan

/-- A descent whose leaves keep the valid ones among their completions finds the valid ones among
    different assignments, and among all of them unless the time limit was reached. -/
theorem Explored.spec {history : Placement g} {levels : List (Level g)} {later : List (Fin g.size)}
    (plan : Plan history.sites levels later) {complete : Vector Charge g.size → List (Surface g)}
    {before after : Progress g} {visited : List (Placement g)}
    (explored : Explored complete history (choices levels) before after visited) (nothing : before.found = [])
    {start : Surface g} {completions : Vector Charge g.size → List (Vector Charge g.size)}
    (kept : ∀ charges, complete charges = start.validOf (completions charges))
    (distinct : ∀ charges, (completions charges).Nodup)
    (agrees : ∀ choice ∈ choices levels, ∀ completed ∈ completions (leaf history choice), Agrees completed choice)
    (uses : ∀ choice ∈ choices levels, ∀ completed ∈ completions (leaf history choice),
      ∀ i : Fin g.size, completed[i] ∈ Charge.ofBase g.params.base)
    (reached : ∀ charges, g.IsValid charges →
      Agrees charges history ∧ charges ∈ completions (leaf history (restrict charges later))) :
    ∃ assignments, start.Selects after.found assignments ∧
      (after.timedOut = false → ∀ charges, g.IsValid charges → charges ∈ assignments) := by
  refine ⟨visited.flatMap fun choice => completions (leaf history choice), ⟨?_, ?_, ?_⟩, ?_⟩
  · rw [explored.found, nothing, List.append_nil, Surface.validOf_flatMap]
    simp only [kept]
    exact List.reverse_perm _
  · exact plan.expand_distinct explored.visits (fun choice _ => distinct _) agrees
  · intro completed member
    obtain ⟨choice, seen, member⟩ := List.mem_flatMap.mp member
    exact uses choice (explored.visits.subset seen) completed member
  · intro running charges valid
    obtain ⟨before, member⟩ := reached charges valid
    refine List.mem_flatMap.mpr ⟨restrict charges later, ?_, member⟩
    by_contra missed
    exact explored.missed running _ (plan.restrict_mem_choices valid) missed charges valid
      (agrees_append.mpr ⟨before, restrict_agrees charges later⟩)

end Descent

end DanglingBond
