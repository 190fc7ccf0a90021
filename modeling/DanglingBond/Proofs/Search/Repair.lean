import Mathlib
import DanglingBond.Proofs.Stability.Relaxation
import DanglingBond.Search.Growth

/-!
Repairing a surface goes downhill. A site is only moved when it is unstable, and where its local potential
leads it the grand potential is lower by the tolerance at least (`Checker.relaxed_cost`). The changes of a pass
and of a whole repair (`changesOf`, `repairChanges`) are therefore a descent on clean surfaces (`Traces`),
which comes to no assignment twice. A pass that changes nothing leaves no site unstable that could
move (`quiet_pass`, `Checker.relaxed_eq`), and this is how a repair ends unless its passes run out
(`repair_descends`).
-/

namespace DanglingBond

namespace Growth

section
variable {K : Type} [Scalar K] {g : Geometry K}

/-- The surfaces that come of the changes of one pass over some sites, change by change. -/
def changesOf (checker : Checker K) : List (Fin g.size) → Surface g → List (Surface g)
  | [], _ => []
  | site :: sites, s =>
    let (next, changed) := repairSite checker (s, false) site
    if changed then next :: changesOf checker sites next else changesOf checker sites next

/-- The surfaces that come of the changes of a repair, pass by pass. -/
def repairChanges (checker : Checker K) : Nat → Surface g → List (Surface g)
  | 0, _ => []
  | passes + 1, s =>
    let (after, changed) := (List.finRange g.size).foldl (repairSite checker) (s, false)
    changesOf checker (List.finRange g.size) s ++ if changed then repairChanges checker passes after else []

/-- A repair leaves a site alone, unless it is unstable and its local potential leads it elsewhere. -/
theorem repairSite_cases (checker : Checker K) (s : Surface g) (site : Fin g.size) :
    (checker.StateStable g.params s.charges[site] s.potentials[site] ∨
        Checker.relaxed g.params g.params.base s.potentials[site] = s.charges[site]) ∧
      (∀ changed, repairSite checker (s, changed) site = (s, changed)) ∨
    ¬ checker.StateStable g.params s.charges[site] s.potentials[site] ∧
      Checker.relaxed g.params g.params.base s.potentials[site] ≠ s.charges[site] ∧
      ∀ changed, repairSite checker (s, changed) site =
        (s.set site (Checker.relaxed g.params g.params.base s.potentials[site]), true) := by
  by_cases stable : checker.StateStable g.params s.charges[site] s.potentials[site]
  · exact .inl ⟨.inl stable, fun _ => if_pos stable⟩
  · by_cases stays : Checker.relaxed g.params g.params.base s.potentials[site] = s.charges[site]
    · exact .inl ⟨.inr stays, fun _ => (if_neg stable).trans (if_pos stays)⟩
    · exact .inr ⟨stable, stays, fun _ => (if_neg stable).trans (if_neg stays)⟩

/-- A pass that reports no change has changed nothing, and found no site to move. -/
theorem quiet_pass {checker : Checker K} {sites : List (Fin g.size)} {s : Surface g} {changed : Bool}
    (quiet : (sites.foldl (repairSite checker) (s, changed)).2 = false) :
    changed = false ∧ sites.foldl (repairSite checker) (s, changed) = (s, false) ∧
      ∀ site ∈ sites, checker.StateStable g.params s.charges[site] s.potentials[site] ∨
        Checker.relaxed g.params g.params.base s.potentials[site] = s.charges[site] := by
  induction sites generalizing s changed with
  | nil => exact ⟨quiet, congrArg (s, ·) quiet, fun _ member => absurd member List.not_mem_nil⟩
  | cons site sites ih =>
    rw [List.foldl_cons] at quiet ⊢
    rcases repairSite_cases checker s site with ⟨settled, same⟩ | ⟨_, _, moved⟩
    · rw [same] at quiet ⊢
      obtain ⟨before, unchanged, others⟩ := ih quiet
      exact ⟨before, unchanged, List.forall_mem_cons.mpr ⟨settled, others⟩⟩
    · rw [moved] at quiet
      exact absurd (ih quiet).1 (by decide)

/-- After a quiet pass nothing more happens. -/
theorem repair_of_quiet {checker : Checker K} {earlier passes : Nat} {s : Surface g} (within : earlier < passes)
    (quiet : ((List.finRange g.size).foldl (repairSite checker) (repair checker earlier s, false)).2 = false) :
    repair checker passes s = repair checker earlier s := by
  induction earlier generalizing passes s with
  | zero =>
    obtain ⟨rest, rfl⟩ := Nat.exists_eq_succ_of_ne_zero (Nat.ne_of_gt within)
    obtain ⟨_, unchanged, _⟩ := quiet_pass (s := s) quiet
    simp [repair, unchanged]
  | succ earlier ih =>
    obtain ⟨rest, rfl⟩ := Nat.exists_eq_succ_of_ne_zero (Nat.ne_of_gt (Nat.zero_lt_of_lt within))
    simp only [repair] at quiet ⊢
    split
    · rename_i changed
      rw [if_pos changed] at quiet
      exact ih (Nat.lt_of_succ_lt_succ within) quiet
    · rfl

end

variable {K : Type} [ExactScalar K] {g : Geometry K} {checker : Checker K}

/-- One site has changed its charge, and the grand potential has fallen by the tolerance at least. -/
structure Descends (checker : Checker K) (before after : Surface g) : Prop where
  change : ∃ site state, state ≠ before.charges[site] ∧ after = before.set site state
  lower : g.grandPotential g.params after.charges ≤ g.grandPotential g.params before.charges - checker.tolerance

/-- The changes lead downhill from one surface to another, and all surfaces on the way are clean. -/
structure Traces (checker : Checker K) (before : Surface g) (changes : List (Surface g)) (after : Surface g) : Prop where
  reaches : (before :: changes).getLast? = some after
  descends : (before :: changes).IsChain (Descends checker)
  current : ∀ s ∈ before :: changes, s.Current

namespace Traces

variable {before middle after : Surface g} {changes later : List (Surface g)}

theorem nothing (current : before.Current) : Traces checker before [] before :=
  ⟨rfl, List.isChain_singleton before, List.forall_mem_singleton.mpr current⟩

theorem cons (current : before.Current) (step : Descends checker before middle) (next : Traces checker middle later after) :
    Traces checker before (middle :: later) after :=
  ⟨by rw [List.getLast?_cons_cons, next.reaches], List.isChain_cons_cons.mpr ⟨step, next.descends⟩,
    List.forall_mem_cons.mpr ⟨current, next.current⟩⟩

theorem append (first : Traces checker before changes middle) (next : Traces checker middle later after) :
    Traces checker before (changes ++ later) after := by
  induction changes generalizing before with
  | nil =>
    obtain rfl : before = middle := Option.some.inj first.reaches
    exact next
  | cons change changes ih =>
    obtain ⟨step, descends⟩ := List.isChain_cons_cons.mp first.descends
    obtain ⟨current, others⟩ := List.forall_mem_cons.mp first.current
    have reaches := first.reaches
    rw [List.getLast?_cons_cons] at reaches
    exact cons current step (ih ⟨reaches, descends, others⟩)

/-- Downhill no assignment is met again. -/
theorem distinct (tolerant : 0 < checker.tolerance) (traces : Traces checker before changes after) :
    ((before :: changes).map (·.charges)).Nodup := by
  have lower : (before :: changes).IsChain fun s t =>
      g.grandPotential g.params t.charges < g.grandPotential g.params s.charges :=
    traces.descends.imp fun s t step => by linarith [step.lower]
  have : IsTrans (Surface g) fun s t => g.grandPotential g.params t.charges < g.grandPotential g.params s.charges :=
    ⟨fun _ _ _ first next => next.trans first⟩
  refine List.pairwise_map.mpr ((List.isChain_iff_pairwise.mp lower).imp ?_)
  intro s t below same
  rw [same] at below
  exact lt_irrefl _ below

end Traces

/-- Moving an unstable site is a step downhill. -/
theorem descends_set (reciprocal : g.Reciprocal) (tolerant : 0 < checker.tolerance) {s : Surface g} (current : s.Current)
    {site : Fin g.size} (unstable : ¬ checker.StateStable g.params s.charges[site] s.potentials[site])
    (moves : Checker.relaxed g.params g.params.base s.potentials[site] ≠ s.charges[site]) :
    Descends checker s (s.set site (Checker.relaxed g.params g.params.base s.potentials[site])) := by
  refine ⟨⟨site, _, moves, rfl⟩, ?_⟩
  have cost := Checker.relaxed_cost tolerant unstable moves
  rw [current.set_eq reciprocal, Surface.charged_charges, Geometry.grandPotential_put reciprocal,
    ← current.accurate.potential_eq]
  linarith

theorem pass_traces (reciprocal : g.Reciprocal) (tolerant : 0 < checker.tolerance) (sites : List (Fin g.size))
    {s : Surface g} (current : s.Current) (changed : Bool) :
    Traces checker s (changesOf checker sites s) (sites.foldl (repairSite checker) (s, changed)).1 := by
  induction sites generalizing s changed with
  | nil => exact Traces.nothing current
  | cons site sites ih =>
    rw [List.foldl_cons, changesOf]
    rcases repairSite_cases checker s site with ⟨_, same⟩ | ⟨unstable, moves, moved⟩
    · rw [same, same]
      exact ih current changed
    · rw [moved, moved]
      exact Traces.cons current (descends_set reciprocal tolerant current unstable moves)
        (ih (current.set reciprocal site _) true)

theorem repair_traces (reciprocal : g.Reciprocal) (tolerant : 0 < checker.tolerance) (passes : Nat) {s : Surface g}
    (current : s.Current) : Traces checker s (repairChanges checker passes s) (repair checker passes s) := by
  induction passes generalizing s with
  | zero => exact Traces.nothing current
  | succ passes ih =>
    have pass := pass_traces reciprocal tolerant (List.finRange g.size) current false
    simp only [repair, repairChanges]
    split
    · refine pass.append (ih ?_)
      exact pass.current _ (List.mem_of_getLast? pass.reaches)
    · rw [List.append_nil]
      exact pass

/-- A site that a quiet pass leaves unstable is a neutral one that is not offered the positive charge. -/
theorem settled_of_quiet (tolerant : 0 < checker.tolerance) {s : Surface g}
    (quiet : ((List.finRange g.size).foldl (repairSite checker) (s, false)).2 = false) {site : Fin g.size}
    (unstable : ¬ checker.StateStable g.params s.charges[site] s.potentials[site]) :
    g.params.base < 3 ∧ s.charges[site] = .neutral ∧ checker.tolerance ≤ -s.potentials[site] + g.params.muPlus := by
  obtain ⟨_, _, settled⟩ := quiet_pass quiet
  exact Checker.relaxed_eq tolerant unstable ((settled site (List.mem_finRange site)).resolve_left unstable)

end Growth

variable {K : Type} [ExactScalar K] {g : Geometry K} {checker : Checker K}

/-- Repairing a clean surface, with whatever positive tolerance and however many passes, changes one charge
    after the other, and each change lowers the grand potential by the tolerance at least. So no
    assignment is met twice on the way, on which the surface stays clean. When a pass changes nothing, the
    repair ends with a population stable surface in base three, and in base two with one on which only
    neutral sites are unstable that would lose an electron. -/
theorem repair_descends (reciprocal : g.Reciprocal) (tolerant : 0 < checker.tolerance) {s : Surface g}
    (current : s.Current) (passes : Nat) :
    let run := s :: Growth.repairChanges checker passes s
    let final := Growth.repair checker passes s
    run.getLast? = some final ∧ run.IsChain (Growth.Descends checker) ∧ (run.map (·.charges)).Nodup ∧
      (∀ t ∈ run, t.Current) ∧
      ((∃ earlier < passes, ((List.finRange g.size).foldl (Growth.repairSite checker)
          (Growth.repair checker earlier s, false)).2 = false) →
        (g.params.base = 3 → checker.PopulationStable g.params final) ∧
        (g.params.base = 2 → ∀ i : Fin g.size, ¬ checker.StateStable g.params final.charges[i] final.potentials[i] →
          final.charges[i] = .neutral ∧ checker.tolerance ≤ -final.potentials[i] + g.params.muPlus)) := by
  have traces := Growth.repair_traces reciprocal tolerant passes current
  refine ⟨traces.reaches, traces.descends, traces.distinct tolerant, traces.current, ?_⟩
  rintro ⟨earlier, within, quiet⟩
  rw [Growth.repair_of_quiet within quiet]
  constructor
  · intro three
    refine (Surface.populationStable_iff _ checker g.params).mpr fun i => ?_
    by_contra unstable
    exact absurd three (Nat.ne_of_lt (Growth.settled_of_quiet tolerant quiet unstable).1)
  · intro _ i unstable
    exact (Growth.settled_of_quiet tolerant quiet unstable).2

/-- Of two negative sites half a volt apart the first turns neutral, and then both are stable. -/
theorem repair_descends_pair :
    ∃ s : Surface Geometry.pair, s.Current ∧ s.states = [.negative, .negative] ∧
      (Growth.repair .standard 2 s).states = [.neutral, .negative] ∧
      (s :: Growth.repairChanges .standard 2 s).IsChain (Growth.Descends .standard) ∧
      (Checker.standard : Checker ℚ).PopulationStable .standard (Growth.repair .standard 2 s) := by
  have current := Surface.charged_current (Surface.ofGeometry Geometry.pair) #v[.negative, .negative]
  obtain ⟨_, descends, _, _, settled⟩ :=
    repair_descends Geometry.pair_repulsive.toReciprocal Checker.standard_tolerant current 2
  exact ⟨_, current, rfl, by decide +kernel, descends, (settled ⟨1, by decide, by decide +kernel⟩).1 rfl⟩

end DanglingBond
