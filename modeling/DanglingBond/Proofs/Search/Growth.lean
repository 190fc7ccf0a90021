import Mathlib
import DanglingBond.Proofs.Search.Exhaustive
import DanglingBond.Proofs.Stability.Relaxation
import DanglingBond.Search.Simulation

/-!
Random growth is sound. Sites are charged in place one after the other, and every surface on the way is
the one that computing everything anew gives for some charges of the base (`Grown`): growing and repairing
keep this, whatever is drawn. What is found has been refreshed and judged (`Kept`), so that nothing but
valid assignments is left after sorting and leaving out the repeats (`growth_sound`).
-/

namespace DanglingBond

namespace Growth

section
variable {K : Type} {g : Geometry K}

theorem dropRepeats_sublist (last : Surface g) (others : List (Surface g)) :
    (withoutRepeats.dropRepeats last others).Sublist others := by
  induction others generalizing last with
  | nil => exact List.Sublist.refl []
  | cons s others ih =>
    unfold withoutRepeats.dropRepeats
    by_cases same : s.charges = last.charges
    · rw [if_pos same]
      exact (ih last).cons s
    · rw [if_neg same]
      exact (ih s).cons_cons s

theorem withoutRepeats_sublist (surfaces : List (Surface g)) : (withoutRepeats surfaces).Sublist surfaces := by
  cases surfaces with
  | nil => exact List.Sublist.refl []
  | cons first others => exact (dropRepeats_sublist first others).cons_cons first

private theorem dropRepeats_increasing {last : Surface g} {others : List (Surface g)}
    (sorted : (last :: others).Pairwise fun s t => s.digits ≤ t.digits) :
    (last :: withoutRepeats.dropRepeats last others).Pairwise fun s t => s.digits < t.digits := by
  induction others generalizing last with
  | nil => exact List.pairwise_singleton _ last
  | cons s others ih =>
    obtain ⟨least, later⟩ := List.pairwise_cons.mp sorted
    unfold withoutRepeats.dropRepeats
    by_cases same : s.charges = last.charges
    · rw [if_pos same]
      exact ih (sorted.sublist ((List.sublist_cons_self s others).cons_cons last))
    · rw [if_neg same]
      have increasing := ih later
      have less : last.digits < s.digits :=
        lt_of_le_of_ne (least s List.mem_cons_self) fun digits => same (Surface.charges_eq_of_digits digits.symm)
      refine List.pairwise_cons.mpr ⟨?_, increasing⟩
      intro t member
      rcases List.mem_cons.mp member with rfl | behind
      · exact less
      · exact less.trans ((List.pairwise_cons.mp increasing).1 t behind)

/-- In a sorted list equal assignments are neighbours, so without repeats it is strictly increasing. -/
theorem withoutRepeats_increasing {surfaces : List (Surface g)}
    (sorted : surfaces.Pairwise fun s t => s.digits ≤ t.digits) :
    (withoutRepeats surfaces).Pairwise fun s t => s.digits < t.digits := by
  cases surfaces with
  | nil => exact List.Pairwise.nil
  | cons first others => exact dropRepeats_increasing sorted

end

variable {K : Type} [ExactScalar K] {g : Geometry K}

/-- The surface has charges of the base, and everything on it is as computed anew. -/
structure Grown (s : Surface g) : Prop where
  uses (i : Fin g.size) : s.charges[i] ∈ Charge.ofBase g.params.base
  computed : s = Surface.fresh g s.charges

/-- The surface has a valid assignment, and everything on it is as computed anew. -/
structure Kept (s : Surface g) : Prop where
  valid : g.IsValid s.charges
  computed : s = Surface.fresh g s.charges

theorem grown_fresh {charges : Vector Charge g.size} (uses : ∀ i : Fin g.size, charges[i] ∈ Charge.ofBase g.params.base) :
    Grown (Surface.fresh g charges) := by
  refine ⟨fun i => ?_, ?_⟩
  · rw [Surface.fresh_charges]
    exact uses i
  · rw [Surface.fresh_charges]

theorem uniformSurface_grown {state : Charge} (offered : state ∈ Charge.ofBase g.params.base) :
    Grown (uniformSurface g state) := by
  apply grown_fresh
  intro i
  rw [Vector.at_replicate]
  exact offered

namespace Grown

variable {s : Surface g}

/-- Charging a site in place is one step of all that growth does. -/
theorem set (reciprocal : g.Reciprocal) (grown : Grown s) (site : Fin g.size) {state : Charge}
    (offered : state ∈ Charge.ofBase g.params.base) : Grown (s.set site state) := by
  have charged : s.set site state = Surface.fresh g (s.charges.put site state) := by
    rw [grown.computed, Surface.fresh_charges, Surface.fresh_eq_charged, Surface.charged_set reciprocal,
      Surface.fresh_eq_charged]
  rw [charged]
  apply grown_fresh
  intro i
  rw [Vector.at_put]
  split
  · exact offered
  · exact grown.uses i

theorem refresh (grown : Grown s) : s.refresh = s := by
  rw [grown.computed, Surface.refresh_fresh]

theorem kept (grown : Grown s) (valid : s.PhysicallyValid) : Kept s := by
  refine ⟨⟨grown.uses, ?_⟩, grown.computed⟩
  rw [← grown.computed]
  exact valid

theorem repairSite (reciprocal : g.Reciprocal) (checker : Checker K) (grown : Grown s) (changed : Bool)
    (site : Fin g.size) : Grown (repairSite checker (s, changed) site).1 := by
  unfold Growth.repairSite
  dsimp only
  split
  · exact grown
  · split
    · exact grown
    · exact grown.set reciprocal site (Checker.relaxed_mem_ofBase g.params g.params.base _)

theorem foldl_repairSite (reciprocal : g.Reciprocal) (checker : Checker K) (grown : Grown s) (changed : Bool)
    (sites : List (Fin g.size)) : Grown (sites.foldl (Growth.repairSite checker) (s, changed)).1 := by
  induction sites generalizing s changed with
  | nil => exact grown
  | cons site sites ih => exact ih (grown.repairSite reciprocal checker changed site) _

theorem repair (reciprocal : g.Reciprocal) (checker : Checker K) (passes : Nat) (grown : Grown s) :
    Grown (repair checker passes s) := by
  induction passes generalizing s with
  | zero => exact grown
  | succ passes ih =>
    have pass := grown.foldl_repairSite reciprocal checker false (List.finRange g.size)
    unfold Growth.repair
    dsimp only
    split
    · exact ih pass
    · exact pass

end Grown

variable {σ : Type} [RandomSource σ]

/-- Whichever candidate is drawn, it turns negative. -/
theorem extend?_grown (reciprocal : g.Reciprocal) {alpha : K} {s extended : Surface g} {random next : σ} (grown : Grown s)
    (drawn : extend? alpha s random = some (extended, next)) : Grown extended := by
  obtain ⟨⟨site, _⟩, _, same⟩ := Option.map_eq_some_iff.mp drawn
  obtain ⟨rfl, _⟩ := Prod.mk.inj same
  exact grown.set reciprocal site (Charge.negative_mem_ofBase _)

/-- Growing keeps valid assignments only. -/
theorem grow_kept (reciprocal : g.Reciprocal) (alpha : K) (steps : Nat) {s : Surface g} (grown : Grown s) (random : σ)
    {found : List (Surface g)} (before : ∀ t ∈ found, Kept t) : ∀ t ∈ (grow alpha steps s random found).1, Kept t := by
  induction steps generalizing s random found with
  | zero => exact before
  | succ steps ih =>
    unfold grow
    cases drawn : extend? alpha s random with
    | none => exact before
    | some extension =>
      obtain ⟨extended, next⟩ := extension
      have repaired := (extend?_grown reciprocal grown drawn).repair reciprocal .standard g.size
      refine ih repaired next ?_
      rw [repaired.refresh]
      by_cases valid : (repair .standard g.size extended).PhysicallyValid
      · rw [if_pos valid]
        exact List.forall_mem_cons.mpr ⟨repaired.kept valid, before⟩
      · rw [if_neg valid]
        exact before

theorem restart_kept (reciprocal : g.Reciprocal) (isExpired : Nat → Bool) (alpha : K) (steps : Nat) {neutral : Surface g}
    (grown : Grown neutral) (starts : List (Fin g.size)) (random : σ) {found : List (Surface g)}
    (before : ∀ t ∈ found, Kept t) : ∀ t ∈ (restart isExpired alpha steps neutral starts random found).1, Kept t := by
  induction starts generalizing random found with
  | nil => exact before
  | cons start starts ih =>
    unfold restart
    split
    · exact before
    · exact ih _ (grow_kept reciprocal alpha steps (grown.set reciprocal start (Charge.negative_mem_ofBase _)) random before)

/-- The outcome is sound, and its surfaces are as computed anew. -/
theorem search_spec (environment : Environment σ) (settings : GrowthSettings K) (reciprocal : g.Reciprocal) :
    (search environment settings g).Sound ∧
      ∀ s ∈ (search environment settings g).configurations, s = Surface.fresh g s.charges := by
  have neutral : Charge.neutral ∈ Charge.ofBase g.params.base := by
    unfold Charge.ofBase
    split <;> decide
  have kept : ∀ s ∈ (search environment settings g).configurations, Kept s := by
    intro s listed
    have found := Outcome.mem_ofFound.mp ((withoutRepeats_sublist _).subset listed)
    rcases List.mem_append.mp found with uniform | grown
    · obtain ⟨trivial, valid⟩ := List.mem_filter.mp uniform
      have valid := of_decide_eq_true valid
      rcases List.mem_pair.mp trivial with rfl | rfl
      · exact (uniformSurface_grown neutral).kept valid
      · exact (uniformSurface_grown (Charge.negative_mem_ofBase _)).kept valid
    · obtain ⟨⟨surfaces, _⟩, restarted, member⟩ := List.mem_flatMap.mp grown
      obtain ⟨number, _, same⟩ := List.mem_map.mp restarted
      have nothing : ∀ t ∈ ([] : List (Surface g)), Kept t := by simp
      have kept := restart_kept reciprocal (fun site => environment.clock.isExpired settings.timeout (.restart number site))
        settings.alpha (stepCount K g.size) (uniformSurface_grown neutral)
        ((List.finRange g.size).take (startCount K g.size))
        (environment.generator (settings.seed.getD environment.freshSeed + number.toUInt64)) nothing
      rw [same] at kept
      exact kept s (List.mem_reverse.mp member)
  refine ⟨⟨?_, fun s listed => (kept s listed).valid, ?_, ?_⟩, fun s listed => (kept s listed).computed⟩
  · exact withoutRepeats_increasing (Outcome.ofFound_sorted _ _ _ _)
  · intro s listed
    rw [(kept s listed).computed, Surface.fresh_eq_charged]
    rfl
  · intro s listed
    rw [(kept s listed).computed, Surface.fresh_eq_charged]
    exact Surface.charged_accurate _ _

end Growth

variable {K σ : Type} [ExactElementary K] [RandomSource σ]

/-- Random growth of a layout finds valid assignments only, whatever is drawn and whenever the clock stops
    it: each at most once and in strictly increasing order, which is that of their indices where a machine
    word holds them, on clean surfaces with everything computed anew. So it finds nothing that a complete
    exhaustive search does not list. -/
theorem growth_sound (environment : Environment σ) (settings : GrowthSettings K) {layout : Layout}
    (nonempty : layout.isEmpty = false) {params : Parameters K} (valid : params.validate = .ok ()) :
    ∃ outcome, simulateLayout environment (.growth settings) layout params = .ok outcome ∧ outcome.Sound ∧
      (∀ s ∈ outcome.configurations, s = Surface.fresh _ s.charges) ∧
      (outcome.configurations.map (·.charges)).Nodup ∧
      (∀ codec, Codec.uniform layout.size params.base = .ok codec → params.base ^ layout.size < wordLimit →
        outcome.configurations.Pairwise fun s t =>
          ∃ i j, s.chargeIndex codec = .ok i ∧ t.chargeIndex codec = .ok j ∧ i < j) ∧
      ∀ {τ : Type} [RandomSource τ] (other : Environment τ) (exhaustive : ExhaustiveSettings) (reference : Outcome _),
        simulateLayout other (.exhaustive exhaustive) layout params = .ok reference → reference.status = .complete →
          ∀ s ∈ outcome.configurations, s ∈ reference.configurations := by
  have base := (params.validate_eq_ok_iff.mp valid).2.2
  have reciprocal := (Geometry.ofLayout_repulsive layout valid).toReciprocal
  have occupied : (Geometry.ofLayout layout params).size ≠ 0 := by
    simpa [Layout.isEmpty, Geometry.ofLayout] using nonempty
  obtain ⟨sound, computed⟩ := Growth.search_spec environment settings reciprocal
  refine ⟨Growth.search environment settings _, simulate_occupied environment (.growth settings) valid occupied, sound,
    computed, sound.distinct, ?_, ?_⟩
  · intro codec uniform small
    have least : 2 ≤ params.base := by omega
    obtain ⟨known, sameCodec, radices⟩ := Codec.uniform_eq_ok base layout.size
    obtain rfl : known = codec := Except.ok.inj (sameCodec.symm.trans uniform)
    have total : known.radices.prod = params.base ^ layout.size := by rw [radices, List.prod_replicate]
    exact Exhaustive.indices_increasing least radices (total ▸ small) (fun s listed => (sound.valid s listed).1)
      sound.increasing
  · intro τ _ other exhaustive reference searched complete s listed
    have result := (simulate_occupied other (.exhaustive exhaustive) valid occupied).symm.trans searched
    rw [computed s listed]
    exact Exhaustive.fresh_mem_of_complete reciprocal base result complete (sound.valid s listed)

/-- Eighty restarts on two neighbouring sites find nothing but what the exhaustive search lists. -/
theorem growth_sound_pair :
    ∃ outcome reference : Outcome (Geometry.ofLayout (.ofCoords [⟨0, 0, 0⟩, ⟨1, 0, 0⟩]) (.standard : Parameters ℝ)),
      simulateLayout (⟨Clock.still, ChaCha.ofSeed, 0⟩ : Environment ChaCha) (.growth .standard) _ _ = .ok outcome ∧
      simulateLayout (⟨Clock.still, ChaCha.ofSeed, 0⟩ : Environment ChaCha) (.exhaustive {}) _ _ = .ok reference ∧
      reference.status = .complete ∧ outcome.Sound ∧ ∀ s ∈ outcome.configurations, s ∈ reference.configurations := by
  have valid := (Parameters.standard_valid : (.standard : Parameters ℝ).validate = .ok ())
  obtain ⟨outcome, grown, sound, _, _, _, listed⟩ :=
    growth_sound (⟨Clock.still, ChaCha.ofSeed, 0⟩ : Environment ChaCha) .standard
      (rfl : (Layout.ofCoords [⟨0, 0, 0⟩, ⟨1, 0, 0⟩]).isEmpty = false) valid
  obtain ⟨reference, reached, complete⟩ := exhaustive_unlimited (⟨Clock.still, ChaCha.ofSeed, 0⟩ : Environment ChaCha)
    (rfl : (Layout.ofCoords [⟨0, 0, 0⟩, ⟨1, 0, 0⟩]).isEmpty = false) valid (by decide)
  exact ⟨outcome, reference, grown, reached, complete, sound, listed _ _ reference reached complete⟩

end DanglingBond
