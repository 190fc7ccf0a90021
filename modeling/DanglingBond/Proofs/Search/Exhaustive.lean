import Mathlib
import DanglingBond.Proofs.Search.Outcome
import DanglingBond.Proofs.Surface.Stepping
import DanglingBond.Random.ChaCha
import DanglingBond.Search.Simulation

/-!
The exhaustive search as the reference for all others. It keeps the valid ones among the surfaces that it
judges (`walk_found`), and these are the ones that computing everything anew gives for the assignments of
consecutive numbers, by induction over the charge indices (`walk_spec`). As long as the size of the search space fits a machine word
and the clock does not cut the walk, the outcome therefore lists exactly the valid assignments
(`exhaustive_enumerates`).
-/

namespace DanglingBond

namespace Exhaustive

section
variable {K : Type} {g : Geometry K}

theorem number_start (codec : Codec) (size : codec.size = g.size) :
    Codec.Fits codec.radices (Vector.replicate g.size Charge.negative).toList ∧
      Codec.number codec.radices (Vector.replicate g.size Charge.negative).toList = 0 := by
  rw [Vector.toList_replicate]
  refine ⟨?_, Codec.number_replicate codec.radices g.size⟩
  rw [← size]
  exact Codec.fits_negative codec.two_or_three

/-- The assignments of the base are those that fit its codec. -/
theorem uses_base_iff {base : Nat} (least : 2 ≤ base) (charges : Vector Charge g.size) :
    (∀ i : Fin g.size, charges[i] ∈ Charge.ofBase base) ↔ Codec.Fits (List.replicate g.size base) charges.toList := by
  rw [Codec.fits_uniform_iff]
  simp only [Charge.mem_ofBase_iff least, Vector.length_toList, true_and]
  constructor
  · intro uses state member
    obtain ⟨i, inside, rfl⟩ := List.getElem_of_mem member
    rw [Vector.length_toList] at inside
    exact uses ⟨i, inside⟩
  · intro fits i
    exact fits charges[i] (by simp)

/-- The indices of a sound outcome are strictly increasing. -/
theorem indices_increasing {base : Nat} (least : 2 ≤ base) {codec : Codec}
    (radices : codec.radices = List.replicate g.size base) (small : codec.radices.prod < wordLimit)
    {configurations : List (Surface g)} (uses : ∀ s ∈ configurations, ∀ i : Fin g.size, s.charges[i] ∈ Charge.ofBase base)
    (increasing : configurations.Pairwise fun s t => s.digits < t.digits) :
    configurations.Pairwise fun s t => ∃ i j, s.chargeIndex codec = .ok i ∧ t.chargeIndex codec = .ok j ∧ i < j := by
  have fits (s : Surface g) (member : s ∈ configurations) : Codec.Fits codec.radices s.states := by
    rw [radices]
    exact (uses_base_iff least s.charges).mp (uses s member)
  have index (s : Surface g) (member : s ∈ configurations) :
      s.chargeIndex codec = .ok (Codec.number codec.radices s.states) :=
    codec.encode_eq (fits s member) ((Codec.number_lt_prod (fits s member)).trans small)
  refine increasing.imp_of_mem ?_
  intro s t first second less
  exact ⟨_, _, index s first, index t second, (Codec.digits_lt_iff (fits s first) (fits t second)).mp less⟩

/-- The clock is looked at after this many steps. -/
def Polled (steps : Nat) : Prop := steps % pollInterval = 0

/-- How a walk from the assignment numbered `steps` ends: it has visited the assignments of consecutive
    numbers, up to the last one or up to the first step at which the clock was looked at and the time limit
    was reached. The assignment to which that step leads is not visited any more. -/
structure Walked (codec : Codec) (isExpired : Nat → Bool) (steps last : Nat) (walk : Walk g)
    (visited : List (Vector Charge g.size)) : Prop where
  fits : ∀ charges ∈ visited, Codec.Fits codec.radices charges.toList
  numbers : visited.map (fun charges => Codec.number codec.radices charges.toList) = List.range' steps visited.length
  quiet : ∀ k, steps < k → k < steps + visited.length → Polled k → isExpired k = false
  ending : walk.status = .complete ∧ walk.steps = last ∧ steps + visited.length = last + 1 ∨
    walk.status = .timedOut ∧ walk.steps ≤ last ∧ steps < walk.steps ∧ steps + visited.length = walk.steps ∧
      Polled walk.steps ∧ isExpired walk.steps = true

/-- A walk from the first number has visited the assignments below the number at which it ended. -/
theorem Walked.mem_visited_iff {codec : Codec} {isExpired : Nat → Bool} {last : Nat} {walk : Walk g}
    {visited : List (Vector Charge g.size)} (walked : Walked codec isExpired 0 last walk visited)
    {charges : Vector Charge g.size} (fits : Codec.Fits codec.radices charges.toList) :
    charges ∈ visited ↔ Codec.number codec.radices charges.toList < visited.length := by
  have listed (k : Nat) : k ∈ List.range' 0 visited.length ↔ k < visited.length := by
    rw [← List.range_eq_range', List.mem_range]
  rw [← listed, ← walked.numbers, List.mem_map]
  constructor
  · intro visit
    exact ⟨charges, visit, rfl⟩
  · rintro ⟨other, visit, same⟩
    have equal : other = charges := Vector.toList_inj.mp (Codec.number_injective (walked.fits other visit) fits same)
    exact equal ▸ visit

variable [Scalar K]

/-- The surfaces that a walk judges, one after the other. -/
def judged (isExpired : Nat → Bool) (codec : Codec) : Nat → Nat → Surface g → List (Surface g)
  | 0, _, s => [s]
  | remaining + 1, steps, s =>
    match codec.carry s.states with
    | .ok (some raised) =>
      if (steps + 1) % pollInterval = 0 ∧ isExpired (steps + 1) then [s]
      else s :: judged isExpired codec remaining (steps + 1) (s.stepTo (some raised))
    | _ => [s]

/-- Whether the time limit is reached after so many steps. -/
def expiredAt {σ : Type} (environment : Environment σ) (settings : ExhaustiveSettings) (steps : Nat) : Bool :=
  environment.clock.isExpired settings.timeout (.step steps)

/-- The surfaces that a search judges, one after the other. -/
def judgedBy {σ : Type} (environment : Environment σ) (settings : ExhaustiveSettings) (g : Geometry K) (codec : Codec) :
    List (Surface g) :=
  judged (expiredAt environment settings) codec (codec.radices.prod - 1) 0 (Surface.ofGeometry g)

/-- A walk finds what is valid of the surfaces that it judges. -/
theorem walk_found (isExpired : Nat → Bool) (codec : Codec) (remaining steps : Nat) (s : Surface g)
    (found : List (Surface g)) : (walk isExpired codec remaining steps s found).found =
      (judged isExpired codec remaining steps s).foldl (fun found s => keepValid s found) found := by
  induction remaining generalizing steps s found with
  | zero => rfl
  | succ remaining ih =>
    rw [walk, judged]
    cases codec.carry s.states with
    | error cause => rfl
    | ok digit =>
      cases digit with
      | none => rfl
      | some raised =>
        by_cases cut : (steps + 1) % pollInterval = 0 ∧ isExpired (steps + 1) = true
        · simp [cut]
        · simp [cut, ih]

end

variable {K : Type} [ExactScalar K] {g : Geometry K}

theorem keepValid_fresh (charges : Vector Charge g.size) (found : List (Surface g)) :
    keepValid (Surface.fresh g charges) found = ((Surface.ofGeometry g).validOf [charges]).reverse ++ found := by
  rw [keepValid, Surface.refresh_fresh, Surface.validOf_singleton (Surface.ofGeometry_plain g), Surface.fresh_eq_charged]
  by_cases valid : ((Surface.ofGeometry g).charged charges).PhysicallyValid
  · simp [valid]
  · simp [valid]

theorem foldl_keepValid_fresh (visited : List (Vector Charge g.size)) (found : List (Surface g)) :
    (visited.map (Surface.fresh g)).foldl (fun found s => keepValid s found) found =
      ((Surface.ofGeometry g).validOf visited).reverse ++ found := by
  induction visited generalizing found with
  | nil => rfl
  | cons charges visited ih =>
    rw [List.map_cons, List.foldl_cons, keepValid_fresh, ih, ← List.append_assoc, ← List.reverse_append,
      ← Surface.validOf_append]
    rfl

/-- Before the last number there is a digit to raise, and raising it leads to the assignment of the
    next number. -/
theorem exists_step (reciprocal : g.Reciprocal) {codec : Codec} (size : codec.size = g.size)
    {charges : Vector Charge g.size} (fits : Codec.Fits codec.radices charges.toList)
    (more : Codec.number codec.radices charges.toList + 1 < codec.radices.prod) :
    ∃ raised next, codec.carry charges.toList = .ok (some raised) ∧
      (Surface.fresh g charges).stepTo (some raised) = Surface.fresh g next ∧
      Codec.Fits codec.radices next.toList ∧
      Codec.number codec.radices next.toList = Codec.number codec.radices charges.toList + 1 := by
  cases found : Codec.raise? codec.radices charges.toList with
  | none =>
    have last := (Codec.raise?_eq_none codec.two_or_three fits).mp found
    omega
  | some raised =>
    obtain ⟨site, state⟩ := raised
    obtain ⟨inside, nextFits, counted⟩ := Codec.number_wrap codec.two_or_three fits found
    rw [Vector.length_toList] at inside
    obtain ⟨next, stepped, wrapped⟩ := Surface.charged_stepTo reciprocal (Surface.ofGeometry g) charges inside state
    have length : codec.checkLength charges.toList.length = .ok () := by
      rw [Vector.length_toList, ← size]
      exact if_pos rfl
    refine ⟨(site, state), next, ?_, ?_, ?_, ?_⟩
    · rw [Codec.carry, length, found]
      rfl
    · rw [Surface.fresh_eq_charged, Surface.fresh_eq_charged, stepped]
    · rw [wrapped]
      exact nextFits
    · rw [wrapped, counted]

theorem walk_spec (reciprocal : g.Reciprocal) {codec : Codec} (size : codec.size = g.size) (isExpired : Nat → Bool)
    (remaining steps : Nat) {charges : Vector Charge g.size} (fits : Codec.Fits codec.radices charges.toList)
    (number : Codec.number codec.radices charges.toList = steps) (count : steps + remaining + 1 = codec.radices.prod)
    (found : List (Surface g)) :
    ∃ visited, judged isExpired codec remaining steps (Surface.fresh g charges) = visited.map (Surface.fresh g) ∧
      Walked codec isExpired steps (steps + remaining)
        (walk isExpired codec remaining steps (Surface.fresh g charges) found) visited := by
  induction remaining generalizing steps charges found with
  | zero =>
    refine ⟨[charges], rfl, by simpa using fits, by simp [number], ?_, .inl ⟨rfl, rfl, rfl⟩⟩
    intro k after before
    rw [List.length_singleton] at before
    omega
  | succ remaining ih =>
    obtain ⟨raised, next, carried, stepped, nextFits, counted⟩ := exists_step reciprocal size fits (by omega)
    rw [number] at counted
    have states : (Surface.fresh g charges).states = charges.toList := by
      rw [Surface.states, Surface.fresh_charges]
    rw [walk, judged, states, carried]
    simp only [stepped]
    by_cases cut : (steps + 1) % pollInterval = 0 ∧ isExpired (steps + 1) = true
    · rw [if_pos cut, if_pos cut]
      refine ⟨[charges], rfl, by simpa using fits, by simp [number], ?_, .inr ⟨rfl, by simp, by simp, rfl, cut⟩⟩
      intro k after before
      rw [List.length_singleton] at before
      omega
    · rw [if_neg cut, if_neg cut]
      -- The rest of the walk begins at the next number, on the surface that is computed anew for it.
      obtain ⟨visited, same, walked⟩ :=
        ih (steps + 1) nextFits counted (by omega) (keepValid (Surface.fresh g charges) found)
      have last : steps + 1 + remaining = steps + (remaining + 1) := by omega
      have length : steps + (charges :: visited).length = steps + 1 + visited.length := by
        rw [List.length_cons]
        omega
      rw [last] at walked
      refine ⟨charges :: visited, by rw [same, List.map_cons], List.forall_mem_cons.mpr ⟨fits, walked.fits⟩, ?_, ?_, ?_⟩
      · rw [List.map_cons, List.length_cons, List.range'_succ, number, walked.numbers]
      · intro k after before polled
        rw [length] at before
        by_cases first : k = steps + 1
        · rw [first] at polled ⊢
          exact Bool.eq_false_iff.mpr fun expired => cut ⟨polled, expired⟩
        · exact walked.quiet k (by omega) before polled
      · rw [length]
        rcases walked.ending with complete | ⟨status, below, above, counted, polled, expired⟩
        · exact .inl complete
        · exact .inr ⟨status, below, by omega, counted, polled, expired⟩

/-- The time limit is not reached at any of the steps at which the clock is looked at. -/
def Uncut {σ : Type} (environment : Environment σ) (settings : ExhaustiveSettings) (total : Nat) : Prop :=
  ∀ steps, 0 < steps → steps < total → Polled steps → environment.clock.isExpired settings.timeout (.step steps) = false

/-- The outcome of a walk that began at the first number: it is sound, and lists the valid assignments below
    the number at which the walk ended. -/
theorem walked_sound (base : g.params.base = 2 ∨ g.params.base = 3) {codec : Codec}
    (radices : codec.radices = List.replicate g.size g.params.base) {isExpired : Nat → Bool} {last : Nat}
    {walk : Walk g} {visited : List (Vector Charge g.size)} (walked : Walked codec isExpired 0 last walk visited)
    (found : walk.found = ((Surface.ofGeometry g).validOf visited).reverse) (runtime : Nat) :
    let outcome := Outcome.ofFound .exhaustive walk.found walk.status runtime
    outcome.Sound ∧ (∀ s ∈ outcome.configurations, s = Surface.fresh g s.charges) ∧
      ∀ charges, charges ∈ outcome.configurations.map (·.charges) ↔
        g.IsValid charges ∧ Codec.number codec.radices charges.toList < visited.length := by
  have least : 2 ≤ g.params.base := by omega
  have uses (charges : Vector Charge g.size) :
      (∀ i : Fin g.size, charges[i] ∈ Charge.ofBase g.params.base) ↔ Codec.Fits codec.radices charges.toList := by
    rw [radices]
    exact uses_base_iff least charges
  have selects : (Surface.ofGeometry g).Selects walk.found visited := by
    refine ⟨?_, ?_, fun charges visit => (uses charges).mpr (walked.fits charges visit)⟩
    · rw [found]
      exact List.reverse_perm _
    · apply List.Nodup.of_map fun charges => Codec.number codec.radices charges.toList
      rw [walked.numbers]
      exact List.nodup_range'
  have member {s : Surface g} : s ∈ (Outcome.ofFound .exhaustive walk.found walk.status runtime).configurations ↔
      s.charges ∈ visited ∧ (Surface.fresh g s.charges).PhysicallyValid ∧ s = Surface.fresh g s.charges := by
    rw [Outcome.mem_ofFound, selects.kept.mem_iff, Surface.mem_validOf, Surface.fresh_eq_charged]
  refine ⟨(Outcome.ofFound_spec .exhaustive selects walk.status runtime).1, fun s listed => (member.mp listed).2.2, ?_⟩
  intro charges
  rw [List.mem_map]
  constructor
  · rintro ⟨s, listed, rfl⟩
    obtain ⟨visit, valid, _⟩ := member.mp listed
    exact ⟨⟨selects.uses s.charges visit, valid⟩, (walked.mem_visited_iff (walked.fits s.charges visit)).mp visit⟩
  · rintro ⟨valid, below⟩
    have visit := (walked.mem_visited_iff ((uses charges).mp valid.1)).mpr below
    have computed := Surface.fresh_charges (g := g) charges
    exact ⟨Surface.fresh g charges, member.mpr (by rw [computed]; exact ⟨visit, valid.2, rfl⟩), computed⟩

/-- Where a machine word holds the size of the search space, the outcome is that of a walk that began at the
    first number. -/
theorem search_walk {σ : Type} (environment : Environment σ) (settings : ExhaustiveSettings)
    (reciprocal : g.Reciprocal) (base : g.params.base = 2 ∨ g.params.base = 3) (small : g.params.base ^ g.size < wordLimit) :
    ∃ codec walk visited, Codec.uniform g.size g.params.base = .ok codec ∧
      codec.radices = List.replicate g.size g.params.base ∧
      search environment settings g = .ok ((Outcome.ofFound .exhaustive walk.found walk.status
        (environment.clock .finish)).withDetail "visited_configurations" (toString (walk.steps + 1))) ∧
      judgedBy environment settings g codec = visited.map (Surface.fresh g) ∧
      walk.found = ((Surface.ofGeometry g).validOf visited).reverse ∧
      Walked codec (expiredAt environment settings) 0 (g.params.base ^ g.size - 1) walk visited := by
  obtain ⟨codec, uniform, radices⟩ := Codec.uniform_eq_ok base g.size
  have size : codec.size = g.size := by rw [Codec.size, radices, List.length_replicate]
  have total : codec.radices.prod = g.params.base ^ g.size := by rw [radices, List.prod_replicate]
  have positive : 0 < g.params.base ^ g.size := Nat.pow_pos (by omega)
  have count := codec.numConfigurations_eq
  rw [total, size, if_pos small] at count
  obtain ⟨fits, number⟩ := number_start codec size
  obtain ⟨visited, same, walked⟩ := walk_spec reciprocal size (expiredAt environment settings)
    (g.params.base ^ g.size - 1) 0 fits number (by omega) []
  rw [← Surface.ofGeometry_eq_fresh] at same walked
  rw [Nat.zero_add] at walked
  refine ⟨codec, _, visited, uniform, radices, ?_, ?_, ?_, walked⟩
  · simp only [search, uniform, count, bind, Except.bind, Except.mapError]
    rfl
  · rw [judgedBy, total, same]
  · rw [walk_found, same, foldl_keepValid_fresh, List.append_nil]

/-- The outcome of the search, or its refusal when no machine word holds the size of the search
    space. -/
theorem search_spec {σ : Type} (environment : Environment σ) (settings : ExhaustiveSettings)
    (reciprocal : g.Reciprocal) (base : g.params.base = 2 ∨ g.params.base = 3) :
    (wordLimit ≤ g.params.base ^ g.size → search environment settings g = .error (.codec (.overflow g.size))) ∧
      (g.params.base ^ g.size < wordLimit → ∃ outcome codec,
        search environment settings g = .ok outcome ∧ Codec.uniform g.size g.params.base = .ok codec ∧
        outcome.Sound ∧ (∀ s ∈ outcome.configurations, s = Surface.fresh g s.charges) ∧
        (outcome.configurations.Pairwise fun s t =>
          ∃ i j, s.chargeIndex codec = .ok i ∧ t.chargeIndex codec = .ok j ∧ i < j) ∧
        (outcome.status = .complete ↔ Uncut environment settings (g.params.base ^ g.size)) ∧
        (outcome.status = .complete → outcome.Exhausts ∧
          outcome.details["visited_configurations"]? = some (toString (g.params.base ^ g.size)))) := by
  constructor
  · intro large
    obtain ⟨codec, uniform, radices⟩ := Codec.uniform_eq_ok base g.size
    have count := codec.numConfigurations_eq
    rw [Codec.size, radices, List.length_replicate, List.prod_replicate, if_neg (Nat.not_lt.mpr large)] at count
    simp [search, uniform, count, bind, Except.bind, Except.mapError]
  · intro small
    obtain ⟨codec, walk, visited, uniform, radices, searched, _, found, walked⟩ :=
      search_walk environment settings reciprocal base small
    have total : codec.radices.prod = g.params.base ^ g.size := by rw [radices, List.prod_replicate]
    have least : 2 ≤ g.params.base := by omega
    have positive : 0 < g.params.base ^ g.size := Nat.pow_pos (by omega)
    obtain ⟨sound, computed, listed⟩ := walked_sound base radices walked found (environment.clock .finish)
    refine ⟨_, codec, searched, uniform, sound.withDetail _ _, computed, ?_, ?_, ?_⟩
    · exact indices_increasing least radices (total ▸ small) (fun s member => (sound.valid s member).1) sound.increasing
    · constructor
      · intro complete steps positive below polled
        rcases walked.ending with ⟨_, _, length⟩ | ⟨cut, _⟩
        · exact walked.quiet steps positive (by omega) polled
        · exact absurd (complete.symm.trans cut) (by decide)
      · intro uncut
        rcases walked.ending with ⟨complete, _⟩ | ⟨_, below, positive, _, polled, expired⟩
        · exact complete
        · exact absurd expired (Bool.eq_false_iff.mp (uncut walk.steps positive (by omega) polled))
    · intro complete
      rcases walked.ending with ⟨_, reached, length⟩ | ⟨cut, _⟩
      · have counted : walk.steps + 1 = g.params.base ^ g.size := by omega
        have all : visited.length = codec.radices.prod := by omega
        refine ⟨fun charges valid => List.mem_map.mp ((listed charges).mpr ⟨valid, ?_⟩), ?_⟩
        · have fits := (uses_base_iff least charges).mp valid.1
          rw [← radices] at fits
          rw [all]
          exact Codec.number_lt_prod fits
        · rw [← counted]
          exact Std.TreeMap.getElem?_insert_self
      · exact absurd (complete.symm.trans cut) (by decide)

/-- A complete outcome has the surface of every valid assignment, with everything computed anew. -/
theorem fresh_mem_of_complete {σ : Type} {environment : Environment σ} {settings : ExhaustiveSettings}
    (reciprocal : g.Reciprocal) (base : g.params.base = 2 ∨ g.params.base = 3) {outcome : Outcome g}
    (searched : search environment settings g = .ok outcome) (complete : outcome.status = .complete)
    {charges : Vector Charge g.size} (valid : g.IsValid charges) : Surface.fresh g charges ∈ outcome.configurations := by
  obtain ⟨overflow, fits⟩ := search_spec environment settings reciprocal base
  rcases Nat.lt_or_ge (g.params.base ^ g.size) wordLimit with small | large
  · obtain ⟨found, _, result, _, _, computed, _, _, exhausts⟩ := fits small
    obtain rfl : found = outcome := Except.ok.inj (result.symm.trans searched)
    obtain ⟨s, listed, rfl⟩ := (exhausts complete).1 charges valid
    rw [← computed s listed]
    exact listed
  · exact nomatch (overflow large).symm.trans searched

end Exhaustive

variable {K σ : Type} [ExactElementary K] [RandomSource σ]

/-- Without a time limit the exhaustive search completes, where the number of assignments fits a machine word. -/
theorem exhaustive_unlimited (environment : Environment σ) {layout : Layout} (nonempty : layout.isEmpty = false)
    {params : Parameters K} (valid : params.validate = .ok ()) (small : params.base ^ layout.size < wordLimit) :
    ∃ outcome, simulateLayout environment (.exhaustive {}) layout params = .ok outcome ∧ outcome.status = .complete := by
  have base := (params.validate_eq_ok_iff.mp valid).2.2
  have occupied : (Geometry.ofLayout layout params).size ≠ 0 := by
    simpa [Layout.isEmpty, Geometry.ofLayout] using nonempty
  obtain ⟨outcome, _, searched, _, _, _, _, complete, _⟩ :=
    (Exhaustive.search_spec environment {} (Geometry.ofLayout_repulsive layout valid).toReciprocal base).2 small
  exact ⟨outcome, (simulate_occupied environment (.exhaustive {}) valid occupied).trans searched,
    complete.mpr fun _ _ _ _ => rfl⟩

/-- The exhaustive search of a layout is the reference enumeration. Where the number of assignments
    fits a machine word it lists valid assignments in strictly increasing order of their indices, with
    everything computed anew; it completes exactly when the clock does not cut it, and then no valid
    assignment is missing and every assignment was visited. Where the number does not fit, the search
    is refused. -/
theorem exhaustive_enumerates (environment : Environment σ) (settings : ExhaustiveSettings) {layout : Layout}
    (nonempty : layout.isEmpty = false) {params : Parameters K} (valid : params.validate = .ok ()) :
    (wordLimit ≤ params.base ^ layout.size →
      simulateLayout environment (.exhaustive settings) layout params = .error (.codec (.overflow layout.size))) ∧
    (params.base ^ layout.size < wordLimit → ∃ outcome codec,
      simulateLayout environment (.exhaustive settings) layout params = .ok outcome ∧
      Codec.uniform layout.size params.base = .ok codec ∧ outcome.Sound ∧
      (∀ s ∈ outcome.configurations, s = Surface.fresh _ s.charges) ∧
      (outcome.configurations.Pairwise fun s t =>
        ∃ i j, s.chargeIndex codec = .ok i ∧ t.chargeIndex codec = .ok j ∧ i < j) ∧
      (outcome.status = .complete ↔ Exhaustive.Uncut environment settings (params.base ^ layout.size)) ∧
      (outcome.status = .complete → outcome.Exhausts ∧
        outcome.details["visited_configurations"]? = some (toString (params.base ^ layout.size)))) := by
  have base := (params.validate_eq_ok_iff.mp valid).2.2
  have reciprocal := (Geometry.ofLayout_repulsive layout valid).toReciprocal
  have occupied : layout.size ≠ 0 := by
    simpa [Layout.isEmpty, Layout.size] using nonempty
  have searched : simulateLayout environment (.exhaustive settings) layout params =
      Exhaustive.search environment settings (Geometry.ofLayout layout params) := by
    have inhabited : (Geometry.ofLayout layout params).size ≠ 0 := occupied
    have accepted : (Geometry.ofLayout layout params).params.validate = .ok () := valid
    rw [simulateLayout, simulate, accepted]
    exact if_neg inhabited
  rw [searched]
  exact Exhaustive.search_spec environment settings reciprocal base

/-- Two neighbouring sites have nine assignments of base three, and a clock on which no time passes
    does not cut the walk through them. -/
theorem exhaustive_enumerates_pair :
    ∃ outcome : Outcome (Geometry.ofLayout (.ofCoords [⟨0, 0, 0⟩, ⟨1, 0, 0⟩]) (.standard : Parameters ℝ)),
      simulateLayout (⟨Clock.still, ChaCha.ofSeed, 0⟩ : Environment ChaCha) (.exhaustive ⟨some 1⟩) _ _ =
        .ok outcome ∧ outcome.status = .complete ∧ outcome.Sound ∧ outcome.Exhausts ∧
      outcome.details["visited_configurations"]? = some "9" := by
  obtain ⟨outcome, codec, searched, _, sound, _, _, complete, exhausts⟩ :=
    (exhaustive_enumerates (⟨Clock.still, ChaCha.ofSeed, 0⟩ : Environment ChaCha) ⟨some 1⟩
      (rfl : (Layout.ofCoords [⟨0, 0, 0⟩, ⟨1, 0, 0⟩]).isEmpty = false)
      (Parameters.standard_valid : (.standard : Parameters ℝ).validate = .ok ())).2 (by decide)
  have uncut := complete.mpr fun _ _ _ _ => rfl
  exact ⟨outcome, searched, uncut, sound, (exhausts uncut).1, (exhausts uncut).2⟩

end DanglingBond
