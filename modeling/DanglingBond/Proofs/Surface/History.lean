import Mathlib
import DanglingBond.Proofs.Surface.Cache
import DanglingBond.Surface.Operation

/-!
Histories of surfaces. Whatever operations succeed one after the other on a new surface and on
copies of it, in any order and either mode of the dependent site, a surface that says it is clean
has an accurate cache (`play_coherent`). An operation that is refused may break this, so a history
ends with the first refusal.
-/

namespace DanglingBond.Surface

section
variable {K : Type} {g : Geometry K}

private theorem settle_ok {s after : Surface g} {result : Except (SurfaceError K) (Surface g)}
    (success : s.settle result = (.ok (), after)) : result = .ok after := by
  cases result with
  | ok settled =>
    simp only [settle, Prod.mk.injEq, true_and] at success
    rw [success]
  | error cause => simp [settle] at success

private theorem settle_map_ok {α : Type} {s after : Surface g} {named : Except (SurfaceError K) α}
    {change : α → Surface g} (success : s.settle (named.map change) = (.ok (), after)) :
    ∃ target, named = .ok target ∧ change target = after := by
  have mapped := settle_ok success
  cases named with
  | ok target =>
    simp only [Except.map, Except.ok.injEq] at mapped
    exact ⟨target, rfl, mapped⟩
  | error cause => simp [Except.map] at mapped

/-- A reading from the cache fails, and then because the cache is stale, exactly on a surface that
    is not clean. -/
theorem ifClean_eq_error_iff {α : Type} (s : Surface g) (reading : CachedReading) (value : α) (cause : SurfaceError K) :
    s.ifClean reading value = .error cause ↔ s.clean = false ∧ cause = .staleCache reading := by
  unfold ifClean
  cases s.clean with
  | true => simp
  | false => simp [eq_comm]

variable [Scalar K]

/-- A move of a program that holds several surfaces: it changes one of them or copies one. -/
inductive Move (K : Type) where
  | perform (holder : Nat) (operation : Operation K)
  | copy (holder : Nat)

/-- The surfaces after a move, unless it is refused. -/
def move? (surfaces : List (Surface g)) : Move K → Option (List (Surface g))
  | .perform holder operation =>
    surfaces[holder]?.bind fun s =>
      match s.perform operation with
      | (.ok (), after) => some (surfaces.set holder after)
      | (.error _, _) => none
  | .copy holder => surfaces[holder]?.map fun s => surfaces ++ [s]

/-- The surfaces after several moves, unless one of them is refused. -/
def play? (surfaces : List (Surface g)) : List (Move K) → Option (List (Surface g))
  | [] => some surfaces
  | move :: later => (move? surfaces move).bind fun surfaces => play? surfaces later

end

variable {K : Type} [ExactScalar K] {g : Geometry K}

/-- If the surface says it is clean, then its cache is accurate. -/
def Coherent (s : Surface g) : Prop := s.clean = true → s.Accurate

theorem charged_coherent (start : Surface g) (charges : Vector Charge g.size) : (start.charged charges).Coherent :=
  fun _ => charged_accurate start charges

private theorem coherent_of_stale {s : Surface g} (stale : s.clean = false) : s.Coherent := by
  intro clean
  rw [stale] at clean
  contradiction

theorem set_coherent (reciprocal : g.Reciprocal) {s : Surface g} (coherent : s.Coherent) (site : Fin g.size)
    (state : Charge) : (s.set site state).Coherent := by
  by_cases clean : s.clean = true
  · rw [eq_charged_of_accurate clean (coherent clean), charged_set reciprocal]
    exact charged_coherent _ _
  · have stale : s.clean = false := Bool.eq_false_iff.mpr clean
    unfold set
    rw [stale]
    by_cases same : s.charges[site] = state
    · rw [if_pos same]
      exact coherent
    · rw [if_neg same]
      exact coherent_of_stale rfl

theorem refresh_coherent (reciprocal : g.Reciprocal) (s : Surface g) : s.refresh.Coherent := by
  obtain ⟨charges, computed⟩ := refresh_eq_charged reciprocal s
  rw [computed]
  exact charged_coherent _ _

theorem lowerFrom_coherent (reciprocal : g.Reciprocal) {s : Surface g} (coherent : s.Coherent) (start : Nat) :
    (s.lowerFrom start).Coherent := by
  unfold lowerFrom
  induction (List.finRange g.size).filter (fun i => start ≤ i.val) generalizing s with
  | nil => exact coherent
  | cons site sites ih => exact ih (set_coherent reciprocal coherent site .negative)

theorem stepTo_coherent (reciprocal : g.Reciprocal) {s : Surface g} (coherent : s.Coherent)
    (raised : Option (Nat × Charge)) : (s.stepTo raised).Coherent := by
  match raised with
  | none => exact lowerFrom_coherent reciprocal coherent 0
  | some (site, state) =>
    have lowered := lowerFrom_coherent reciprocal coherent (site + 1)
    unfold stepTo
    by_cases inside : site < g.size
    · simp only [inside, dif_pos]
      exact set_coherent reciprocal lowered _ state
    · simp only [inside, dif_neg, not_false_eq_true]
      exact lowered

/-- One operation that succeeds keeps a surface coherent. -/
theorem perform_coherent (reciprocal : g.Reciprocal) {s after : Surface g} (coherent : s.Coherent)
    {operation : Operation K} (success : s.perform operation = (.ok (), after)) : after.Coherent := by
  cases operation with
  | assign site state =>
    obtain ⟨_, _, rfl⟩ := settle_map_ok success
    exact coherent_of_stale rfl
  | assignAt coord state =>
    obtain ⟨_, _, rfl⟩ := settle_map_ok success
    exact coherent_of_stale rfl
  | assignStates states =>
    obtain ⟨_, _, rfl⟩ := settle_map_ok success
    exact coherent_of_stale rfl
  | assignAll state =>
    obtain rfl : s.assignAll state = after := congrArg Prod.snd success
    exact coherent_of_stale rfl
  | set site state =>
    obtain ⟨i, _, rfl⟩ := settle_map_ok success
    exact set_coherent reciprocal coherent i state
  | refresh =>
    obtain rfl : s.refresh = after := congrArg Prod.snd success
    exact refresh_coherent reciprocal s
  | assignIndex index codec =>
    rw [perform, assignIndex] at success
    generalize codec.decodeInto index s.states = decoded at success
    obtain ⟨result, states⟩ := decoded
    cases result with
    | ok _ =>
      cases success
      exact refresh_coherent reciprocal _
    | error cause => simp at success
  | increment codec =>
    obtain ⟨stepped, incremented, rfl⟩ := settle_map_ok success
    unfold increment? at incremented
    cases carried : codec.carry s.states with
    | ok raised =>
      rw [carried] at incremented
      cases incremented
      exact stepTo_coherent reciprocal coherent raised
    | error cause => simp [carried] at incremented
  | setDependent site =>
    obtain ⟨_, _, rfl⟩ := settle_map_ok success
    exact fun clean => ⟨(coherent clean).potential, (coherent clean).energy⟩
  | setMode mode =>
    obtain rfl : { s with mode } = after := congrArg Prod.snd success
    exact fun clean => ⟨(coherent clean).potential, (coherent clean).energy⟩
  | setChecker checker =>
    obtain rfl : { s with checker } = after := congrArg Prod.snd success
    exact fun clean => ⟨(coherent clean).potential, (coherent clean).energy⟩

/-- A move keeps all surfaces coherent. -/
theorem move_coherent (reciprocal : g.Reciprocal) {surfaces after : List (Surface g)}
    (coherent : ∀ s ∈ surfaces, s.Coherent) {move : Move K} (moved : move? surfaces move = some after) :
    ∀ s ∈ after, s.Coherent := by
  cases move with
  | perform holder operation =>
    obtain ⟨s, held, performed⟩ := Option.bind_eq_some_iff.mp moved
    split at performed
    · rename_i next success
      cases performed
      intro t member
      rcases List.mem_or_eq_of_mem_set member with old | rfl
      · exact coherent t old
      · exact perform_coherent reciprocal (coherent s (List.mem_of_getElem? held)) success
    · contradiction
  | copy holder =>
    obtain ⟨s, held, rfl⟩ := Option.map_eq_some_iff.mp moved
    intro t member
    rcases List.mem_append.mp member with old | copied
    · exact coherent t old
    · rw [List.mem_singleton.mp copied]
      exact coherent s (List.mem_of_getElem? held)

/-- A history of moves keeps all surfaces coherent. -/
theorem play_coherent (reciprocal : g.Reciprocal) {surfaces after : List (Surface g)}
    (coherent : ∀ s ∈ surfaces, s.Coherent) {moves : List (Move K)} (played : play? surfaces moves = some after) :
    ∀ s ∈ after, s.Coherent := by
  induction moves generalizing surfaces with
  | nil =>
    cases played
    exact coherent
  | cons move later ih =>
    obtain ⟨next, moved, played⟩ := Option.bind_eq_some_iff.mp played
    exact ih (move_coherent reciprocal coherent moved) played

theorem ofGeometry_coherent (reciprocal : g.Reciprocal) : (ofGeometry g).Coherent :=
  refresh_coherent reciprocal _

end DanglingBond.Surface

namespace DanglingBond

variable {K : Type} [ExactElementary K]

theorem Surface.ofLayout?_eq_ok_iff (layout : Layout) (params : Parameters K) {g : Geometry K} {start : Surface g} :
    ofLayout? layout params = .ok ⟨g, start⟩ ↔
      params.validate = .ok () ∧ (⟨Geometry.ofLayout layout params, ofGeometry _⟩ : (g : Geometry K) × Surface g) = ⟨g, start⟩ := by
  unfold ofLayout? Geometry.ofLayout?
  cases params.validate with
  | ok _ => simp [bind, Except.bind, pure, Except.pure]
  | error cause => simp [bind, Except.bind]

/-- Whatever is done to a new surface of a layout and to copies of it, every surface that says it is
    clean, as each one does after a refresh, has the potentials and the energy that its charges
    induce, and exactly the surfaces that are not clean refuse a reading from the cache as stale. -/
theorem clean_surface_accurate {layout : Layout} {params : Parameters K} {g : Geometry K} {start : Surface g}
    (new : Surface.ofLayout? layout params = .ok ⟨g, start⟩) {moves : List (Surface.Move K)}
    {surfaces : List (Surface g)} (history : Surface.play? [start] moves = some surfaces)
    {s : Surface g} (held : s ∈ surfaces) :
    (s.clean = true → s.Accurate) ∧ s.refresh.clean = true ∧
      (∀ cause, s.energy? = .error cause ↔ s.clean = false ∧ cause = .staleCache .energy) ∧
      (∀ cause, s.physicallyValid? = .error cause ↔ s.clean = false ∧ cause = .staleCache .physicalValidity) ∧
      (∀ cause, s.populationStable? = .error cause ↔ s.clean = false ∧ cause = .staleCache .populationStability) ∧
      (∀ base cause, s.dependentStates? base = .error cause ↔ s.clean = false ∧ cause = .staleCache .dependentStates) := by
  obtain ⟨valid, same⟩ := (Surface.ofLayout?_eq_ok_iff layout params).mp new
  cases same
  have reciprocal := (Geometry.ofLayout_repulsive layout valid).toReciprocal
  refine ⟨?_, ?_, ?_, ?_, ?_, ?_⟩
  · apply Surface.play_coherent reciprocal _ history s held
    intro t member
    rw [List.mem_singleton.mp member]
    exact Surface.ofGeometry_coherent reciprocal
  · obtain ⟨charges, computed⟩ := Surface.refresh_eq_charged reciprocal s
    rw [computed, Surface.charged_clean]
  · exact Surface.ifClean_eq_error_iff s .energy _
  · exact Surface.ifClean_eq_error_iff s .physicalValidity _
  · exact Surface.ifClean_eq_error_iff s .populationStability _
  · exact fun base => Surface.ifClean_eq_error_iff s .dependentStates _

/-- The first of two sites is charged on the clean surface and then derived anew, and a copy of the
    surface is left stale in between. -/
def Surface.pairMoves : List (Surface.Move ℝ) :=
  [.perform 0 (.set 0 .neutral), .copy 0, .perform 1 (.assign 1 .positive), .perform 0 (.setMode .derived),
    .perform 0 (.setDependent 1), .perform 0 .refresh]

theorem clean_surface_accurate_pair :
    ∃ surfaces : List (Surface (Geometry.ofLayout (.ofCoords [⟨0, 0, 0⟩, ⟨1, 0, 0⟩]) (.standard : Parameters ℝ))),
      Surface.play? [Surface.ofGeometry _] Surface.pairMoves = some surfaces ∧ surfaces.length = 2 ∧
      ∀ s ∈ surfaces,
        (s.clean = true → s.Accurate) ∧ s.refresh.clean = true ∧
        (∀ cause, s.energy? = .error cause ↔ s.clean = false ∧ cause = .staleCache .energy) ∧
        (∀ cause, s.physicallyValid? = .error cause ↔ s.clean = false ∧ cause = .staleCache .physicalValidity) ∧
        (∀ cause, s.populationStable? = .error cause ↔ s.clean = false ∧ cause = .staleCache .populationStability) ∧
        (∀ base cause, s.dependentStates? base = .error cause ↔ s.clean = false ∧ cause = .staleCache .dependentStates) := by
  generalize same : Layout.ofCoords [⟨0, 0, 0⟩, ⟨1, 0, 0⟩] = layout
  have new := (Surface.ofLayout?_eq_ok_iff layout (.standard : Parameters ℝ)).mpr ⟨Parameters.standard_valid, rfl⟩
  have played : ∃ surfaces : List (Surface (Geometry.ofLayout layout (.standard : Parameters ℝ))),
      Surface.play? [Surface.ofGeometry _] Surface.pairMoves = some surfaces ∧ surfaces.length = 2 := by
    subst same
    exact ⟨_, rfl, rfl⟩
  obtain ⟨surfaces, history, count⟩ := played
  exact ⟨surfaces, history, count, fun s held => clean_surface_accurate new history held⟩

end DanglingBond
