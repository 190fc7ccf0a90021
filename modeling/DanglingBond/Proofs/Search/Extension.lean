import Mathlib
import DanglingBond.Proofs.Geometry.Repulsion
import DanglingBond.Proofs.Scalar.Float
import DanglingBond.Proofs.Scalar.Share
import DanglingBond.Proofs.Surface.Stepping
import DanglingBond.Random.ChaCha
import DanglingBond.Search.Growth

/-!
One step of growth. What a site has to keep to the negative sites is said without the tables of the search: its
gap is the distance of the nearest negative site (`IsGap`), and the widest gap is that of some neutral site
(`IsWidest`). The search begins its maximum at zero, which is no gap of any site; it makes no difference, for gaps
are not negative (`mem_candidates_iff`). The site with the widest gap keeps every share of it, so that a
step is only missed where no site is neutral (`candidates_eq_nil_iff`). Nothing is asked of the numbers but the
laws of shares, which floats keep.
-/

namespace DanglingBond

namespace RandomSource

variable {α σ : Type} {a : α} {choices : List α}

theorem choose?_eq_none_iff [RandomSource σ] {state : σ} : choose? state choices = none ↔ choices = [] := by
  unfold choose?
  split
  · rename_i some
    simp [List.ne_nil_of_length_pos some]
  · rename_i none
    simpa using none

theorem mem_of_choose? [RandomSource σ] {state next : σ} (chosen : choose? state choices = some (a, next)) :
    a ∈ choices := by
  unfold choose? at chosen
  split at chosen
  · obtain ⟨rfl, _⟩ := Prod.mk.inj (Option.some.inj chosen)
    exact List.getElem_mem _
  · contradiction

/-- A source that draws one number again and again, or what comes nearest to it below the bound. -/
structure Fixed where
  number : Nat

instance : RandomSource Fixed where
  draw bound positive source := (⟨min source.number (bound - 1), by omega⟩, source)

/-- Any element is drawn by some source. -/
theorem exists_choose? (listed : a ∈ choices) : ∃ source : Fixed, choose? source choices = some (a, source) := by
  obtain ⟨number, inside, rfl⟩ := List.getElem_of_mem listed
  have drawn : min number (choices.length - 1) = number := by omega
  refine ⟨⟨number⟩, (dif_pos (Nat.zero_lt_of_lt inside)).trans ?_⟩
  simp only [draw, Fin.getElem_fin, drawn]

end RandomSource

/-- No finite distance is negative. -/
def Geometry.Spaced {K : Type} [Scalar K] (g : Geometry K) : Prop :=
  ∀ i j, Scalar.isFinite (g.distance i j) = true → 0 ≤ g.distance i j

theorem Geometry.ofLayout_spaced {K : Type} [Elementary K] [Elementary.LawfulRoot K] (layout : Layout)
    (params : Parameters K) : (ofLayout layout params).Spaced := by
  intro i j finite
  rw [distance_ofLayout] at finite ⊢
  exact Elementary.LawfulRoot.sqrt_nonneg finite

namespace Growth

theorem mem_sitesWith {K : Type} {g : Geometry K} {s : Surface g} {state : Charge} {i : Fin g.size} :
    i ∈ sitesWith s state ↔ s.charges[i] = state := by
  simp [sitesWith]

variable {K : Type} [Scalar K] {g : Geometry K}

namespace Gap

/-- Gaps compare as their distances do, and an infinite gap is the widest. -/
instance : LE (Gap K) where
  le
    | .finite a, .finite b => a ≤ b
    | .infinite, .finite _ => False
    | _, .infinite => True

/-- A share of a gap. There is no finite share of an infinite gap. -/
def share (alpha : K) : Gap K → Gap K
  | .finite distance => .finite (alpha * distance)
  | .infinite => .infinite

/-- The gap is a finite distance that is not negative, or infinite. -/
def Proper : Gap K → Prop
  | .finite distance => Scalar.isFinite distance = true ∧ 0 ≤ distance
  | .infinite => True

theorem le_infinite (gap : Gap K) : gap ≤ .infinite := by cases gap <;> trivial

variable {a b c gap : Gap K} {alpha : K}

theorem Proper.zero_le (proper : gap.Proper) : finite 0 ≤ gap := by
  cases gap with
  | infinite => exact le_infinite _
  | finite distance => exact proper.2

variable [Scalar.LawfulShare K]

theorem trans (first : a ≤ b) (second : b ≤ c) : a ≤ c := by
  cases c with
  | infinite => exact le_infinite a
  | finite z =>
    cases b with
    | infinite => exact absurd second id
    | finite y =>
      cases a with
      | infinite => exact absurd first id
      | finite x => exact Scalar.LawfulShare.trans (a := x) (b := y) first second

theorem zero_proper : (finite 0 : Gap K).Proper :=
  ⟨Scalar.LawfulShare.zero_finite, Scalar.le_self Scalar.LawfulShare.zero_finite⟩

/-- The wider of two gaps is one of them and not below either. -/
theorem widest_picks (first : a.Proper) (second : b.Proper) :
    (a.widest b = a ∨ a.widest b = b) ∧ a ≤ a.widest b ∧ b ≤ a.widest b := by
  cases a with
  | infinite => exact ⟨.inl (by cases b <;> rfl), le_infinite _, by cases b <;> trivial⟩
  | finite x =>
    cases b with
    | infinite => exact ⟨.inr rfl, le_infinite _, le_infinite _⟩
    | finite y =>
      obtain ⟨either, above⟩ := Scalar.greatest_picks first.1 second.1
      exact ⟨either.imp (congrArg finite) (congrArg finite), above⟩

theorem Proper.share_le (proper : gap.Proper) (positive : 0 < alpha) (part : alpha ≤ 1) : gap.share alpha ≤ gap := by
  cases gap with
  | infinite => exact le_infinite _
  | finite distance => exact Scalar.LawfulShare.share_le positive part proper.1 proper.2

/-- Gaps that compare as equal have shares that do. -/
theorem share_congr (positive : 0 < alpha) (part : alpha ≤ 1) (above : a ≤ b) (below : b ≤ a) (bound : a.share alpha ≤ gap) :
    b.share alpha ≤ gap := by
  cases gap with
  | infinite => exact le_infinite _
  | finite distance =>
    cases a with
    | infinite => exact absurd bound id
    | finite x =>
      cases b with
      | infinite => exact absurd below id
      | finite y => exact Scalar.LawfulShare.share_congr (a := x) positive part above below bound

/-- For a positive share, reaching it is being at least the share. -/
theorem reaches_iff (positive : 0 < alpha) : gap.Reaches alpha a ↔ a.share alpha ≤ gap := by
  cases gap with
  | infinite =>
    cases a with
    | infinite => exact iff_of_true (.inr positive) trivial
    | finite x => exact Iff.rfl
  | finite distance =>
    cases a with
    | infinite => exact iff_of_false (Scalar.LawfulShare.asymm positive) id
    | finite x => exact Iff.rfl

end Gap

/-- The distance of a site to the nearest negative one. It is infinite where no site is negative, or none of them
    at a finite distance. -/
def IsGap (s : Surface g) (site : Fin g.size) : Gap K → Prop
  | .finite distance =>
    (∃ j, s.charges[j] = .negative ∧ Scalar.isFinite (g.distance site j) = true ∧ g.distance site j = distance) ∧
      ∀ j, s.charges[j] = .negative → Scalar.isFinite (g.distance site j) = true → distance ≤ g.distance site j
  | .infinite => ∀ j, s.charges[j] = .negative → Scalar.isFinite (g.distance site j) = false

/-- The gap of some neutral site, wider than which no neutral site has one. -/
structure IsWidest (s : Surface g) (widest : Gap K) : Prop where
  attained : ∃ i, s.charges[i] = .neutral ∧ IsGap s i widest
  bound : ∀ i gap, s.charges[i] = .neutral → IsGap s i gap → gap ≤ widest

/-- The site is neutral, and its distance to the nearest negative site is at least the given share of the largest
    one of all neutral sites. -/
structure FarOff (alpha : K) (s : Surface g) (site : Fin g.size) : Prop where
  neutral : s.charges[site] = .neutral
  far : ∃ gap widest, IsGap s site gap ∧ IsWidest s widest ∧ widest.share alpha ≤ gap

variable {s : Surface g} {site : Fin g.size} {gap other widest : Gap K} {alpha : K}

theorem IsGap.le (first : IsGap s site gap) (second : IsGap s site other) : gap ≤ other := by
  cases other with
  | infinite => exact gap.le_infinite
  | finite distance =>
    obtain ⟨⟨j, negative, finite, rfl⟩, _⟩ := second
    cases gap with
    | infinite => exact absurd finite (Bool.eq_false_iff.mp (first j negative))
    | finite nearest => exact first.2 j negative finite

theorem IsGap.proper (spaced : g.Spaced) (isGap : IsGap s site gap) : gap.Proper := by
  cases gap with
  | infinite => trivial
  | finite distance =>
    obtain ⟨⟨j, _, finite, rfl⟩, _⟩ := isGap
    exact ⟨finite, spaced site j finite⟩

/-- The gap that the search finds for a site. -/
def gapAt (s : Surface g) (site : Fin g.size) : Gap K := gapOf g (sitesWith s .negative) site

/-- The widest gap that the search finds. -/
def widestGap (s : Surface g) : Gap K := ((sitesWith s .neutral).map (gapAt s)).foldl Gap.widest (.finite 0)

theorem mem_candidates :
    site ∈ candidates alpha s ↔ s.charges[site] = .neutral ∧ (gapAt s site).Reaches alpha (widestGap s) := by
  simp only [candidates, List.foldl_map, List.mem_map, List.mem_filter, decide_eq_true_eq, ← mem_sitesWith, widestGap]
  constructor
  · rintro ⟨_, ⟨⟨i, neutral, rfl⟩, reaches⟩, rfl⟩
    exact ⟨neutral, reaches⟩
  · rintro ⟨neutral, reaches⟩
    exact ⟨(site, gapAt s site), ⟨⟨site, neutral, rfl⟩, reaches⟩, rfl⟩

variable [Scalar.LawfulShare K]

theorem gapAt_isGap (s : Surface g) (site : Fin g.size) : IsGap s site (gapAt s site) := by
  have listed (distance : K) : distance ∈ ((sitesWith s .negative).map (g.distance site)).filter Scalar.isFinite ↔
      ∃ j, s.charges[j] = .negative ∧ Scalar.isFinite (g.distance site j) = true ∧ g.distance site j = distance := by
    simp only [List.mem_filter, List.mem_map, mem_sitesWith]
    constructor
    · rintro ⟨⟨j, negative, rfl⟩, finite⟩
      exact ⟨j, negative, finite, rfl⟩
    · rintro ⟨j, negative, finite, rfl⟩
      exact ⟨⟨j, negative, rfl⟩, finite⟩
  unfold gapAt gapOf
  split
  · rename_i nothing
    intro j negative
    rw [← Bool.not_eq_true]
    intro finite
    have member := (listed _).mpr ⟨j, negative, finite, rfl⟩
    rw [nothing] at member
    exact List.not_mem_nil member
  · rename_i first others found
    rw [found] at listed
    have finite : ∀ distance ∈ first :: others, Scalar.isFinite distance = true := by
      intro distance member
      obtain ⟨j, _, finite, rfl⟩ := (listed distance).mp member
      exact finite
    obtain ⟨member, least⟩ := foldl_pick_spec (· ≤ ·) (fun _ _ _ => Scalar.LawfulShare.trans) (fun _ _ => Scalar.least_picks)
      finite
    exact ⟨(listed _).mp member, fun j negative finite => least _ ((listed _).mpr ⟨j, negative, finite, rfl⟩)⟩

/-- The widest gap that is found is zero or the gap of some neutral site, and no gap is wider. -/
theorem widestGap_spec (spaced : g.Spaced) (s : Surface g) :
    (widestGap s = .finite 0 ∨ ∃ i, s.charges[i] = .neutral ∧ widestGap s = gapAt s i) ∧
      ∀ i, s.charges[i] = .neutral → gapAt s i ≤ widestGap s := by
  have proper : ∀ gap ∈ Gap.finite 0 :: (sitesWith s .neutral).map (gapAt s), gap.Proper := by
    refine List.forall_mem_cons.mpr ⟨Gap.zero_proper, List.forall_mem_map.mpr fun i _ => ?_⟩
    exact (gapAt_isGap s i).proper spaced
  obtain ⟨member, greatest⟩ := foldl_pick_spec (· ≥ ·)
    (fun _ _ _ first second => Gap.trans second first) (fun _ _ => Gap.widest_picks) proper
  constructor
  · refine (List.mem_cons.mp member).imp_right fun found => ?_
    obtain ⟨i, neutral, same⟩ := List.mem_map.mp found
    exact ⟨i, mem_sitesWith.mp neutral, same.symm⟩
  · exact fun i neutral => greatest _ (List.mem_cons_of_mem _ (List.mem_map_of_mem (mem_sitesWith.mpr neutral)))

/-- The widest gap of the neutral sites is the one that is found, as far as numbers compare. -/
theorem IsWidest.eqv (spaced : g.Spaced) (isWidest : IsWidest s widest) : widest ≤ widestGap s ∧ widestGap s ≤ widest := by
  obtain ⟨i, neutral, isGap⟩ := isWidest.attained
  obtain ⟨either, bound⟩ := widestGap_spec spaced s
  refine ⟨Gap.trans (isGap.le (gapAt_isGap s i)) (bound i neutral), ?_⟩
  rcases either with zero | ⟨j, also, same⟩
  · rw [zero]
    exact (isGap.proper spaced).zero_le
  · rw [same]
    exact isWidest.bound j _ also (gapAt_isGap s j)

/-- The candidates are the sites that are far off. -/
theorem mem_candidates_iff (spaced : g.Spaced) (positive : 0 < alpha) (part : alpha ≤ 1) :
    site ∈ candidates alpha s ↔ FarOff alpha s site := by
  obtain ⟨either, bound⟩ := widestGap_spec spaced s
  rw [mem_candidates, Gap.reaches_iff positive]
  constructor
  · rintro ⟨neutral, reaches⟩
    have proper := (gapAt_isGap s site).proper spaced
    rcases either with zero | ⟨i, also, same⟩
    · -- No gap is above zero, so the site itself has the widest one.
      refine ⟨neutral, _, _, gapAt_isGap s site, ⟨⟨site, neutral, gapAt_isGap s site⟩, ?_⟩, proper.share_le positive part⟩
      intro j gap alsoNeutral isGap
      exact Gap.trans (isGap.le (gapAt_isGap s j)) (Gap.trans (bound j alsoNeutral) (zero ▸ proper.zero_le))
    · refine ⟨neutral, _, _, gapAt_isGap s site, ⟨⟨i, also, same ▸ gapAt_isGap s i⟩, ?_⟩, reaches⟩
      exact fun j gap alsoNeutral isGap => Gap.trans (isGap.le (gapAt_isGap s j)) (bound j alsoNeutral)
  · rintro ⟨neutral, gap, widest, isGap, isWidest, far⟩
    obtain ⟨above, below⟩ := isWidest.eqv spaced
    exact ⟨neutral, Gap.trans (Gap.share_congr positive part above below far) (isGap.le (gapAt_isGap s site))⟩

/-- A neutral site with the widest gap is a candidate, so there is one as long as a site is neutral. -/
theorem candidates_eq_nil_iff (spaced : g.Spaced) (positive : 0 < alpha) (part : alpha ≤ 1) :
    candidates alpha s = [] ↔ ∀ i : Fin g.size, s.charges[i] ≠ .neutral := by
  obtain ⟨either, bound⟩ := widestGap_spec spaced s
  rw [List.eq_nil_iff_forall_not_mem]
  constructor
  · intro none i neutral
    have proper (j : Fin g.size) := (gapAt_isGap s j).proper spaced
    rcases either with zero | ⟨j, also, same⟩
    · refine none i (mem_candidates.mpr ⟨neutral, (Gap.reaches_iff positive).mpr ?_⟩)
      rw [zero]
      exact Gap.trans (Gap.zero_proper.share_le positive part) (proper i).zero_le
    · refine none j (mem_candidates.mpr ⟨also, (Gap.reaches_iff positive).mpr ?_⟩)
      rw [same]
      exact (proper j).share_le positive part
  · exact fun none site candidate => none site (mem_candidates.mp candidate).1

/-- A step of growth fails only where no site is neutral. Otherwise it turns one neutral site negative that is
    far off, leaves the other charges alone and the surface clean, and any site that is far off may be drawn. -/
theorem extension_progress {K : Type} [Elementary K] [Scalar.LawfulShare K] [Elementary.LawfulRoot K] (layout : Layout)
    (params : Parameters K) {alpha : K} (positive : 0 < alpha) (part : alpha ≤ 1)
    {s : Surface (Geometry.ofLayout layout params)} (clean : s.clean = true) :
    (∀ {σ : Type} [RandomSource σ] (random : σ),
      (extend? alpha s random = none ↔ ∀ i : Fin (Geometry.ofLayout layout params).size, s.charges[i] ≠ .neutral) ∧
      ∀ extended next, extend? alpha s random = some (extended, next) →
        extended.clean = true ∧ ∃ site, FarOff alpha s site ∧ extended = s.set site .negative ∧
          ∀ i : Fin (Geometry.ofLayout layout params).size,
            extended.charges[i] = if i = site then .negative else s.charges[i]) ∧
    ∀ site, FarOff alpha s site →
      ∃ source : RandomSource.Fixed, extend? alpha s source = some (s.set site .negative, source) := by
  have spaced := Geometry.ofLayout_spaced layout params
  refine ⟨fun random => ⟨?_, ?_⟩, ?_⟩
  · rw [extend?, Option.map_eq_none_iff, RandomSource.choose?_eq_none_iff, candidates_eq_nil_iff spaced positive part]
  · intro extended next found
    obtain ⟨⟨site, _⟩, chosen, same⟩ := Option.map_eq_some_iff.mp found
    obtain ⟨rfl, rfl⟩ := Prod.mk.inj same
    have far := (mem_candidates_iff spaced positive part).mp (RandomSource.mem_of_choose? chosen)
    refine ⟨(s.set_clean site .negative).trans clean, site, far, rfl, fun i => ?_⟩
    rw [Surface.set_charges, Vector.at_put]
  · intro site far
    obtain ⟨source, chosen⟩ := RandomSource.exists_choose? ((mem_candidates_iff spaced positive part).mpr far)
    refine ⟨source, ?_⟩
    rw [extend?, chosen]
    rfl

/-- Next to a negative site there is a neutral one, and another one nine columns off, which is the one that turns
    negative. Over floats a site is found as well. -/
theorem extension_progress_row :
    (∃ s : Surface (Geometry.ofLayout (.ofCoords [⟨0, 0, 0⟩, ⟨1, 0, 0⟩, ⟨9, 0, 0⟩]) (.standard : Parameters ℝ)),
      s.states = [.negative, .neutral, .neutral] ∧ s.clean = true ∧
      ∃ extended next, extend? 0.7 s (ChaCha.ofSeed 0) = some (extended, next) ∧
        extended.states = [.negative, .neutral, .negative]) ∧
    ∃ s : Surface (Geometry.ofLayout (.ofCoords [⟨0, 0, 0⟩, ⟨1, 0, 0⟩, ⟨9, 0, 0⟩]) (.standard : Parameters Float)),
      s.states = [.negative, .neutral, .neutral] ∧ s.clean = true ∧
      ∃ extended next, extend? 0.7 s (ChaCha.ofSeed 0) = some (extended, next) := by
  constructor
  · let g := Geometry.ofLayout (.ofCoords [⟨0, 0, 0⟩, ⟨1, 0, 0⟩, ⟨9, 0, 0⟩]) (.standard : Parameters ℝ)
    let s : Surface g := ((Surface.ofGeometry g).assignCharges #v[.negative, .neutral, .neutral]).recompute
    have close : g.distance (1 : Fin 3) (0 : Fin 3) = 0.384 :=
      (Coord.distance_row Lattice.silicon 1 0 0 0).trans (by norm_num [Lattice.silicon])
    have apart : g.distance (2 : Fin 3) (0 : Fin 3) = 3.456 :=
      (Coord.distance_row Lattice.silicon 9 0 0 0).trans (by norm_num [Lattice.silicon])
    have negatives : ∀ j : Fin 3, #v[Charge.negative, .neutral, .neutral][j] = .negative → j = 0 := by decide
    have nearest (site : Fin 3) : IsGap s site (.finite (g.distance site (0 : Fin 3))) := by
      refine ⟨⟨(0 : Fin 3), rfl, rfl, rfl⟩, fun j negative _ => ?_⟩
      rw [negatives j negative]
    obtain ⟨missed, taken⟩ := (extension_progress _ _ (by norm_num : (0 : ℝ) < 0.7) (by norm_num : (0.7 : ℝ) ≤ 1)
      (rfl : s.clean = true)).1 (ChaCha.ofSeed 0)
    cases found : extend? 0.7 s (ChaCha.ofSeed 0) with
    | none => exact absurd rfl (missed.mp found (1 : Fin 3))
    | some result =>
      obtain ⟨_, site, ⟨neutral, gap, widest, isGap, isWidest, far⟩, same, _⟩ := taken _ _ found
      have chosen : site = (2 : Fin 3) := by
        have others : ∀ j : Fin 3, #v[Charge.negative, .neutral, .neutral][j] = .neutral → j = 1 ∨ j = 2 := by decide
        refine (others site neutral).resolve_left fun near => ?_
        have below : gap ≤ .finite (g.distance (1 : Fin 3) (0 : Fin 3)) := isGap.le (near ▸ nearest 1)
        have above : .finite (g.distance (2 : Fin 3) (0 : Fin 3)) ≤ widest := isWidest.bound (2 : Fin 3) _ rfl (nearest 2)
        rw [close] at below
        rw [apart] at above
        cases gap with
        | infinite => exact below
        | finite distance =>
          cases widest with
          | infinite => exact far
          | finite width =>
            have within : distance ≤ 0.384 := below
            have beyond : 3.456 ≤ width := above
            have reached : 0.7 * width ≤ distance := far
            linarith
      refine ⟨s, rfl, rfl, result.1, result.2, found, ?_⟩
      rw [same, chosen]
      exact congrArg Vector.toList (s.set_charges _ _)
  · let g := Geometry.ofLayout (.ofCoords [⟨0, 0, 0⟩, ⟨1, 0, 0⟩, ⟨9, 0, 0⟩]) (.standard : Parameters Float)
    let s : Surface g := ((Surface.ofGeometry g).assignCharges #v[.negative, .neutral, .neutral]).recompute
    obtain ⟨missed, _⟩ := (extension_progress _ _ (by decide : (0 : Float) < 0.7) (by decide : (0.7 : Float) ≤ 1)
      (rfl : s.clean = true)).1 (ChaCha.ofSeed 0)
    refine ⟨s, rfl, rfl, ?_⟩
    cases found : extend? 0.7 s (ChaCha.ofSeed 0) with
    | none => exact absurd rfl (missed.mp found (1 : Fin 3))
    | some result => exact ⟨_, _, rfl⟩

end Growth

end DanglingBond
