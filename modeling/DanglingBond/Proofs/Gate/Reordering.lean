import Mathlib
import DanglingBond.Proofs.Gate.Matching
import DanglingBond.Proofs.Layout.History

/-!
The order of the sites matters to the pairs of a layout exactly when a tie is left open (`OpenTie`). The shortest
pair that only one of two stable matchings has is rivalled by one of its own length that only the other has
(`StableMatching.rival`), so without such a tie there is a single stable matching (`StableMatching.unique`). Where
there is a tie, it is won by the choice whose dots were placed first (`mem_ofLayout_of_first`).
-/

namespace DanglingBond.BdlPair

section
variable {K : Type} [Elementary K]

/-- A dot is as far from one dot as from another, close enough to be paired with either, and none of the three is in
    a shorter pair. -/
def OpenTie (spacing : Spacing K) (dots : List Coord) (pairs : List BdlPair) : Prop :=
  ∃ a ∈ dots, ∃ b ∈ dots, ∃ c ∈ dots, a ≠ b ∧ a ≠ c ∧ b ≠ c ∧
    Coord.distance spacing.lattice a b = Coord.distance spacing.lattice a c ∧
    Coord.distance spacing.lattice a b ≤ spacing.pairThreshold ∧
    ∀ p ∈ pairs, p.Touches a ∨ p.Touches b ∨ p.Touches c →
      Coord.distance spacing.lattice a b ≤ p.length spacing

end

theorem Touches.joins {p : BdlPair} {dot : Coord} (touches : p.Touches dot) : ∃ other, p.Joins dot other := by
  rcases touches with upper | lower
  · exact ⟨p.lower, .inl ⟨upper, rfl⟩⟩
  · exact ⟨p.upper, .inr ⟨rfl, lower⟩⟩

theorem Joins.eq {p q : BdlPair} {a b : Coord} (left : p.Joins a b) (right : q.Joins a b) (sameKind : p.kind = q.kind)
    (order : p.upper < p.lower) (order' : q.upper < q.lower) : p = q := by
  obtain ⟨upper, lower, kind⟩ := p
  obtain ⟨upper', lower', kind'⟩ := q
  obtain rfl : kind = kind' := sameKind
  rcases left with ⟨rfl, rfl⟩ | ⟨rfl, rfl⟩
  · rcases right with ⟨rfl, rfl⟩ | ⟨rfl, rfl⟩
    · rfl
    · exact absurd order' (Std.OrientedCmp.not_lt_of_lt order)
  · rcases right with ⟨rfl, rfl⟩ | ⟨rfl, rfl⟩
    · exact absurd order' (Std.OrientedCmp.not_lt_of_lt order)
    · rfl

variable {K : Type} [ExactElementary K] {spacing : Spacing K} {kind : SiteKind}

namespace StableMatching

variable {dots rearranged : List Coord} {pairs others : List BdlPair}

theorem of_perm (matching : StableMatching spacing kind rearranged pairs) (reordered : rearranged.Perm dots) :
    StableMatching spacing kind dots pairs where
  sorted := matching.sorted
  formed p listed := by
    obtain ⟨sameKind, upper, lower, order⟩ := matching.formed p listed
    exact ⟨sameKind, reordered.mem_iff.mp upper, reordered.mem_iff.mp lower, order⟩
  close := matching.close
  disjoint := matching.disjoint
  stable a first b second := matching.stable a (reordered.mem_iff.mpr first) b (reordered.mem_iff.mpr second)

theorem eq_of_touches (matching : StableMatching spacing kind dots pairs) {p q : BdlPair} {dot : Coord}
    (first : p ∈ pairs) (second : q ∈ pairs) (touches : p.Touches dot) (shared : q.Touches dot) : p = q := by
  have symmetric : Std.Symm fun p q : BdlPair => ∀ dot, p.Touches dot → ¬ q.Touches dot :=
    ⟨fun p q apart dot touches shared => apart dot shared touches⟩
  by_contra different
  exact matching.disjoint.forall first second different dot touches shared

/-- The two dots of a pair, when one of them is known. -/
theorem partner (matching : StableMatching spacing kind dots pairs) {p : BdlPair} {dot : Coord} (listed : p ∈ pairs)
    (touches : p.Touches dot) : ∃ other ∈ dots, dot ∈ dots ∧ dot ≠ other ∧ p.Joins dot other := by
  obtain ⟨other, joins⟩ := touches.joins
  obtain ⟨_, upper, lower, order⟩ := matching.formed p listed
  rcases joins with ⟨rfl, rfl⟩ | ⟨rfl, rfl⟩
  · exact ⟨p.lower, lower, upper, Coord.ne_of_lt order, .inl ⟨rfl, rfl⟩⟩
  · exact ⟨p.upper, upper, lower, (Coord.ne_of_lt order).symm, .inr ⟨rfl, rfl⟩⟩

/-- A pair that only one matching has shares a dot with one that only the other has, and that is as long if the
    matchings have the same shorter pairs. -/
theorem rival (matching : StableMatching spacing kind dots pairs) (second : StableMatching spacing kind dots others)
    {q : BdlPair} (listed : q ∈ others) (missing : q ∉ pairs)
    (agree : ∀ p, p.length spacing < q.length spacing → (p ∈ pairs ↔ p ∈ others)) :
    ∃ p ∈ pairs, p ∉ others ∧ p.length spacing = q.length spacing ∧ ∃ dot, p.Touches dot ∧ q.Touches dot := by
  obtain ⟨_, upper, lower, order⟩ := second.formed q listed
  obtain ⟨p, kept, touches, short⟩ := matching.stable q.upper upper q.lower lower (Coord.ne_of_lt order)
    (second.close q listed)
  have shared : ∃ dot, p.Touches dot ∧ q.Touches dot := by
    rcases touches with touches | touches
    · exact ⟨q.upper, touches, .inl rfl⟩
    · exact ⟨q.lower, touches, .inr rfl⟩
  have only : p ∉ others := by
    intro both
    obtain ⟨dot, touches, also⟩ := shared
    exact missing (second.eq_of_touches both listed touches also ▸ kept)
  refine ⟨p, kept, only, ?_, shared⟩
  rcases short.lt_or_eq with shorter | same
  · exact absurd ((agree p shorter).mp kept) only
  · exact same

/-- Rivals are a tie, and an open one if the matchings have the same shorter pairs. -/
theorem openTie (matching : StableMatching spacing kind dots pairs) (second : StableMatching spacing kind dots others)
    {p q : BdlPair} {dot : Coord} (kept : p ∈ pairs) (listed : q ∈ others) (missing : q ∉ pairs)
    (same : p.length spacing = q.length spacing) (touches : p.Touches dot) (shared : q.Touches dot)
    (agree : ∀ r, r.length spacing < q.length spacing → (r ∈ pairs ↔ r ∈ others)) : OpenTie spacing dots pairs := by
  obtain ⟨b, first, inside, different, left⟩ := matching.partner kept touches
  obtain ⟨c, second', _, different', right⟩ := second.partner listed shared
  have apart : b ≠ c := by
    rintro rfl
    obtain ⟨sameKind, _, _, order⟩ := matching.formed p kept
    obtain ⟨alsoKind, _, _, order'⟩ := second.formed q listed
    exact missing (left.eq right (sameKind.trans alsoKind.symm) order order' ▸ kept)
  refine ⟨dot, inside, b, first, c, second', different, different', apart, ?_, ?_, ?_⟩
  · rw [← left.length_eq, ← right.length_eq, same]
  · rw [← left.length_eq]
    exact matching.close p kept
  · intro r member three
    rw [← left.length_eq]
    by_contra long
    have shorter := lt_of_lt_of_eq (not_le.mp long) same
    -- A shorter pair is in both matchings, so it is the pair of its dot in either of them.
    have either : r = p ∨ r = q := by
      rcases three with touched | touched | touched
      · exact .inl (matching.eq_of_touches member kept touched touches)
      · exact .inl (matching.eq_of_touches member kept touched left.touches.2)
      · exact .inr (second.eq_of_touches ((agree r shorter).mp member) listed touched right.touches.2)
    rcases either with rfl | rfl
    · exact long le_rfl
    · exact lt_irrefl _ shorter

/-- Where no tie is left open there is no other stable matching. -/
theorem unique (matching : StableMatching spacing kind dots pairs) (second : StableMatching spacing kind dots others)
    (untied : ¬ OpenTie spacing dots pairs) : others = pairs := by
  have agree : ∀ p, p ∈ others ↔ p ∈ pairs := by
    by_contra differ
    have some : (symmDiff others.toFinset pairs.toFinset).Nonempty := by
      rw [Finset.nonempty_iff_ne_empty, Ne, ← Finset.bot_eq_empty, symmDiff_eq_bot, Finset.ext_iff]
      simpa using differ
    obtain ⟨p, only, shortest⟩ := Finset.exists_min_image _ (length spacing) some
    have agree (r : BdlPair) (shorter : r.length spacing < p.length spacing) : r ∈ pairs ↔ r ∈ others := by
      by_contra differs
      refine absurd (shortest r ?_) (not_le.mpr shorter)
      rw [Finset.mem_symmDiff, List.mem_toFinset, List.mem_toFinset]
      tauto
    rw [Finset.mem_symmDiff, List.mem_toFinset, List.mem_toFinset] at only
    rcases only with ⟨listed, missing⟩ | ⟨kept, missing⟩
    · obtain ⟨q, kept, _, same, dot, touches, shared⟩ := matching.rival second listed missing agree
      exact untied (matching.openTie second kept listed missing same touches shared agree)
    · obtain ⟨q, listed, only, same, dot, shared, touches⟩ :=
        second.rival matching kept missing fun r shorter => (agree r shorter).symm
      exact untied (matching.openTie second kept listed only same.symm touches shared (same ▸ agree))
  have nodup {list : List BdlPair} (sorted : list.Pairwise fun p q => p.upper < q.upper) : list.Nodup := by
    refine sorted.imp ?_
    rintro p q less rfl
    exact Coord.ne_of_lt less rfl
  refine List.Perm.eq_of_pairwise ?_ second.sorted matching.sorted
    ((List.perm_ext_iff_of_nodup (nodup second.sorted) (nodup matching.sorted)).mpr agree)
  intro p q _ _ less greater
  exact absurd greater (Std.OrientedCmp.not_lt_of_lt less)

end StableMatching

/-- The first two dots are a pair if neither of them is in a shorter one. -/
theorem mem_ofLayout_of_first {layout : Layout} {a b : Coord} {others : List Coord}
    (first : layout.coordsOfKind kind = a :: b :: others)
    (close : Coord.distance spacing.lattice a b ≤ spacing.pairThreshold)
    (free : ∀ p ∈ ofLayout spacing layout kind, p.Touches a ∨ p.Touches b →
      Coord.distance spacing.lattice a b ≤ p.length spacing) : of kind a b ∈ ofLayout spacing layout kind := by
  obtain ⟨before, after, split, shorter⟩ := closeChoices_first others close
  rw [← first] at split
  rcases paired_or_blocked split with paired | ⟨p, listed, touches, choice, earlier, same⟩
  · exact paired
  · exact absurd (free p listed touches) (not_le.mpr (same.trans_lt (shorter choice earlier)))

/-- The sites can be placed in such an order that two dots come before all others of their kind. -/
theorem exists_first (sites : List Site) {a b : Coord} (first : a ∈ (Layout.ofSites sites).coordsOfKind kind)
    (second : b ∈ (Layout.ofSites sites).coordsOfKind kind) (apart : a ≠ b) :
    ∃ reordered others, (Layout.ofSites reordered).sites.Perm (Layout.ofSites sites).sites ∧
      (Layout.ofSites reordered).coordsOfKind kind = a :: b :: others := by
  let others := ((Layout.ofSites sites).sites.erase ⟨a, kind⟩).erase ⟨b, kind⟩
  have reordered : (Layout.ofSites sites).sites.Perm (⟨a, kind⟩ :: ⟨b, kind⟩ :: others) := by
    refine (List.perm_cons_erase (Layout.mem_coordsOfKind_iff.mp first)).trans (.cons _ (List.perm_cons_erase ?_))
    exact (List.mem_erase_of_ne (by simpa using apart.symm)).mpr (Layout.mem_coordsOfKind_iff.mp second)
  have distinct := ((reordered.map Site.coord).nodup_iff).mp (Layout.ofSites_distinct sites)
  have rebuilt := Layout.ofSites_sites distinct fun site member =>
    Layout.ofSites_inhabited sites site (reordered.mem_iff.mpr member)
  refine ⟨⟨a, kind⟩ :: ⟨b, kind⟩ :: others, (others.filter (·.kind = kind)).map (·.coord), ?_, ?_⟩
  · rw [rebuilt]
    exact reordered.symm
  · rw [Layout.coordsOfKind, rebuilt]
    simp

/-- Layouts with the same sites have the same pairs, in whatever order the sites were placed, exactly when no tie is
    left open: no dot is equally far, and not too far, from two others, with none of the three in a shorter pair. -/
theorem reordered_ofLayout_eq_iff (spacing : Spacing K) (sites : List Site) (kind : SiteKind) :
    (∀ reordered, (Layout.ofSites reordered).sites.Perm (Layout.ofSites sites).sites →
      ofLayout spacing (.ofSites reordered) kind = ofLayout spacing (.ofSites sites) kind) ↔
    ¬ OpenTie spacing ((Layout.ofSites sites).coordsOfKind kind) (ofLayout spacing (.ofSites sites) kind) := by
  have stable (sites : List Site) : StableMatching spacing kind ((Layout.ofSites sites).coordsOfKind kind)
      (ofLayout spacing (.ofSites sites) kind) := ofLayout_stable (Layout.ofSites_distinct sites) kind
  constructor
  · rintro independent ⟨a, first, b, second, c, third, ab, ac, bc, equal, close, free⟩
    -- Placed first, each of the two choices of the tie becomes a pair.
    have paired {dot : Coord} (member : dot ∈ (Layout.ofSites sites).coordsOfKind kind) (apart : a ≠ dot)
        (same : Coord.distance spacing.lattice a b = Coord.distance spacing.lattice a dot)
        (tied : ∀ p : BdlPair, p.Touches dot → p.Touches b ∨ p.Touches c) :
        of kind a dot ∈ ofLayout spacing (.ofSites sites) kind := by
      obtain ⟨reordered, others, sameSites, front⟩ := exists_first sites first member apart
      rw [← independent reordered sameSites]
      refine mem_ofLayout_of_first front (same ▸ close) ?_
      rw [independent reordered sameSites, ← same]
      intro p listed touches
      exact free p listed (touches.imp_right (tied p))
    have left := paired second ab rfl fun p touches => .inl touches
    have right := paired third ac equal fun p touches => .inr touches
    have single := (stable sites).eq_of_touches left right (of_joins kind a b).touches.1 (of_joins kind a c).touches.1
    have both := (of_joins kind a c).touches_iff.mp (single ▸ (of_joins kind a b).touches.2)
    exact both.elim ab (bc ·.symm)
  · intro untied reordered sameSites
    exact (stable sites).unique ((stable reordered).of_perm ((sameSites.filter _).map _)) untied

/-- In a row no two dots are closer than neighbours, so neighbours that were placed first are a pair. -/
theorem mem_ofLayout_of_neighbours {sites : List Site} {x y : Int} {others : List Int}
    (row : (Layout.ofSites sites).coordsOfKind kind = (x :: y :: others).map .column) (neighbours : |x - y| = 1) :
    of kind (.column x) (.column y) ∈ ofLayout (.standard : Spacing ℝ) (.ofSites sites) kind := by
  have pitch : Coord.distance (Spacing.standard : Spacing ℝ).lattice (.column x) (.column y) = 0.384 := by
    rw [Coord.distance_column, ← Int.cast_abs, neighbours, Int.cast_one, one_mul]
  have threshold : (Spacing.standard : Spacing ℝ).pairThreshold = 2.0 := rfl
  refine mem_ofLayout_of_first row ?_ fun p listed _ => ?_
  · rw [pitch, threshold]
    norm_num
  · obtain ⟨_, upper, lower, order⟩ := (ofLayout_stable (Layout.ofSites_distinct sites) kind).formed p listed
    rw [row] at upper lower
    obtain ⟨left, _, leftmost⟩ := List.mem_map.mp upper
    obtain ⟨right, _, rightmost⟩ := List.mem_map.mp lower
    rw [← leftmost, ← rightmost, Coord.column_lt_iff] at order
    have least : (1 : ℝ) ≤ |((left - right : Int) : ℝ)| := by
      exact_mod_cast Int.one_le_abs (by omega)
    rw [pitch, length, ← leftmost, ← rightmost, Coord.distance_column]
    linarith

/-- Of three dots in a row the middle one goes with the outer one that was placed before the other. -/
theorem ofLayout_depends_on_order :
    let sites : List Site := [⟨.column 0, .normal⟩, ⟨.column 1, .normal⟩, ⟨.column 2, .normal⟩]
    (Layout.ofSites sites.reverse).sites.Perm (Layout.ofSites sites).sites ∧
      ⟨.column 0, .column 1, .normal⟩ ∈ ofLayout (.standard : Spacing ℝ) (.ofSites sites) .normal ∧
      ⟨.column 1, .column 2, .normal⟩ ∈ ofLayout (.standard : Spacing ℝ) (.ofSites sites.reverse) .normal ∧
      ofLayout (.standard : Spacing ℝ) (.ofSites sites.reverse) .normal ≠
        ofLayout (.standard : Spacing ℝ) (.ofSites sites) .normal := by
  intro sites
  have forward : (Layout.ofSites sites).coordsOfKind .normal = [0, 1, 2].map .column := by decide
  have backward : (Layout.ofSites sites.reverse).coordsOfKind .normal = [2, 1, 0].map .column := by decide
  have left : ⟨.column 0, .column 1, .normal⟩ ∈ ofLayout (.standard : Spacing ℝ) (.ofSites sites) .normal :=
    mem_ofLayout_of_neighbours forward (by decide)
  have right : ⟨.column 1, .column 2, .normal⟩ ∈ ofLayout (.standard : Spacing ℝ) (.ofSites sites.reverse) .normal :=
    mem_ofLayout_of_neighbours backward (by decide)
  refine ⟨by decide, left, right, fun same => ?_⟩
  rw [same] at right
  have single := (ofLayout_stable (Layout.ofSites_distinct sites) .normal).eq_of_touches left right (.inr rfl) (.inl rfl)
  exact absurd single (by decide)

end DanglingBond.BdlPair
