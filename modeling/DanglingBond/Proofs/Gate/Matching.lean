import Mathlib
import DanglingBond.Proofs.Gate.Pair
import DanglingBond.Proofs.Geometry.Repulsion
import DanglingBond.Proofs.Scalar.Sorting

/-!
Pairing as a stable matching. Going through the choices of two dots, a choice is passed over only for the
sake of a kept one that comes before it and shares a dot with it (`matchUp_or_blocked`). The closest come
first, so two dots that could have been a pair are either one, or one of them is in a pair that is no longer
(`StableMatching.stable`).
-/

namespace DanglingBond

namespace Coord

instance : Std.TransOrd Coord :=
  inferInstanceAs (Std.TransCmp (compareLex (compareOn Coord.y) (compareLex (compareOn Coord.z) (compareOn Coord.x))))

instance : Std.LawfulEqOrd Coord where
  eq_of_compare := by
    rintro ⟨x, y, z⟩ ⟨x', y', z'⟩ same
    have parts : (compare y y').then ((compare z z').then (compare x x')) = .eq := same
    rw [Ordering.then_eq_eq, Ordering.then_eq_eq] at parts
    rw [Std.LawfulEqOrd.eq_of_compare parts.1, Std.LawfulEqOrd.eq_of_compare parts.2.1,
      Std.LawfulEqOrd.eq_of_compare parts.2.2]

theorem lt_iff {a b : Coord} : a < b ↔ compare a b = .lt := Iff.rfl

theorem ne_of_lt {a b : Coord} (less : a < b) : a ≠ b := by
  rintro rfl
  rw [lt_iff, Std.ReflOrd.compare_self] at less
  contradiction

/-- The place in a column of the first row. -/
def column (x : Int) : Coord := ⟨x, 0, 0⟩

theorem column_lt_iff {x y : Int} : column x < column y ↔ x < y := by
  rw [lt_iff, ← Int.compare_eq_lt]
  exact Iff.rfl

theorem distance_column (x y : Int) :
    distance (Spacing.standard : Spacing ℝ).lattice (column x) (column y) = |((x - y : Int) : ℝ)| * 0.384 := by
  have pitch : (Spacing.standard : Spacing ℝ).lattice.a = 0.384 := rfl
  rw [column, column, distance_row, pitch, abs_mul]
  norm_num

end Coord

namespace BdlPair

/-- One of the two dots of the pair. -/
def Touches (p : BdlPair) (dot : Coord) : Prop := p.upper = dot ∨ p.lower = dot

/-- The distance of the two dots. -/
def length {K : Type} [Elementary K] (spacing : Spacing K) (p : BdlPair) : K :=
  Coord.distance spacing.lattice p.upper p.lower

/-- A matching of dots of one kind into close pairs that no two dots would rather leave for each other. -/
structure StableMatching {K : Type} [Elementary K] (spacing : Spacing K) (kind : SiteKind) (dots : List Coord)
    (pairs : List BdlPair) : Prop where
  /-- The pairs are in the order of their coordinates. -/
  sorted : pairs.Pairwise fun p q => p.upper < q.upper
  formed : ∀ p ∈ pairs, p.kind = kind ∧ p.upper ∈ dots ∧ p.lower ∈ dots ∧ p.upper < p.lower
  close : ∀ p ∈ pairs, p.length spacing ≤ spacing.pairThreshold
  /-- No dot is in two pairs. -/
  disjoint : pairs.Pairwise fun p q => ∀ dot, p.Touches dot → ¬ q.Touches dot
  /-- Of two dots that could be a pair, one is in a pair that is no longer. -/
  stable : ∀ a ∈ dots, ∀ b ∈ dots, a ≠ b → Coord.distance spacing.lattice a b ≤ spacing.pairThreshold →
    ∃ p ∈ pairs, (p.Touches a ∨ p.Touches b) ∧ p.length spacing ≤ Coord.distance spacing.lattice a b

theorem Joins.touches {p : BdlPair} {a b : Coord} (joins : p.Joins a b) : p.Touches a ∧ p.Touches b := by
  rcases joins with ⟨upper, lower⟩ | ⟨upper, lower⟩
  · exact ⟨.inl upper, .inr lower⟩
  · exact ⟨.inr lower, .inl upper⟩

theorem Joins.touches_iff {p : BdlPair} {a b dot : Coord} (joins : p.Joins a b) : p.Touches dot ↔ a = dot ∨ b = dot := by
  unfold Touches
  rcases joins with ⟨rfl, rfl⟩ | ⟨rfl, rfl⟩
  · exact Iff.rfl
  · exact or_comm

theorem of_upper_lt {a b : Coord} (apart : a ≠ b) (kind : SiteKind) : (of kind a b).upper < (of kind a b).lower := by
  unfold of
  cases order : compare a b with
  | lt => exact order
  | eq => exact absurd (Std.LawfulEqOrd.eq_of_compare order) apart
  | gt => exact Std.OrientedCmp.lt_of_gt order

/-! ### Choices of two dots -/

theorem mem_twoOf_iff {α : Type} {elements : List α} {a b : α} : (a, b) ∈ twoOf elements ↔ [a, b].Sublist elements := by
  induction elements with
  | nil => simp [twoOf]
  | cons first others ih =>
    rw [twoOf, List.mem_append, ih, List.sublist_cons_iff]
    simp [and_comm, eq_comm, or_comm]

theorem ne_of_mem_twoOf {α : Type} {elements : List α} (distinct : elements.Nodup) {a b : α}
    (member : (a, b) ∈ twoOf elements) : a ≠ b := by
  have both := distinct.sublist (mem_twoOf_iff.mp member)
  simpa using both

/-- Two different elements are chosen together, the earlier one first. -/
theorem mem_twoOf_or {α : Type} {elements : List α} {a b : α} (first : a ∈ elements) (second : b ∈ elements)
    (apart : a ≠ b) : (a, b) ∈ twoOf elements ∨ (b, a) ∈ twoOf elements := by
  induction elements with
  | nil => simp at first
  | cons head others ih =>
    simp only [twoOf, List.mem_append, List.mem_map, Prod.mk.injEq]
    rcases List.mem_cons.mp first with rfl | firstLater
    · exact .inl (.inl ⟨b, (List.mem_cons.mp second).resolve_left apart.symm, rfl, rfl⟩)
    · rcases List.mem_cons.mp second with rfl | secondLater
      · exact .inr (.inl ⟨a, firstLater, rfl, rfl⟩)
      · exact (ih firstLater secondLater).imp .inr .inr

/-- A choice is kept unless a dot of it was taken before, or is taken by an earlier choice that is kept. -/
theorem matchUp_or_blocked (taken : List Coord) (before after : List (Coord × Coord)) (a b : Coord) :
    (a, b) ∈ matchUp taken (before ++ (a, b) :: after) ∨ (a ∈ taken ∨ b ∈ taken) ∨
      ∃ c d, (c, d) ∈ before ∧ (c, d) ∈ matchUp taken (before ++ (a, b) :: after) ∧ (a ∈ [c, d] ∨ b ∈ [c, d]) := by
  induction before generalizing taken with
  | nil =>
    rw [List.nil_append, matchUp]
    by_cases blocked : a ∈ taken ∨ b ∈ taken
    · exact .inr (.inl blocked)
    · rw [if_neg blocked]
      exact .inl List.mem_cons_self
  | cons choice before ih =>
    obtain ⟨c, d⟩ := choice
    rw [List.cons_append, matchUp]
    by_cases passed : c ∈ taken ∨ d ∈ taken
    · rw [if_pos passed]
      refine (ih taken).imp_right (Or.imp_right ?_)
      rintro ⟨c', d', member, kept, shared⟩
      exact ⟨c', d', List.mem_cons_of_mem _ member, kept, shared⟩
    · rw [if_neg passed]
      rcases ih (c :: d :: taken) with kept | blocked | ⟨c', d', member, kept, shared⟩
      · exact .inl (List.mem_cons_of_mem _ kept)
      · by_cases old : a ∈ taken ∨ b ∈ taken
        · exact .inr (.inl old)
        · refine .inr (.inr ⟨c, d, List.mem_cons_self, List.mem_cons_self, ?_⟩)
          simp only [List.mem_cons, List.not_mem_nil, or_false] at blocked ⊢
          tauto
      · exact .inr (.inr ⟨c', d', List.mem_cons_of_mem _ member, List.mem_cons_of_mem _ kept, shared⟩)

/-! ### The two dots of a pair -/

section
variable {K : Type} [Elementary K] {spacing : Spacing K} {layout : Layout} {kind : SiteKind}

theorem coordsOfKind_nodup (distinct : layout.Distinct) (kind : SiteKind) : (layout.coordsOfKind kind).Nodup :=
  distinct.sublist (List.filter_sublist.map _)

theorem upper_lt_lower (distinct : layout.Distinct) {p : BdlPair} (listed : p ∈ ofLayout spacing layout kind) :
    p.upper < p.lower := by
  obtain ⟨a, b, matched, rfl⟩ := exists_matched listed
  have chosen := mem_twoOf_of_mem_closeChoices (matchUp_subset _ _ matched)
  exact of_upper_lt (ne_of_mem_twoOf (coordsOfKind_nodup distinct kind) chosen) kind

/-- No dot is in two pairs. -/
theorem ofLayout_disjoint (spacing : Spacing K) (layout : Layout) (kind : SiteKind) :
    (ofLayout spacing layout kind).Pairwise fun p q => ∀ dot, p.Touches dot → ¬ q.Touches dot := by
  have symmetric {p q : BdlPair} (apart : ∀ dot, p.Touches dot → ¬ q.Touches dot) : ∀ dot, q.Touches dot → ¬ p.Touches dot :=
    fun dot second first => apart dot first second
  refine ((List.mergeSort_perm _ _).pairwise_iff symmetric).mpr (List.pairwise_map.mpr ?_)
  refine (matchUp_disjoint [] (closeChoices spacing (layout.coordsOfKind kind))).imp ?_
  rintro ⟨a, b⟩ ⟨c, d⟩ ⟨first, second⟩ dot touches other
  rw [(of_joins kind _ _).touches_iff] at touches other
  simp only [List.mem_cons, List.not_mem_nil, or_false] at first second
  grind

end

/-! ### The closest first -/

variable {K : Type} [ExactElementary K] {spacing : Spacing K}

/-- The distance of the two dots of a choice. -/
def reach (spacing : Spacing K) (choice : Coord × Coord) : K := Coord.distance spacing.lattice choice.1 choice.2

/-- The choices that are close enough, in the order of their distances. -/
theorem closeChoices_eq (dots : List Coord) :
    closeChoices spacing dots =
      ((twoOf dots).mergeSort fun p q => Scalar.sortsBefore (reach spacing p) (reach spacing q)).filter
        fun choice => reach spacing choice ≤ spacing.pairThreshold := by
  let measure (choice : Coord × Coord) : K × Coord × Coord := (reach spacing choice, choice)
  have taken : closeChoices spacing dots =
      ((((twoOf dots).map measure).mergeSort fun p q => Scalar.sortsBefore p.1 q.1).takeWhile
        fun choice => ¬ spacing.pairThreshold < choice.1).map (·.2) := rfl
  have measured : ((twoOf dots).map measure).mergeSort (fun p q => Scalar.sortsBefore p.1 q.1) =
      ((twoOf dots).mergeSort fun p q => Scalar.sortsBefore (reach spacing p) (reach spacing q)).map measure := by
    rw [List.map_mergeSort]
    exact fun _ _ _ _ => rfl
  have front : (fun choice : K × Coord × Coord => decide (¬ spacing.pairThreshold < choice.1)) ∘ measure =
      fun choice => decide (reach spacing choice ≤ spacing.pairThreshold) := by
    funext choice
    simp only [Function.comp_apply, measure, not_lt]
  rw [taken, measured, List.takeWhile_map, List.map_map, front, Scalar.takeWhile_eq_filter]
  · exact List.map_id _
  · refine (Scalar.pairwise_sortBy (reach spacing) (twoOf dots)).imp ?_
    intro p q before close
    exact decide_eq_true ((of_decide_eq_true before).trans (of_decide_eq_true close))

theorem mem_closeChoices_iff {dots : List Coord} {choice : Coord × Coord} : choice ∈ closeChoices spacing dots ↔
    choice ∈ twoOf dots ∧ reach spacing choice ≤ spacing.pairThreshold := by
  rw [closeChoices_eq, List.mem_filter, List.mem_mergeSort, decide_eq_true_eq]

theorem closeChoices_sorted (spacing : Spacing K) (dots : List Coord) :
    (closeChoices spacing dots).Pairwise fun p q => reach spacing p ≤ reach spacing q := by
  rw [closeChoices_eq]
  refine ((Scalar.pairwise_sortBy (reach spacing) (twoOf dots)).filter _).imp ?_
  exact of_decide_eq_true

/-- The choice of the first two dots comes before all others of its length. -/
theorem closeChoices_first {a b : Coord} (others : List Coord)
    (close : Coord.distance spacing.lattice a b ≤ spacing.pairThreshold) :
    ∃ before after, closeChoices spacing (a :: b :: others) = before ++ (a, b) :: after ∧
      ∀ choice ∈ before, reach spacing choice < Coord.distance spacing.lattice a b := by
  have first : twoOf (a :: b :: others) = (a, b) :: (others.map (a, ·) ++ twoOf (b :: others)) := rfl
  obtain ⟨before, after, sorted, _, shorter⟩ := List.mergeSort_cons
    (fun p q r => Scalar.LawfulSort.trans (reach spacing p) (reach spacing q) (reach spacing r))
    (fun p q => Scalar.LawfulSort.total (reach spacing p) (reach spacing q))
    (a, b) (others.map (a, ·) ++ twoOf (b :: others))
  refine ⟨before.filter fun choice => reach spacing choice ≤ spacing.pairThreshold,
    after.filter fun choice => reach spacing choice ≤ spacing.pairThreshold, ?_, ?_⟩
  · rw [closeChoices_eq, first, sorted, List.filter_append, List.filter_cons_of_pos]
    exact decide_eq_true close
  · intro choice member
    have later : Scalar.sortsBefore (reach spacing (a, b)) (reach spacing choice) = false := by
      simpa only [Bool.not_eq_true'] using shorter choice (List.mem_of_mem_filter member)
    exact not_le.mp (of_decide_eq_false later)

/-! ### The pairs of a layout -/

theorem Joins.length_eq {p : BdlPair} {a b : Coord} (joins : p.Joins a b) :
    p.length spacing = Coord.distance spacing.lattice a b := by
  rcases joins with ⟨rfl, rfl⟩ | ⟨rfl, rfl⟩
  · rfl
  · exact Coord.distance_comm _ _ _

instance : Std.TransOrd SiteKind := inferInstanceAs (Std.TransCmp (compareOn SiteKind.ctorIdx))

instance : Std.TransOrd BdlPair :=
  inferInstanceAs (Std.TransCmp (compareLex (compareOn BdlPair.upper)
    (compareLex (compareOn BdlPair.lower) (compareOn BdlPair.kind))))

instance : Std.LawfulEqOrd SiteKind where
  eq_of_compare := by
    intro kind other same
    have index : kind.ctorIdx = other.ctorIdx := Std.LawfulEqOrd.eq_of_compare same
    cases kind <;> cases other <;> first | rfl | contradiction

instance : Std.LawfulEqOrd BdlPair where
  eq_of_compare := by
    rintro ⟨upper, lower, kind⟩ ⟨upper', lower', kind'⟩ same
    have parts : (compare upper upper').then ((compare lower lower').then (compare kind kind')) = .eq := same
    rw [Ordering.then_eq_eq, Ordering.then_eq_eq] at parts
    rw [Std.LawfulEqOrd.eq_of_compare parts.1, Std.LawfulEqOrd.eq_of_compare parts.2.1,
      Std.LawfulEqOrd.eq_of_compare parts.2.2]

theorem pairwise_mergeSort_le (pairs : List BdlPair) : (pairs.mergeSort le).Pairwise fun p q => (compare p q).isLE = true := by
  apply List.pairwise_mergeSort
  · intro p q r
    exact Std.TransCmp.isLE_trans
  · intro p q
    have swapped : compare q p = (compare p q).swap := Std.OrientedCmp.eq_swap
    rw [swapped]
    cases compare p q <;> rfl

theorem pairwise_mergeSort_lt {pairs : List BdlPair} (distinct : pairs.Nodup) :
    (pairs.mergeSort le).Pairwise fun p q => compare p q = .lt := by
  have apart : (pairs.mergeSort le).Nodup := (List.mergeSort_perm _ _).nodup_iff.mpr distinct
  refine ((pairwise_mergeSort_le pairs).and apart).imp ?_
  rintro p q ⟨before, different⟩
  exact (Ordering.isLE_iff_eq_lt_or_eq_eq.mp before).resolve_right fun same =>
    different (Std.LawfulEqOrd.eq_of_compare same)

theorem upper_lt_of_le {p q : BdlPair} (order : (compare p q).isLE = true) (apart : p.upper ≠ q.upper) : p.upper < q.upper := by
  have lexicographic : compare p q = (compare p.upper q.upper).then
    ((compare p.lower q.lower).then (compare p.kind q.kind)) := rfl
  rw [lexicographic] at order
  cases upper : compare p.upper q.upper with
  | lt => exact upper
  | eq => exact absurd (Std.LawfulEqOrd.eq_of_compare upper) apart
  | gt =>
    rw [upper] at order
    contradiction

variable {layout : Layout} {kind : SiteKind}

theorem mem_ofLayout_of_matched {a b : Coord}
    (matched : (a, b) ∈ matchUp [] (closeChoices spacing (layout.coordsOfKind kind))) :
    of kind a b ∈ ofLayout spacing layout kind :=
  List.mem_mergeSort.mpr (List.mem_map.mpr ⟨(a, b), matched, rfl⟩)

/-- A close choice is a pair, or one of its dots is in a pair of a choice that comes before it. -/
theorem paired_or_blocked {before after : List (Coord × Coord)} {a b : Coord}
    (split : closeChoices spacing (layout.coordsOfKind kind) = before ++ (a, b) :: after) :
    of kind a b ∈ ofLayout spacing layout kind ∨
      ∃ p ∈ ofLayout spacing layout kind, (p.Touches a ∨ p.Touches b) ∧ ∃ choice ∈ before, p.length spacing = reach spacing choice := by
  rcases matchUp_or_blocked [] before after a b with kept | taken | ⟨c, d, earlier, kept, shared⟩
  · exact .inl (mem_ofLayout_of_matched (split ▸ kept))
  · simp at taken
  · refine .inr ⟨of kind c d, mem_ofLayout_of_matched (split ▸ kept), ?_, (c, d), earlier, (of_joins kind c d).length_eq⟩
    rw [(of_joins kind c d).touches_iff, (of_joins kind c d).touches_iff]
    simpa [eq_comm] using shared

theorem ofLayout_stable (distinct : layout.Distinct) (kind : SiteKind) :
    StableMatching spacing kind (layout.coordsOfKind kind) (ofLayout spacing layout kind) := by
  have disjoint := ofLayout_disjoint spacing layout kind
  refine ⟨?_, ?_, ?_, disjoint, ?_⟩
  · refine (disjoint.and (pairwise_mergeSort_le _)).imp ?_
    rintro p q ⟨apart, order⟩
    exact upper_lt_of_le order fun same => apart p.upper (.inl rfl) (.inl same.symm)
  · intro p listed
    obtain ⟨sameKind, upper, lower⟩ := mem_ofLayout listed
    exact ⟨sameKind, upper, lower, upper_lt_lower distinct listed⟩
  · intro p listed
    obtain ⟨a, b, matched, rfl⟩ := exists_matched listed
    rw [(of_joins kind a b).length_eq]
    exact (mem_closeChoices_iff.mp (matchUp_subset _ _ matched)).2
  · intro a first b second apart close
    have listed {c d : Coord} (chosen : (c, d) ∈ twoOf (layout.coordsOfKind kind))
        (near : Coord.distance spacing.lattice c d ≤ spacing.pairThreshold) :
        ∃ p ∈ ofLayout spacing layout kind, (p.Touches c ∨ p.Touches d) ∧ p.length spacing ≤ Coord.distance spacing.lattice c d := by
      obtain ⟨before, after, split⟩ := List.append_of_mem (mem_closeChoices_iff.mpr ⟨chosen, near⟩)
      rcases paired_or_blocked split with paired | ⟨p, member, touches, choice, earlier, same⟩
      · exact ⟨_, paired, .inl (of_joins kind c d).touches.1, (of_joins kind c d).length_eq.le⟩
      · have sorted := closeChoices_sorted spacing (layout.coordsOfKind kind)
        rw [split] at sorted
        refine ⟨p, member, touches, same.trans_le ?_⟩
        exact (List.pairwise_append.mp sorted).2.2 choice earlier (c, d) List.mem_cons_self
    rcases mem_twoOf_or first second apart with chosen | chosen
    · exact listed chosen close
    · rw [Coord.distance_comm] at close ⊢
      obtain ⟨p, member, touches, short⟩ := listed chosen close
      exact ⟨p, member, touches.symm, short⟩

/-- However a layout is built, the pairs among its dots of one kind are a stable matching: sorted by coordinates,
    each of two different dots that are close enough, no dot in two of them, and of two dots that are close enough
    one is in a pair that is no longer than the two are apart. So two dots without a pair are too far apart. -/
theorem pairing_stable (spacing : Spacing K) (sites : List Site) (kind : SiteKind) :
    let dots := (Layout.ofSites sites).coordsOfKind kind
    let pairs := ofLayout spacing (.ofSites sites) kind
    StableMatching spacing kind dots pairs ∧
      ∀ a ∈ dots, ∀ b ∈ dots, a ≠ b → (∀ p ∈ pairs, ¬ p.Touches a ∧ ¬ p.Touches b) →
        spacing.pairThreshold < Coord.distance spacing.lattice a b := by
  intro dots pairs
  have matching : StableMatching spacing kind dots pairs := ofLayout_stable (Layout.ofSites_distinct sites) kind
  refine ⟨matching, fun a first b second apart unpaired => ?_⟩
  by_contra close
  obtain ⟨p, listed, touches, _⟩ := matching.stable a first b second apart (not_lt.mp close)
  rcases touches with touches | touches
  · exact (unpaired p listed).1 touches
  · exact (unpaired p listed).2 touches

/-- Of three inputs in a row the closest two are paired, though the first is close enough to both. -/
theorem pairing_stable_triple :
    ∃ p ∈ ofLayout (.standard : Spacing ℝ) (.ofSites [⟨.column 0, .input⟩, ⟨.column 2, .input⟩, ⟨.column 3, .input⟩]) .input,
      p.upper = .column 2 ∧ p.lower = .column 3 := by
  obtain ⟨matching, _⟩ := pairing_stable (.standard : Spacing ℝ)
    [⟨.column 0, .input⟩, ⟨.column 2, .input⟩, ⟨.column 3, .input⟩] .input
  have dots : (Layout.ofSites [⟨.column 0, .input⟩, ⟨.column 2, .input⟩, ⟨.column 3, .input⟩]).coordsOfKind .input =
      [0, 2, 3].map .column := by decide
  rw [dots] at matching
  have threshold : (Spacing.standard : Spacing ℝ).pairThreshold = 2.0 := rfl
  obtain ⟨p, listed, touches, short⟩ := matching.stable (.column 2) (by simp) (.column 3) (by simp) (by decide)
    (by rw [Coord.distance_column, threshold]; norm_num)
  obtain ⟨_, upper, lower, order⟩ := matching.formed p listed
  obtain ⟨x, first, leftmost⟩ := List.mem_map.mp upper
  obtain ⟨y, second, rightmost⟩ := List.mem_map.mp lower
  rw [← leftmost, ← rightmost, Coord.column_lt_iff] at order
  rw [length, ← leftmost, ← rightmost, Coord.distance_column, Coord.distance_column] at short
  have near : |x - y| ≤ |2 - 3| := by
    exact_mod_cast le_of_mul_le_mul_right short (by norm_num)
  have neighbours : x = 2 ∧ y = 3 := by
    simp only [List.mem_cons, List.not_mem_nil, or_false] at first second
    have step : y - x ≤ 1 := neg_sub x y ▸ (neg_le_abs (x - y)).trans near
    omega
  refine ⟨p, listed, ?_, ?_⟩
  · rw [← leftmost, neighbours.1]
  · rw [← rightmost, neighbours.2]

end BdlPair

end DanglingBond
