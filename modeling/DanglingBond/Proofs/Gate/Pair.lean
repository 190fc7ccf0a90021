import Mathlib
import DanglingBond.Gate.Pair
import DanglingBond.Proofs.Layout.Occupancy

/-!
The pairs of a layout. The two dots of a pair are dots of its kind (`mem_ofLayout`), and a dot that is
taken is not taken again, so no pair is listed twice (`ofLayout_nodup`). As a place has one kind, pairs in
the same place are the same pair, whatever kinds of pairs are looked at together (`eq_of_samePlace`).
-/

namespace DanglingBond.BdlPair

theorem mem_of_mem_twoOf {α : Type} {elements : List α} {choice : α × α} (member : choice ∈ twoOf elements) :
    choice.1 ∈ elements ∧ choice.2 ∈ elements := by
  induction elements with
  | nil => simp [twoOf] at member
  | cons first others ih =>
    rcases List.mem_append.mp member with chosen | later
    · obtain ⟨second, inside, rfl⟩ := List.mem_map.mp chosen
      exact ⟨List.mem_cons_self, List.mem_cons_of_mem first inside⟩
    · obtain ⟨left, right⟩ := ih later
      exact ⟨List.mem_cons_of_mem first left, List.mem_cons_of_mem first right⟩

theorem matchUp_subset (taken : List Coord) (choices : List (Coord × Coord)) : matchUp taken choices ⊆ choices := by
  induction choices generalizing taken with
  | nil => simp [matchUp]
  | cons choice choices ih =>
    obtain ⟨a, b⟩ := choice
    rw [matchUp]
    split
    · exact List.subset_cons_of_subset _ (ih taken)
    · exact List.cons_subset_cons _ (ih _)

theorem notMem_taken {taken : List Coord} {choices : List (Coord × Coord)} {matched : Coord × Coord}
    (member : matched ∈ matchUp taken choices) : matched.1 ∉ taken ∧ matched.2 ∉ taken := by
  induction choices generalizing taken with
  | nil => simp [matchUp] at member
  | cons choice choices ih =>
    obtain ⟨a, b⟩ := choice
    rw [matchUp] at member
    split at member
    · exact ih member
    · rename_i untaken
      rcases List.mem_cons.mp member with rfl | later
      · exact not_or.mp untaken
      · obtain ⟨first, second⟩ := ih later
        simp only [List.mem_cons, not_or] at first second
        exact ⟨first.2.2, second.2.2⟩

theorem matchUp_disjoint (taken : List Coord) (choices : List (Coord × Coord)) :
    (matchUp taken choices).Pairwise fun matched later =>
      later.1 ∉ [matched.1, matched.2] ∧ later.2 ∉ [matched.1, matched.2] := by
  induction choices generalizing taken with
  | nil => exact .nil
  | cons choice choices ih =>
    obtain ⟨a, b⟩ := choice
    rw [matchUp]
    split
    · exact ih taken
    · refine .cons ?_ (ih _)
      intro later member
      obtain ⟨first, second⟩ := notMem_taken member
      simp only [List.mem_cons, not_or] at first second
      simp [first.1, first.2.1, second.1, second.2.1]

/-- The two dots of the pair, in either order. -/
def Joins (p : BdlPair) (a b : Coord) : Prop := (p.upper = a ∧ p.lower = b) ∨ (p.upper = b ∧ p.lower = a)

theorem of_joins (kind : SiteKind) (a b : Coord) : (of kind a b).Joins a b := by
  unfold of
  split
  · exact .inl ⟨rfl, rfl⟩
  · exact .inr ⟨rfl, rfl⟩

theorem of_kind (kind : SiteKind) (a b : Coord) : (of kind a b).kind = kind := by
  unfold of
  split <;> rfl

variable {K : Type} [Elementary K] {spacing : Spacing K} {layout : Layout}

theorem mem_twoOf_of_mem_closeChoices {dots : List Coord} {choice : Coord × Coord}
    (member : choice ∈ closeChoices spacing dots) : choice ∈ twoOf dots := by
  obtain ⟨measured, kept, rfl⟩ := List.mem_map.mp member
  have sorted := List.mem_mergeSort.mp ((List.takeWhile_sublist _).mem kept)
  obtain ⟨choice, chosen, rfl⟩ := List.mem_map.mp sorted
  exact chosen

theorem exists_matched {kind : SiteKind} {p : BdlPair} (listed : p ∈ ofLayout spacing layout kind) :
    ∃ a b, (a, b) ∈ matchUp [] (closeChoices spacing (layout.coordsOfKind kind)) ∧ of kind a b = p := by
  obtain ⟨⟨a, b⟩, matched, formed⟩ := List.mem_map.mp (List.mem_mergeSort.mp listed)
  exact ⟨a, b, matched, formed⟩

theorem mem_ofLayout {kind : SiteKind} {pair : BdlPair} (member : pair ∈ ofLayout spacing layout kind) :
    pair.kind = kind ∧ pair.upper ∈ layout.coordsOfKind kind ∧ pair.lower ∈ layout.coordsOfKind kind := by
  obtain ⟨a, b, matched, rfl⟩ := exists_matched member
  obtain ⟨first, second⟩ := mem_of_mem_twoOf (mem_twoOf_of_mem_closeChoices (matchUp_subset _ _ matched))
  refine ⟨of_kind kind a b, ?_⟩
  rcases of_joins kind a b with ⟨upper, lower⟩ | ⟨upper, lower⟩
  · rw [upper, lower]
    exact ⟨first, second⟩
  · rw [upper, lower]
    exact ⟨second, first⟩

theorem ofLayout_nodup (kind : SiteKind) : (ofLayout spacing layout kind).Nodup := by
  have upper (a b : Coord) : (of kind a b).upper = a ∨ (of kind a b).upper = b :=
    (of_joins kind a b).imp And.left And.left
  refine (List.mergeSort_perm _ _).nodup_iff.mpr (List.pairwise_map.mpr ?_)
  refine (matchUp_disjoint [] (closeChoices spacing (layout.coordsOfKind kind))).imp ?_
  rintro ⟨a, b⟩ ⟨c, d⟩ ⟨first, second⟩ same
  have taken : (of kind c d).upper ∈ [a, b] := by
    rw [← show of kind a b = of kind c d from same]
    simpa using upper a b
  rcases upper c d with dot | dot
  · exact first (dot ▸ taken)
  · exact second (dot ▸ taken)

/-- Two dots that are not too far apart are a pair if there are no others of their kind. -/
theorem ofLayout_of_two {kind : SiteKind} {a b : Coord} (dots : layout.coordsOfKind kind = [a, b])
    (close : ¬ spacing.pairThreshold < Coord.distance spacing.lattice a b) :
    ofLayout spacing layout kind = [of kind a b] := by
  simp [ofLayout, dots, closeChoices, twoOf, matchUp, List.takeWhile, close]

theorem eq_of_samePlace (distinct : layout.Distinct) {kind other : SiteKind} {p q : BdlPair}
    (first : p ∈ ofLayout spacing layout kind) (second : q ∈ ofLayout spacing layout other) (same : p.SamePlace q) :
    p = q := by
  obtain ⟨rfl, upper, _⟩ := mem_ofLayout first
  obtain ⟨rfl, upper', _⟩ := mem_ofLayout second
  have kinds : p.kind = q.kind := Layout.kind_unique distinct upper (same.1 ▸ upper')
  obtain ⟨upper, lower, kind⟩ := p
  obtain ⟨rfl, rfl⟩ := same
  simp only at kinds
  rw [kinds]

end DanglingBond.BdlPair
