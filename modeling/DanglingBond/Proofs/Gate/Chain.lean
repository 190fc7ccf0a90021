import Mathlib
import DanglingBond.Proofs.Gate.Matching
import DanglingBond.Proofs.Gate.Wire

/-!
Wires as chains. Every step of a chain goes to a pair that faces the current one (`chainFrom_facing`), and as
the chains use up the pairs of a layout, the wires share these pairs out among themselves (`wires_share_pairs`).
A selection of wires takes whole wires and only leaves out their pairs of one kind, so it shares out the pairs of
the kind that it selects by.
-/

namespace DanglingBond.BdlWire

variable {K : Type} [Elementary K] {spacing : Spacing K} {layout : Layout}

/-- The lower dot of one pair is close to the upper dot of the other. -/
def Facing (spacing : Spacing K) (p q : BdlPair) : Prop :=
  Coord.distance spacing.lattice p.lower q.upper < spacing.wireThreshold ∨
    Coord.distance spacing.lattice p.upper q.lower < spacing.wireThreshold

/-- All pairs of a layout are on its wires, each of them on one wire and only once. A wire is a sorted chain. -/
structure SharedOut (spacing : Spacing K) (layout : Layout) (wires : List BdlWire) : Prop where
  once : ∀ kind ≠ .empty, ∀ pair ∈ BdlPair.ofLayout spacing layout kind, (wires.flatMap (·.pairs)).count pair = 1
  detected : ∀ wire ∈ wires, ∀ pair ∈ wire.pairs, pair.kind ≠ .empty ∧ pair ∈ BdlPair.ofLayout spacing layout pair.kind
  nonempty : ∀ wire ∈ wires, wire.pairs ≠ []
  sorted : ∀ wire ∈ wires, wire.pairs.Pairwise fun p q => compare p q = .lt
  /-- The pairs can be put into a sequence in which neighbours face each other. -/
  chained : ∀ wire ∈ wires, ∃ chain : List BdlPair, chain.Perm wire.pairs ∧ chain.IsChain (Facing spacing)

/-- The wires of a layout that have pairs of one kind, without their pairs of another kind. -/
structure Selects (spacing : Spacing K) (layout : Layout) (kept dropped : SiteKind) (wires : List BdlWire) : Prop where
  once : ∀ pair ∈ BdlPair.ofLayout spacing layout kept, (wires.flatMap (·.pairs)).count pair = 1
  without : ∀ wire ∈ wires, ∀ pair ∈ wire.pairs, pair.kind ≠ dropped
  taken : ∀ found ∈ wires, ∃ wire ∈ ofLayout spacing layout .all,
    found = { wire with pairs := wire.pairs.filter (·.kind ≠ dropped) }

theorem Follows.facing {side : Side} {current next : BdlPair} (follows : Follows spacing side current next) :
    Facing spacing current next := follows.imp_right And.left

theorem next?_facing {current next : BdlPair} {remaining : List BdlPair}
    (found : next? spacing current remaining = some next) : Facing spacing current next := by
  rcases Option.or_eq_some_iff.mp found with below | ⟨_, above⟩
  · have follows : Follows spacing .below current next := by simpa using List.find?_some below
    exact follows.facing
  · have follows : Follows spacing .above current next := by simpa using List.find?_some above
    exact follows.facing

theorem chainFrom_facing (current : BdlPair) (remaining : List BdlPair) :
    (current :: (chainFrom spacing current remaining).1).IsChain (Facing spacing) := by
  fun_induction chainFrom spacing current remaining with
  | case1 => exact .singleton _
  | case2 current remaining next found chain rest split ih =>
    rw [split] at ih
    exact .cons_cons (next?_facing found) ih

theorem chains_facing (pairs : List BdlPair) :
    ∀ chain ∈ chains spacing pairs, chain ≠ [] ∧ chain.IsChain (Facing spacing) := by
  fun_induction chains spacing pairs with
  | case1 => simp
  | case2 start others split ih =>
    rintro chain (_ | later)
    · exact ⟨List.cons_ne_nil _ _, chainFrom_facing start others⟩
    · exact ih chain ‹_›

theorem pairs_nodup : ((ofLayout spacing layout .all).flatMap (·.pairs)).Nodup :=
  flatMap_pairs_perm.nodup_iff.mpr pairsOf_nodup

/-- A wire is a chain that has been sorted. -/
theorem exists_chain {wire : BdlWire} (listed : wire ∈ ofLayout spacing layout .all) :
    ∃ chain, chain ≠ [] ∧ chain.IsChain (Facing spacing) ∧ wire.pairs = chain.mergeSort BdlPair.le := by
  obtain ⟨chain, member, rfl⟩ := List.mem_map.mp listed
  obtain ⟨nonempty, facing⟩ := chains_facing _ chain member
  exact ⟨chain, nonempty, facing, rfl⟩

theorem ofLayout_sharedOut (spacing : Spacing K) (layout : Layout) :
    SharedOut spacing layout (ofLayout spacing layout .all) where
  once kind sited pair listed := by
    obtain ⟨known, _⟩ := mem_pairsOf_of_kind sited listed
    exact List.count_eq_one_of_mem pairs_nodup (flatMap_pairs_perm.mem_iff.mpr known)
  detected wire listed pair member := mem_pairsOf.mp (mem_pairsOf_of_mem listed member)
  nonempty wire listed := by
    obtain ⟨chain, nonempty, _, sorted⟩ := exists_chain listed
    rw [sorted, Ne, ← List.length_eq_zero_iff, List.length_mergeSort, List.length_eq_zero_iff]
    exact nonempty
  sorted wire listed := by
    obtain ⟨chain, _, _, sorted⟩ := exists_chain listed
    have distinct : wire.pairs.Nodup := (List.nodup_flatMap.mp pairs_nodup).1 wire listed
    rw [sorted] at distinct ⊢
    exact BdlPair.pairwise_mergeSort_lt ((List.mergeSort_perm _ _).nodup_iff.mp distinct)
  chained wire listed := by
    obtain ⟨chain, _, facing, sorted⟩ := exists_chain listed
    exact ⟨chain, sorted ▸ (List.mergeSort_perm chain _).symm, facing⟩

theorem selected_pairs_sublist (kept dropped : SiteKind) (wires : List BdlWire) :
    ((wires.filterMap (ofLayout.without kept dropped)).flatMap (·.pairs)).Sublist (wires.flatMap (·.pairs)) := by
  induction wires with
  | nil => exact .slnil
  | cons wire wires ih =>
    by_cases marked : (wire.firstOfKind? kept).isSome
    · have taken : ofLayout.without kept dropped wire = some { wire with pairs := wire.pairs.filter (·.kind ≠ dropped) } :=
        if_pos marked
      rw [List.filterMap_cons_some taken, List.flatMap_cons, List.flatMap_cons]
      exact List.filter_sublist.append ih
    · have passed : ofLayout.without kept dropped wire = none := if_neg marked
      rw [List.filterMap_cons_none passed, List.flatMap_cons]
      exact ih.trans (List.sublist_append_right _ _)

theorem selected_selects {kept dropped : SiteKind} (sited : kept ≠ .empty) (different : kept ≠ dropped) :
    Selects spacing layout kept dropped (selected spacing layout kept dropped) where
  once pair listed := by
    obtain ⟨known, kind⟩ := mem_pairsOf_of_kind sited listed
    obtain ⟨wire, held, member⟩ := exists_holding known
    refine List.count_eq_one_of_mem (pairs_nodup.sublist (selected_pairs_sublist kept dropped _)) ?_
    refine List.mem_flatMap.mpr ⟨_, mem_selected.mpr ⟨wire, held, ⟨pair, member, kind⟩, rfl⟩, ?_⟩
    exact List.mem_filter.mpr ⟨member, by simpa [kind] using different⟩
  without wire listed pair member := by
    obtain ⟨_, _, _, rfl⟩ := mem_selected.mp listed
    exact of_decide_eq_true (List.mem_filter.mp member).2
  taken found listed := by
    obtain ⟨wire, held, _, same⟩ := mem_selected.mp listed
    exact ⟨wire, held, same⟩

/-- The wires of a layout share its input, output and normal pairs out among themselves, each wire being a sorted
    chain. The wires selected by their inputs, or by their outputs, are such wires as they are, read in the same
    direction, without their pairs of the opposite kind. -/
theorem wires_share_pairs (spacing : Spacing K) (layout : Layout) :
    SharedOut spacing layout (ofLayout spacing layout .all) ∧
      Selects spacing layout .input .output (ofLayout spacing layout .input) ∧
      Selects spacing layout .output .input (ofLayout spacing layout .output) :=
  ⟨ofLayout_sharedOut spacing layout, selected_selects (by decide) (by decide), selected_selects (by decide) (by decide)⟩

end DanglingBond.BdlWire
