import Mathlib
import DanglingBond.Gate.Wire
import DanglingBond.Proofs.Gate.Pair

/-!
The wires of a layout share its pairs out among themselves: breaking the pairs up into chains neither
loses nor repeats one (`flatMap_pairs_perm`), so that every pair is held by exactly one wire. Looking for
a pair among the wires of a selection therefore finds that one wire, less the pairs that the selection
leaves out (`contains_selected_iff`), and the direction in which the pair is read is that of the wire
that holds it (`directionOf_selected`).
-/

namespace DanglingBond.BdlWire

variable {K : Type} [Elementary K] {spacing : Spacing K} {layout : Layout}

theorem chainFrom_perm (current : BdlPair) (remaining : List BdlPair) :
    ((chainFrom spacing current remaining).1 ++ (chainFrom spacing current remaining).2).Perm remaining := by
  fun_induction chainFrom spacing current remaining with
  | case1 => exact .refl _
  | case2 current remaining next found chain rest split ih =>
    rw [split] at ih
    exact (ih.cons next).trans (List.perm_cons_erase (next?_mem found)).symm

theorem chains_flatten_perm (pairs : List BdlPair) : (chains spacing pairs).flatten.Perm pairs := by
  fun_induction chains spacing pairs with
  | case1 => exact .refl _
  | case2 start others split ih =>
    rw [List.flatten_cons, List.cons_append]
    exact ((ih.append_left split.1).trans (chainFrom_perm start others)).cons start

theorem flatMap_pairs_perm : ((ofLayout spacing layout .all).flatMap (·.pairs)).Perm (pairsOf spacing layout) := by
  have sorted :
      ((chains spacing (pairsOf spacing layout)).flatMap fun chain => (ofPairs spacing.lattice chain).pairs).Perm
        ((chains spacing (pairsOf spacing layout)).flatMap id) :=
    List.Perm.flatMap_left _ fun chain _ => List.mergeSort_perm chain BdlPair.le
  rw [List.flatMap_id] at sorted
  simp only [ofLayout, List.flatMap_map]
  exact sorted.trans (chains_flatten_perm _)

theorem mem_pairsOf {pair : BdlPair} : pair ∈ pairsOf spacing layout ↔
    pair.kind ≠ .empty ∧ pair ∈ BdlPair.ofLayout spacing layout pair.kind := by
  have listed (kind : SiteKind) : kind ∈ [SiteKind.input, .output, .normal] ↔ kind ≠ .empty := by
    cases kind <;> decide
  simp only [pairsOf, List.mem_mergeSort, List.mem_flatMap, listed]
  constructor
  · rintro ⟨kind, sited, member⟩
    obtain ⟨rfl, _⟩ := BdlPair.mem_ofLayout member
    exact ⟨sited, member⟩
  · rintro ⟨sited, member⟩
    exact ⟨pair.kind, sited, member⟩

theorem mem_pairsOf_of_kind {kind : SiteKind} (sited : kind ≠ .empty) {pair : BdlPair}
    (listed : pair ∈ BdlPair.ofLayout spacing layout kind) : pair ∈ pairsOf spacing layout ∧ pair.kind = kind := by
  obtain ⟨rfl, _⟩ := BdlPair.mem_ofLayout listed
  exact ⟨mem_pairsOf.mpr ⟨sited, listed⟩, rfl⟩

theorem pairsOf_nodup : (pairsOf spacing layout).Nodup := by
  refine (List.mergeSort_perm _ _).nodup_iff.mpr (List.nodup_flatMap.mpr ⟨?_, ?_⟩)
  · exact fun kind _ => BdlPair.ofLayout_nodup kind
  · have different : [SiteKind.input, .output, .normal].Nodup := by decide
    refine different.imp fun {kind other} distinct pair first second => distinct ?_
    exact (BdlPair.mem_ofLayout first).1.symm.trans (BdlPair.mem_ofLayout second).1

theorem mem_pairsOf_of_mem {wire : BdlWire} (listed : wire ∈ ofLayout spacing layout .all) {pair : BdlPair}
    (member : pair ∈ wire.pairs) : pair ∈ pairsOf spacing layout :=
  flatMap_pairs_perm.mem_iff.mp (List.mem_flatMap.mpr ⟨wire, listed, member⟩)

theorem exists_holding {pair : BdlPair} (member : pair ∈ pairsOf spacing layout) :
    ∃ wire ∈ ofLayout spacing layout .all, pair ∈ wire.pairs :=
  List.mem_flatMap.mp (flatMap_pairs_perm.mem_iff.mpr member)

/-- No pair is on two wires. -/
theorem holding_unique {wire other : BdlWire} (listed : wire ∈ ofLayout spacing layout .all)
    (otherListed : other ∈ ofLayout spacing layout .all) {pair : BdlPair} (member : pair ∈ wire.pairs)
    (otherMember : pair ∈ other.pairs) : wire = other := by
  by_contra different
  have nodup : ((ofLayout spacing layout .all).flatMap (·.pairs)).Nodup :=
    flatMap_pairs_perm.nodup_iff.mpr pairsOf_nodup
  have symmetric : Std.Symm (Function.onFun List.Disjoint fun wire : BdlWire => wire.pairs) :=
    ⟨fun _ _ disjoint => List.Disjoint.symm disjoint⟩
  exact (List.nodup_flatMap.mp nodup).2.forall listed otherListed different member otherMember

theorem contains_iff (distinct : layout.Distinct) {pairs : List BdlPair}
    (inside : ∀ pair ∈ pairs, pair ∈ pairsOf spacing layout) {pair : BdlPair}
    (member : pair ∈ pairsOf spacing layout) (direction : Direction) :
    contains ⟨pairs, direction⟩ pair = true ↔ pair ∈ pairs := by
  simp only [contains, List.any_eq_true, decide_eq_true_eq]
  constructor
  · rintro ⟨other, listed, same⟩
    rwa [← BdlPair.eq_of_samePlace distinct (mem_pairsOf.mp (inside other listed)).2 (mem_pairsOf.mp member).2 same]
  · exact fun listed => ⟨pair, listed, rfl, rfl⟩

/-- The wires that have a pair of one kind, without their pairs of another. -/
def selected (spacing : Spacing K) (layout : Layout) (kept dropped : SiteKind) : List BdlWire :=
  (ofLayout spacing layout .all).filterMap (ofLayout.without kept dropped)

section

variable {kept dropped : SiteKind} {pair : BdlPair} {wire : BdlWire}

theorem mem_selected {found : BdlWire} : found ∈ selected spacing layout kept dropped ↔
    ∃ wire ∈ ofLayout spacing layout .all, (∃ pair ∈ wire.pairs, pair.kind = kept) ∧
      found = { wire with pairs := wire.pairs.filter (·.kind ≠ dropped) } := by
  simp only [selected, List.mem_filterMap, ofLayout.without, firstOfKind?, Option.ite_none_right_eq_some,
    List.find?_isSome, decide_eq_true_eq, Option.some.injEq, @eq_comm _ found]

/-- Among the selected wires a pair of the kind that is kept is on the wire that holds it, and on no
    other. -/
theorem contains_selected_iff (distinct : layout.Distinct) (different : kept ≠ dropped)
    (listed : wire ∈ ofLayout spacing layout .all) (member : pair ∈ wire.pairs) (kind : pair.kind = kept)
    (found : BdlWire) :
    (found ∈ selected spacing layout kept dropped ∧ found.contains pair = true) ↔
      found = { wire with pairs := wire.pairs.filter (·.kind ≠ dropped) } := by
  have inside {wire : BdlWire} (listed : wire ∈ ofLayout spacing layout .all) :
      ∀ pair ∈ wire.pairs.filter (·.kind ≠ dropped), pair ∈ pairsOf spacing layout :=
    fun pair kept => mem_pairsOf_of_mem listed (List.mem_of_mem_filter kept)
  have known := mem_pairsOf_of_mem listed member
  constructor
  · rintro ⟨selected, contained⟩
    obtain ⟨other, otherListed, _, rfl⟩ := mem_selected.mp selected
    have held := (contains_iff distinct (inside otherListed) known _).mp contained
    rw [holding_unique otherListed listed (List.mem_of_mem_filter held) member]
  · rintro rfl
    refine ⟨mem_selected.mpr ⟨wire, listed, ⟨pair, member, kind⟩, rfl⟩, ?_⟩
    refine (contains_iff distinct (inside listed) known _).mpr (List.mem_filter.mpr ⟨member, ?_⟩)
    simpa [kind] using different

theorem directionOf_selected (distinct : layout.Distinct) (different : kept ≠ dropped)
    (listed : wire ∈ ofLayout spacing layout .all) (member : pair ∈ wire.pairs) (kind : pair.kind = kept) :
    directionOf (selected spacing layout kept dropped) pair = wire.direction := by
  have only := contains_selected_iff distinct different listed member kind
  obtain ⟨inside, contained⟩ := (only _).mpr rfl
  cases found : (selected spacing layout kept dropped).find? fun wire => wire.contains pair with
  | none => exact absurd contained (List.find?_eq_none.mp found _ inside)
  | some other =>
    have held : other.contains pair = true := by simpa using List.find?_some found
    have same := (only other).mp ⟨List.mem_of_find?_eq_some found, held⟩
    rw [directionOf, found, same]
    rfl

end

end DanglingBond.BdlWire
