import Mathlib
import DanglingBond.Proofs.Gate.Chain

/-!
Wires without a branch. The pairs of a layout with their facings are a graph; where this graph is a path, one
might expect one wire. But a chain starts from the least pair and grows at one end only. It comes to a stop where no
pair that is left faces its last one (`chainFrom_stuck`), so it holds the whole path if it starts from an end of it
(`chainFrom_covers`), and leaves one arm behind otherwise (`end_of_covers`).
-/

namespace DanglingBond

theorem Coord.distance_lt_iff {K : Type} [ExactElementary K] {lattice : Lattice K} {p q : Coord} {threshold : K}
    (nonneg : 0 ≤ threshold) : distance lattice p q < threshold ↔
      squaredDistance (p.position lattice) (q.position lattice) < threshold * threshold := by
  rw [← distance_mul_self]
  exact mul_self_lt_mul_self_iff (distance_nonneg lattice p q) nonneg

namespace BdlWire

variable {K : Type} [ExactElementary K] {spacing : Spacing K} {layout : Layout}

theorem Facing.symm {p q : BdlPair} (facing : Facing spacing p q) : Facing spacing q p := by
  rcases facing with facing | facing
  · exact .inr (by rwa [Coord.distance_comm])
  · exact .inl (by rwa [Coord.distance_comm])

/-- The pairs, joined where they face each other. -/
def facingGraph (spacing : Spacing K) (pairs : List BdlPair) : SimpleGraph {pair // pair ∈ pairs} where
  Adj p q := p ≠ q ∧ Facing spacing p q
  symm := ⟨fun _ _ adjacent => ⟨adjacent.1.symm, adjacent.2.symm⟩⟩
  loopless := ⟨fun _ adjacent => adjacent.1 rfl⟩

/-- The pairs make up a simple path. -/
structure Unbranched (spacing : Spacing K) (pairs : List BdlPair) : Prop where
  connected : (facingGraph spacing pairs).Connected
  acyclic : (facingGraph spacing pairs).IsAcyclic
  atMostTwo : ∀ pair, ((facingGraph spacing pairs).neighborSet pair).encard ≤ 2

/-- A pair at an end of a path. -/
def IsEnd (spacing : Spacing K) (pairs : List BdlPair) (pair : {pair // pair ∈ pairs}) : Prop :=
  ((facingGraph spacing pairs).neighborSet pair).encard ≤ 1

theorem Unbranched.not_three {pairs : List BdlPair} (unbranched : Unbranched spacing pairs)
    {pair a b c : {pair // pair ∈ pairs}} (first : (facingGraph spacing pairs).Adj pair a)
    (second : (facingGraph spacing pairs).Adj pair b) (third : (facingGraph spacing pairs).Adj pair c)
    (ab : a ≠ b) (ac : a ≠ c) (bc : b ≠ c) : False := by
  have three : ({a, b, c} : Set {pair // pair ∈ pairs}).encard = 3 := Set.encard_eq_three.mpr ⟨a, b, c, ab, ac, bc, rfl⟩
  have inside : {a, b, c} ⊆ (facingGraph spacing pairs).neighborSet pair := by
    rintro other (rfl | rfl | rfl)
    · exact first
    · exact second
    · exact third
  have few := (Set.encard_le_encard inside).trans (unbranched.atMostTwo pair)
  rw [three] at few
  exact absurd few (by decide)

/-- From a chain that begins at an end of the path, the path goes on only at the last pair. -/
theorem Unbranched.last_of_leaves {pairs : List BdlPair} (unbranched : Unbranched spacing pairs)
    {chain : List {pair // pair ∈ pairs}} (linked : chain.IsChain (facingGraph spacing pairs).Adj) (nodup : chain.Nodup)
    {start last next : {pair // pair ∈ pairs}} (starts : chain.head? = some start) (ending : IsEnd spacing pairs start)
    (onChain : last ∈ chain) (offChain : next ∉ chain) (leaves : (facingGraph spacing pairs).Adj last next) :
    chain.getLast? = some last := by
  obtain ⟨before, after, rfl⟩ := List.append_of_mem onChain
  cases after with
  | nil => simp
  | cons ahead after =>
    obtain ⟨arrival, step, _⟩ := List.isChain_append_cons_cons.mp linked
    have apart : ahead ≠ next := by
      rintro rfl
      exact offChain (by simp)
    rcases List.eq_nil_or_concat before with rfl | ⟨earlier, behind, rfl⟩
    · obtain rfl : last = start := by simpa using starts
      exact absurd (Set.encard_le_one_iff.mp ending _ _ step leaves) apart
    · have back : (facingGraph spacing pairs).Adj last behind := by
        rw [List.concat_eq_append, List.append_assoc, List.singleton_append] at arrival
        exact (List.isChain_append_cons_cons.mp arrival).2.1.symm
      have others : behind ≠ ahead ∧ behind ≠ next := by
        constructor
        · rintro rfl
          simp [List.nodup_append] at nodup
        · rintro rfl
          exact offChain (by simp)
      exact (unbranched.not_three back step leaves others.1 others.2 apart).elim

/-- A chain of different pairs is a walk in the graph of facings. -/
theorem exists_vertices {pairs chain : List BdlPair} (known : ∀ pair ∈ chain, pair ∈ pairs) (nodup : chain.Nodup)
    (linked : chain.IsChain (Facing spacing)) : ∃ vertices : List {pair // pair ∈ pairs},
      vertices.map Subtype.val = chain ∧ vertices.Nodup ∧ vertices.IsChain (facingGraph spacing pairs).Adj := by
  lift chain to List {pair // pair ∈ pairs} using known
  have distinct := List.Nodup.of_map _ nodup
  refine ⟨chain, rfl, distinct, List.isChain_iff_getElem.mpr fun i inside => ⟨?_, ?_⟩⟩
  · exact fun same => absurd (distinct.getElem_inj_iff.mp same) (Nat.succ_ne_self i).symm
  · simpa using List.isChain_iff_getElem.mp linked i (by simpa using inside)

/-- A chain stops only where no pair that is left faces its last pair. -/
theorem not_facing_of_next?_eq_none {current p : BdlPair} {remaining : List BdlPair}
    (stuck : next? spacing current remaining = none) (member : p ∈ remaining) (apart : ¬ current.SamePlace p) :
    ¬ Facing spacing current p := by
  obtain ⟨below, above⟩ := Option.or_eq_none_iff.mp stuck
  have notBelow : ¬ Follows spacing .below current p := by simpa using List.find?_eq_none.mp below p member
  have notAbove : ¬ Follows spacing .above current p := by simpa using List.find?_eq_none.mp above p member
  rintro (facing | facing)
  · exact notBelow (.inl facing)
  · cases order : compare current p with
    | lt => exact notBelow (.inr ⟨facing, apart, order⟩)
    | gt => exact notAbove (.inr ⟨facing, apart, order⟩)
    | eq =>
      rw [Std.LawfulEqOrd.eq_of_compare order] at apart
      exact apart ⟨rfl, rfl⟩

theorem chainFrom_stuck {current last : BdlPair} {remaining : List BdlPair}
    (apart : (current :: remaining).Pairwise fun p q => ¬ p.SamePlace q)
    (ends : (current :: (chainFrom spacing current remaining).1).getLast? = some last) :
    ∀ p ∈ (chainFrom spacing current remaining).2, ¬ Facing spacing last p := by
  fun_induction chainFrom spacing current remaining with
  | case1 current remaining stuck =>
    obtain rfl : current = last := by simpa using ends
    exact fun p member => not_facing_of_next?_eq_none stuck member (List.rel_of_pairwise_cons apart member)
  | case2 current remaining next found chain rest split ih =>
    have symmetric {p q : BdlPair} (apart : ¬ p.SamePlace q) : ¬ q.SamePlace p :=
      fun same => apart ⟨same.1.symm, same.2.symm⟩
    have moved : remaining.Perm (next :: remaining.erase next) := List.perm_cons_erase (next?_mem found)
    have later := (moved.pairwise_iff symmetric).mp (List.pairwise_cons.mp apart).2
    rw [split] at ih
    exact ih later (by simpa using ends)

/-- What a chain holds and what it leaves make up the pairs. -/
theorem chainFrom_perm_cons (spacing : Spacing K) (start : BdlPair) (others : List BdlPair) :
    ((start :: (chainFrom spacing start others).1) ++ (chainFrom spacing start others).2).Perm (start :: others) :=
  (chainFrom_perm start others).cons start

section
variable {start : BdlPair} {others : List BdlPair}

theorem nodup_of_apart {pairs : List BdlPair} (apart : pairs.Pairwise fun p q => ¬ p.SamePlace q) : pairs.Nodup := by
  refine apart.imp ?_
  rintro p q apart rfl
  exact apart ⟨rfl, rfl⟩

/-- The chain from a pair, as a walk in the graph of facings. -/
theorem exists_chain_vertices (spacing : Spacing K) (apart : (start :: others).Pairwise fun p q => ¬ p.SamePlace q) :
    ∃ chain : List {pair // pair ∈ start :: others}, chain.map Subtype.val = start :: (chainFrom spacing start others).1 ∧
      chain.Nodup ∧ chain.IsChain (facingGraph spacing (start :: others)).Adj := by
  have shared := chainFrom_perm_cons spacing start others
  refine exists_vertices (fun pair member => shared.mem_iff.mp (List.mem_append_left _ member)) ?_
    (chainFrom_facing start others)
  exact (List.nodup_append.mp (shared.nodup_iff.mpr (nodup_of_apart apart))).1

/-- A chain from an end of a path holds the path. -/
theorem chainFrom_covers (apart : (start :: others).Pairwise fun p q => ¬ p.SamePlace q)
    (unbranched : Unbranched spacing (start :: others))
    (ending : IsEnd spacing (start :: others) ⟨start, List.mem_cons_self⟩) :
    (chainFrom spacing start others).2 = [] := by
  have stuck {last : BdlPair} : (start :: (chainFrom spacing start others).1).getLast? = some last →
      ∀ p ∈ (chainFrom spacing start others).2, ¬ Facing spacing last p := chainFrom_stuck apart
  obtain ⟨chain, held, distinct, linked⟩ := exists_chain_vertices spacing apart
  have shared := chainFrom_perm_cons spacing start others
  rw [← held] at stuck shared
  by_contra left
  obtain ⟨missed, missing⟩ := List.exists_mem_of_ne_nil _ left
  have known := shared.mem_iff.mp (List.mem_append_right _ missing)
  have notHeld : ⟨missed, known⟩ ∉ chain := by
    intro member
    have nodup := shared.nodup_iff.mpr (nodup_of_apart apart)
    exact (List.nodup_append.mp nodup).2.2 missed (List.mem_map_of_mem member) missed missing rfl
  have starts : chain.head? = some ⟨start, List.mem_cons_self⟩ := by
    cases chain with
    | nil => simp at held
    | cons first chain => exact congrArg some (Subtype.ext (List.cons.inj held).1)
  -- Somewhere on the way to a pair that is left out the path leaves the chain.
  obtain ⟨walk⟩ := unbranched.connected.preconnected ⟨start, List.mem_cons_self⟩ ⟨missed, known⟩
  obtain ⟨step, _, onChain, offChain⟩ :=
    walk.exists_boundary_dart {vertex | vertex ∈ chain} (List.mem_of_mem_head? starts) notHeld
  have last := unbranched.last_of_leaves linked distinct starts ending onChain offChain step.adj
  have spare : step.snd.val ∈ (chainFrom spacing start others).2 := by
    refine (List.mem_append.mp (shared.mem_iff.mpr step.snd.property)).resolve_left fun member => ?_
    obtain ⟨vertex, also, same⟩ := List.mem_map.mp member
    exact offChain (Subtype.ext same ▸ also)
  exact stuck (by rw [List.getLast?_map, last]; rfl) _ spare step.adj.2

/-- A chain that holds all of a path begins at an end of it. -/
theorem end_of_covers (apart : (start :: others).Pairwise fun p q => ¬ p.SamePlace q)
    (unbranched : Unbranched spacing (start :: others)) (covers : (chainFrom spacing start others).2 = []) :
    IsEnd spacing (start :: others) ⟨start, List.mem_cons_self⟩ := by
  obtain ⟨chain, held, distinct, linked⟩ := exists_chain_vertices spacing apart
  have shared := chainFrom_perm_cons spacing start others
  rw [← held, covers, List.append_nil] at shared
  have everything (vertex : {pair // pair ∈ start :: others}) : vertex ∈ chain := by
    obtain ⟨other, member, same⟩ := List.mem_map.mp (shared.mem_iff.mpr vertex.property)
    exact Subtype.ext same ▸ member
  cases chain with
  | nil => simp at held
  | cons first chain =>
    obtain rfl : first = ⟨start, List.mem_cons_self⟩ := Subtype.ext (List.cons.inj held).1
    -- In a graph without cycles all neighbours of a vertex on a path from it are the next one.
    let path := SimpleGraph.Walk.ofSupport _ (List.cons_ne_nil _ _) linked
    have simple : path.IsPath := by
      refine .mk' ?_
      rw [SimpleGraph.Walk.support_ofSupport]
      exact distinct
    refine Set.encard_le_one_iff.mpr fun a b left right => ?_
    have second {vertex : {pair // pair ∈ start :: others}}
        (adjacent : (facingGraph spacing (start :: others)).Adj ⟨start, List.mem_cons_self⟩ vertex) : vertex = path.snd := by
      refine unbranched.acyclic.eq_snd_of_adj_start simple adjacent ?_
      rw [SimpleGraph.Walk.support_ofSupport]
      exact everything vertex
    exact (second left).trans (second right).symm

theorem chains_eq_nil_iff {pairs : List BdlPair} : chains spacing pairs = [] ↔ pairs = [] := by
  cases pairs with
  | nil => simp [chains]
  | cons start others => simp [chains]

/-- The first chain is the only wire if it leaves nothing, and holds all pairs then. -/
theorem single_wire_iff_covers (pairs : pairsOf spacing layout = start :: others) :
    (∃ wire, ofLayout spacing layout .all = [wire] ∧ wire.pairs.Perm (pairsOf spacing layout)) ↔
      (chainFrom spacing start others).2 = [] := by
  have wires : ofLayout spacing layout .all = ofPairs spacing.lattice (start :: (chainFrom spacing start others).1) ::
      (chains spacing (chainFrom spacing start others).2).map (ofPairs spacing.lattice) := by
    rw [ofLayout, pairs, chains, List.map_cons]
  rw [wires]
  constructor
  · rintro ⟨wire, single, _⟩
    exact chains_eq_nil_iff.mp (List.map_eq_nil_iff.mp (List.cons.inj single).2)
  · intro covers
    have shared := chainFrom_perm_cons spacing start others
    rw [covers, List.append_nil] at shared
    refine ⟨_, by rw [chains_eq_nil_iff.mpr covers, List.map_nil], ?_⟩
    rw [pairs]
    exact (List.mergeSort_perm _ _).trans shared

end

theorem pairsOf_apart (spacing : Spacing K) (distinct : layout.Distinct) :
    (pairsOf spacing layout).Pairwise fun p q => ¬ p.SamePlace q := by
  refine pairsOf_nodup.pairwise_of_forall_ne fun p first q second different same => different ?_
  exact BdlPair.eq_of_samePlace distinct (mem_pairsOf.mp first).2 (mem_pairsOf.mp second).2 same

/-- The pair that comes first has nothing before it, and is the only one of which this is true. -/
theorem first_iff {start : BdlPair} {others : List BdlPair} (pairs : pairsOf spacing layout = start :: others)
    {pair : BdlPair} (member : pair ∈ pairsOf spacing layout) :
    (∀ other ∈ pairsOf spacing layout, (compare pair other).isLE = true) ↔ pair = start := by
  have sorted : (pairsOf spacing layout).Pairwise fun p q => (compare p q).isLE = true :=
    BdlPair.pairwise_mergeSort_le _
  have least : ∀ other ∈ pairsOf spacing layout, (compare start other).isLE = true := by
    rw [pairs] at sorted ⊢
    rintro other (_ | later)
    · exact Std.ReflOrd.isLE_rfl
    · exact (List.pairwise_cons.mp sorted).1 other ‹_›
  constructor
  · intro also
    have before := also start (by rw [pairs]; exact List.mem_cons_self)
    exact Std.LawfulEqOrd.eq_of_compare (Std.OrientedCmp.isLE_antisymm before (least pair member))
  · rintro rfl
    exact least

/-- Pairs on a path are one wire exactly if the pair that the first chain starts from is at an end of the path. -/
theorem single_wire_iff_start (distinct : layout.Distinct) (unbranched : Unbranched spacing (pairsOf spacing layout))
    (start : {pair // pair ∈ pairsOf spacing layout})
    (least : ∀ pair ∈ pairsOf spacing layout, (compare start.val pair).isLE = true) :
    (∃ wire, ofLayout spacing layout .all = [wire] ∧ wire.pairs.Perm (pairsOf spacing layout)) ↔
      IsEnd spacing (pairsOf spacing layout) start := by
  have apart := pairsOf_apart spacing distinct
  obtain ⟨first, others, pairs⟩ := List.exists_cons_of_ne_nil (List.ne_nil_of_mem start.property)
  obtain ⟨start, member⟩ := start
  obtain rfl : start = first := (first_iff pairs member).mp least
  rw [single_wire_iff_covers pairs]
  clear least
  generalize pairsOf spacing layout = listed at apart unbranched pairs member ⊢
  subst pairs
  exact ⟨end_of_covers apart unbranched, chainFrom_covers apart unbranched⟩

/-- Pairs on a path are one wire exactly if the least of them is at an end of the path. -/
theorem unbranched_single_iff (spacing : Spacing K) (sites : List Site)
    (unbranched : Unbranched spacing (pairsOf spacing (.ofSites sites))) :
    (∃ wire, ofLayout spacing (.ofSites sites) .all = [wire] ∧ wire.pairs.Perm (pairsOf spacing (.ofSites sites))) ↔
      ∃ least : {pair // pair ∈ pairsOf spacing (.ofSites sites)},
        (∀ pair ∈ pairsOf spacing (.ofSites sites), (compare least.val pair).isLE = true) ∧
          IsEnd spacing (pairsOf spacing (.ofSites sites)) least := by
  have distinct := Layout.ofSites_distinct sites
  constructor
  · intro single
    obtain ⟨_, some⟩ := unbranched.connected.nonempty
    obtain ⟨start, others, pairs⟩ := List.exists_cons_of_ne_nil (List.ne_nil_of_mem some)
    have member : start ∈ pairsOf spacing (.ofSites sites) := pairs ▸ List.mem_cons_self
    have least := (first_iff pairs member).mpr rfl
    exact ⟨⟨start, member⟩, least, (single_wire_iff_start distinct unbranched ⟨start, member⟩ least).mp single⟩
  · rintro ⟨start, least, ending⟩
    exact (single_wire_iff_start distinct unbranched start least).mpr ending

section

/-- An input pair, a normal pair and an output pair, of which the outer two are in row one and the middle one is
    above them in row zero, or below them in row two. -/
def bend (row : Int) : List Site :=
  [⟨⟨0, 1, 0⟩, .input⟩, ⟨⟨2, 1, 0⟩, .input⟩, ⟨⟨6, row, 0⟩, .normal⟩, ⟨⟨8, row, 0⟩, .normal⟩,
    ⟨⟨12, 1, 0⟩, .output⟩, ⟨⟨14, 1, 0⟩, .output⟩]

private def bendInput : BdlPair := ⟨⟨0, 1, 0⟩, ⟨2, 1, 0⟩, .input⟩

private def bendMiddle (row : Int) : BdlPair := ⟨⟨6, row, 0⟩, ⟨8, row, 0⟩, .normal⟩

private def bendOutput : BdlPair := ⟨⟨12, 1, 0⟩, ⟨14, 1, 0⟩, .output⟩

private theorem bend_close (x row : Int) : ¬ (Spacing.standard : Spacing ℝ).pairThreshold <
    Coord.distance (Spacing.standard : Spacing ℝ).lattice ⟨x, row, 0⟩ ⟨x + 2, row, 0⟩ := by
  have pitch : (Spacing.standard : Spacing ℝ).lattice.a = 0.384 := rfl
  have threshold : (Spacing.standard : Spacing ℝ).pairThreshold = 2.0 := rfl
  rw [Coord.distance_row, pitch, threshold, abs_mul]
  norm_num

private theorem mem_bend_iff {row : Int} (rows : row = 0 ∨ row = 2) {pair : BdlPair} :
    pair ∈ pairsOf (.standard : Spacing ℝ) (.ofSites (bend row)) ↔
      pair = bendInput ∨ pair = bendMiddle row ∨ pair = bendOutput := by
  have input : BdlPair.ofLayout (.standard : Spacing ℝ) (.ofSites (bend row)) .input = [bendInput] :=
    BdlPair.ofLayout_of_two (by rcases rows with rfl | rfl <;> decide) (bend_close 0 1)
  have normal : BdlPair.ofLayout (.standard : Spacing ℝ) (.ofSites (bend row)) .normal = [bendMiddle row] := by
    rw [BdlPair.ofLayout_of_two (by rcases rows with rfl | rfl <;> decide) (bend_close 6 row)]
    rcases rows with rfl | rfl <;> decide
  have output : BdlPair.ofLayout (.standard : Spacing ℝ) (.ofSites (bend row)) .output = [bendOutput] :=
    BdlPair.ofLayout_of_two (by rcases rows with rfl | rfl <;> decide) (bend_close 12 1)
  simp only [pairsOf, List.mem_mergeSort, List.flatMap_cons, List.flatMap_nil, input, normal, output, List.mem_append,
    List.mem_singleton, List.not_mem_nil, or_false]
  tauto

private theorem bend_facing {row : Int} (rows : row = 0 ∨ row = 2) :
    Facing (.standard : Spacing ℝ) (bendMiddle row) bendInput ∧ Facing (.standard : Spacing ℝ) (bendMiddle row) bendOutput ∧
      ¬ Facing (.standard : Spacing ℝ) bendInput bendOutput := by
  have wire : (Spacing.standard : Spacing ℝ).wireThreshold = 2.0 := rfl
  have lattice : (Spacing.standard : Spacing ℝ).lattice = ⟨0.384, 0.768, 0.225⟩ := rfl
  have positive : (0 : ℝ) ≤ 2.0 := by norm_num
  simp only [Facing, wire, lattice, Coord.distance_lt_iff positive, Coord.squaredDistance, Coord.position, bendInput,
    bendMiddle, bendOutput]
  rcases rows with rfl | rfl <;> norm_num

private abbrev BendPair (row : Int) : Type := {pair // pair ∈ pairsOf (.standard : Spacing ℝ) (.ofSites (bend row))}

section
variable {row : Int} (rows : row = 0 ∨ row = 2)
include rows

private theorem bend_adj_iff {p q : BendPair row} :
    (facingGraph (.standard : Spacing ℝ) (pairsOf (.standard : Spacing ℝ) (.ofSites (bend row)))).Adj p q ↔
      p ≠ q ∧ (p.val = bendMiddle row ∨ q.val = bendMiddle row) := by
  obtain ⟨left, right, apart⟩ := bend_facing rows
  obtain ⟨p, first⟩ := p
  obtain ⟨q, second⟩ := q
  refine and_congr_right fun different => ?_
  have distinct : p ≠ q := fun same => different (Subtype.ext same)
  have outer : bendInput ≠ bendMiddle row ∧ bendOutput ≠ bendMiddle row := by
    rcases rows with rfl | rfl <;> decide
  rcases (mem_bend_iff rows).mp first with rfl | rfl | rfl
  · rcases (mem_bend_iff rows).mp second with rfl | rfl | rfl
    · exact absurd rfl distinct
    · exact iff_of_true left.symm (.inr rfl)
    · exact iff_of_false apart (by simp [outer])
  · rcases (mem_bend_iff rows).mp second with rfl | rfl | rfl
    · exact iff_of_true left (.inl rfl)
    · exact absurd rfl distinct
    · exact iff_of_true right (.inl rfl)
  · rcases (mem_bend_iff rows).mp second with rfl | rfl | rfl
    · exact iff_of_false (apart ∘ Facing.symm) (by simp [outer])
    · exact iff_of_true right.symm (.inr rfl)
    · exact absurd rfl distinct

private theorem bend_isEnd {pair : BendPair row} (outer : pair.val ≠ bendMiddle row) :
    IsEnd (.standard : Spacing ℝ) (pairsOf (.standard : Spacing ℝ) (.ofSites (bend row))) pair := by
  refine Set.encard_le_one_iff.mpr fun p q first second => Subtype.ext ?_
  rw [((bend_adj_iff rows).mp first).2.resolve_left outer, ((bend_adj_iff rows).mp second).2.resolve_left outer]

private theorem bend_unbranched :
    Unbranched (.standard : Spacing ℝ) (pairsOf (.standard : Spacing ℝ) (.ofSites (bend row))) := by
  let input : BendPair row := ⟨bendInput, (mem_bend_iff rows).mpr (.inl rfl)⟩
  let middle : BendPair row := ⟨bendMiddle row, (mem_bend_iff rows).mpr (.inr (.inl rfl))⟩
  let output : BendPair row := ⟨bendOutput, (mem_bend_iff rows).mpr (.inr (.inr rfl))⟩
  have star : facingGraph (.standard : Spacing ℝ) (pairsOf (.standard : Spacing ℝ) (.ofSites (bend row))) =
      SimpleGraph.starGraph middle := by
    ext p q
    rw [bend_adj_iff rows, SimpleGraph.starGraph_adj, @Subtype.ext_iff _ _ p middle, @Subtype.ext_iff _ _ q middle]
  constructor
  · rw [star]
    exact SimpleGraph.connected_starGraph middle
  · rw [star]
    exact SimpleGraph.isAcyclic_starGraph middle
  · intro pair
    by_cases centre : pair.val = bendMiddle row
    · have two : ({input, output} : Set (BendPair row)).encard ≤ 2 := by
        refine (Set.encard_insert_le _ _).trans ?_
        rw [Set.encard_singleton, one_add_one_eq_two]
      refine (Set.encard_le_encard ?_).trans two
      rintro ⟨other, known⟩ ⟨different, _⟩
      rcases (mem_bend_iff rows).mp known with rfl | rfl | rfl
      · exact .inl rfl
      · exact absurd (Subtype.ext centre) different
      · exact .inr rfl
    · exact (bend_isEnd rows centre).trans one_le_two

end

/-- Pairs on a path that bends upwards are more than one wire: the chain begins in the middle. -/
theorem bend_upwards_splits :
    Unbranched (.standard : Spacing ℝ) (pairsOf (.standard : Spacing ℝ) (.ofSites (bend 0))) ∧
      ¬ ∃ wire, ofLayout (.standard : Spacing ℝ) (.ofSites (bend 0)) .all = [wire] ∧
        wire.pairs.Perm (pairsOf (.standard : Spacing ℝ) (.ofSites (bend 0))) := by
  have rows : (0 : Int) = 0 ∨ (0 : Int) = 2 := .inl rfl
  have unbranched := bend_unbranched rows
  let input : BendPair 0 := ⟨bendInput, (mem_bend_iff rows).mpr (.inl rfl)⟩
  let middle : BendPair 0 := ⟨bendMiddle 0, (mem_bend_iff rows).mpr (.inr (.inl rfl))⟩
  let output : BendPair 0 := ⟨bendOutput, (mem_bend_iff rows).mpr (.inr (.inr rfl))⟩
  have different : bendMiddle 0 ≠ bendInput ∧ bendMiddle 0 ≠ bendOutput ∧ bendInput ≠ bendOutput := by decide
  have least : ∀ pair ∈ pairsOf (.standard : Spacing ℝ) (.ofSites (bend 0)), (compare middle.val pair).isLE = true := by
    have first : ∀ pair, pair = bendInput ∨ pair = bendMiddle 0 ∨ pair = bendOutput →
        (compare (bendMiddle 0) pair).isLE = true := by
      rintro pair (rfl | rfl | rfl) <;> decide
    exact fun pair member => first pair ((mem_bend_iff rows).mp member)
  refine ⟨unbranched, fun single => ?_⟩
  have ending := (single_wire_iff_start (Layout.ofSites_distinct _) unbranched middle least).mp single
  have left : (facingGraph _ _).Adj middle input :=
    (bend_adj_iff rows).mpr ⟨fun same => different.1 (congrArg Subtype.val same), .inl rfl⟩
  have right : (facingGraph _ _).Adj middle output :=
    (bend_adj_iff rows).mpr ⟨fun same => different.2.1 (congrArg Subtype.val same), .inl rfl⟩
  exact different.2.2 (congrArg Subtype.val (Set.encard_le_one_iff.mp ending input output left right))

/-- The same pairs with the bend downwards are one wire. -/
theorem bend_downwards_single :
    Unbranched (.standard : Spacing ℝ) (pairsOf (.standard : Spacing ℝ) (.ofSites (bend 2))) ∧
      ∃ wire, ofLayout (.standard : Spacing ℝ) (.ofSites (bend 2)) .all = [wire] ∧
        wire.pairs.Perm (pairsOf (.standard : Spacing ℝ) (.ofSites (bend 2))) := by
  have rows : (2 : Int) = 0 ∨ (2 : Int) = 2 := .inr rfl
  have unbranched := bend_unbranched rows
  have least : ∀ pair, pair = bendInput ∨ pair = bendMiddle 2 ∨ pair = bendOutput →
      (compare bendInput pair).isLE = true := by
    rintro pair (rfl | rfl | rfl) <;> decide
  have outer : bendInput ≠ bendMiddle 2 := by decide
  refine ⟨unbranched, (unbranched_single_iff .standard (bend 2) unbranched).mpr ?_⟩
  refine ⟨⟨bendInput, (mem_bend_iff rows).mpr (.inl rfl)⟩, ?_, bend_isEnd rows outer⟩
  exact fun pair member => least pair ((mem_bend_iff rows).mp member)

end

end BdlWire

end DanglingBond
