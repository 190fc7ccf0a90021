import Mathlib
import DanglingBond.Gate.InputPattern
import DanglingBond.Proofs.Gate.Matching
import DanglingBond.Proofs.Layout.History

/-!
Writing a pattern agrees with reading it. Setting the inputs one by one takes one dot of each input pair away and
leaves all other sites where they are (`setAll_sites`). The dot that is left of a pair is the one that has to be
negative when the pair is to mean the bit of the pattern, so no two patterns give the same layout (`Imposed`,
`patterns_write_bits`).
-/

namespace DanglingBond

namespace Layout

variable {layout : Layout}

theorem assign_empty_sites (distinct : layout.Distinct) (coord : Coord) :
    (layout.assign coord .empty).sites = layout.sites.filter (·.coord ≠ coord) := by
  rcases layout.assign_cases coord .empty with ⟨_, missing, same⟩ | ⟨_, index, found, same⟩ | ⟨something, _⟩ | ⟨something, _⟩
  · rw [same, eq_comm, List.filter_eq_self]
    intro site member
    have unoccupied := indexOf?_eq_none_iff.mp missing
    exact decide_eq_true fun here => unoccupied (List.mem_map.mpr ⟨site, member, here⟩)
  · rw [same, eraseIdx_eq_filter distinct found]
  · exact absurd rfl something
  · exact absurd rfl something

/-- Putting a dangling bond where there is one of its kind changes nothing. -/
theorem assign_present (distinct : layout.Distinct) {site : Site} (member : site ∈ layout.sites)
    (something : site.kind ≠ .empty) : layout.assign site.coord site.kind = layout := by
  rcases layout.assign_cases site.coord site.kind with ⟨nothing, _⟩ | ⟨nothing, _⟩ | ⟨_, missing, _⟩ | ⟨_, index, found, same⟩
  · exact absurd nothing something
  · exact absurd nothing something
  · exact absurd (List.mem_map.mpr ⟨site, member, rfl⟩) (indexOf?_eq_none_iff.mp missing)
  · obtain ⟨inside, here, _⟩ := List.findIdx?_eq_some_iff_getElem.mp found
    have stored : layout.sites[index] = site :=
      List.inj_on_of_nodup_map distinct (List.getElem_mem inside) member (of_decide_eq_true here)
    have replaced : layout.sites.set index layout.sites[index] = layout.sites := List.set_getElem_self inside
    rw [stored] at replaced
    rw [same, replaced]

theorem contains_iff {coord : Coord} : layout.contains coord = true ↔ coord ∈ layout.sites.map (·.coord) := by
  rw [contains, ← not_iff_not, Bool.not_eq_true, Option.isSome_eq_false_iff, Option.isNone_iff_eq_none,
    indexOf?_eq_none_iff]

end Layout

namespace BdlPair

variable {pair : BdlPair} {direction : Direction} {bit : Bool} {dot : Coord}

theorem touches_iff_dots : pair.Touches dot ↔ dot = pair.negativeDot direction bit ∨ dot = pair.neutralDot direction bit := by
  unfold Touches negativeDot neutralDot
  by_cases same : bit = direction.lowerMeansOne
  · rw [if_pos same, if_pos same, or_comm, eq_comm, @eq_comm _ pair.upper]
  · rw [if_neg same, if_neg same, eq_comm, @eq_comm _ pair.lower]

theorem touches_negativeDot : pair.Touches (pair.negativeDot direction bit) := touches_iff_dots.mpr (.inl rfl)

theorem touches_neutralDot : pair.Touches (pair.neutralDot direction bit) := touches_iff_dots.mpr (.inr rfl)

theorem negativeDot_ne_neutralDot (apart : pair.upper ≠ pair.lower) :
    pair.negativeDot direction bit ≠ pair.neutralDot direction bit := by
  unfold negativeDot neutralDot
  by_cases same : bit = direction.lowerMeansOne
  · rw [if_pos same, if_pos same]
    exact apart.symm
  · rw [if_neg same, if_neg same]
    exact apart

/-- Of the two dots, the one that is negative for a bit is neutral for the other bit. -/
theorem negativeDot_not : pair.negativeDot direction (!bit) = pair.neutralDot direction bit := by
  unfold negativeDot neutralDot
  cases bit <;> cases direction.lowerMeansOne <;> rfl

/-- The dot that is negative in all charges that mean a bit. -/
theorem forall_encodes_iff (apart : pair.upper ≠ pair.lower) :
    (∀ chargeAt?, pair.Encodes chargeAt? direction bit → chargeAt? dot = some .negative) ↔
      dot = pair.negativeDot direction bit := by
  constructor
  · intro required
    -- These charges mean the bit, with no negative dot but the required one.
    let charges (coord : Coord) : Option Charge :=
      some (if coord = pair.negativeDot direction bit then .negative else .neutral)
    have neutral : charges (pair.neutralDot direction bit) = some .neutral :=
      congrArg some (if_neg (negativeDot_ne_neutralDot apart).symm)
    have negative := required charges ⟨congrArg some (if_pos rfl), neutral⟩
    by_contra other
    exact absurd ((congrArg some (if_neg other)).symm.trans negative) (by decide)
  · rintro rfl chargeAt? ⟨negative, _⟩
    exact negative

end BdlPair

namespace InputPatterns

/-- The dots that are taken away when inputs are set to the bits of a number. -/
def removed (inputs : List (BdlPair × Direction)) (number : Nat) : List Coord :=
  inputs.mapIdx fun bit input => input.1.neutralDot input.2 (number.testBit bit)

/-- The inputs are made of two dots each, all of them different and on the layout. -/
structure Placed (layout : Layout) (inputs : List (BdlPair × Direction)) : Prop where
  present : ∀ input ∈ inputs, ∀ dot, input.1.Touches dot → ⟨dot, .input⟩ ∈ layout.sites
  apart : ∀ input ∈ inputs, input.1.upper ≠ input.1.lower
  disjoint : inputs.Pairwise fun input later => ∀ dot, input.1.Touches dot → ¬ later.1.Touches dot

section
variable {layout : Layout} {inputs : List (BdlPair × Direction)} {input : BdlPair × Direction} {number : Nat}

theorem removed_cons : removed (input :: inputs) number =
    input.1.neutralDot input.2 (number.testBit 0) :: removed inputs (number / 2) := by
  simp only [removed, List.mapIdx_cons, Nat.testBit_succ]

theorem mem_removed_iff {dot : Coord} : dot ∈ removed inputs number ↔
    ∃ (bit : Nat) (pair : BdlPair) (direction : Direction), inputs[bit]? = some (pair, direction) ∧
      pair.neutralDot direction (number.testBit bit) = dot := by
  simp only [removed, List.mem_mapIdx, List.getElem?_eq_some_iff]
  constructor
  · rintro ⟨bit, inside, same⟩
    exact ⟨bit, _, _, ⟨inside, rfl⟩, same⟩
  · rintro ⟨bit, pair, direction, ⟨inside, listed⟩, same⟩
    exact ⟨bit, inside, by rw [listed]; exact same⟩

theorem setInput_sites (distinct : layout.Distinct) (apart : input.1.upper ≠ input.1.lower)
    (present : ∀ dot, input.1.Touches dot → ⟨dot, .input⟩ ∈ layout.sites) (bit : Bool) :
    (setInput layout input bit).sites = layout.sites.filter (·.coord ≠ input.1.neutralDot input.2 bit) := by
  obtain ⟨pair, direction⟩ := input
  have emptied := Layout.assign_empty_sites distinct (pair.neutralDot direction bit)
  have left : ⟨pair.negativeDot direction bit, .input⟩ ∈ (layout.assign (pair.neutralDot direction bit) .empty).sites := by
    rw [emptied, List.mem_filter]
    refine ⟨present _ BdlPair.touches_negativeDot, ?_⟩
    exact decide_eq_true (BdlPair.negativeDot_ne_neutralDot apart)
  have kept := Layout.assign_present (Layout.assign_distinct distinct (pair.neutralDot direction bit) .empty) left nofun
  rw [setInput, kept, emptied]

theorem setInput_distinct (distinct : layout.Distinct) (bit : Bool) : (setInput layout input bit).Distinct :=
  Layout.assign_distinct (Layout.assign_distinct distinct _ _) _ _

theorem Placed.setInput (placed : Placed layout (input :: inputs)) (distinct : layout.Distinct) (bit : Bool) :
    Placed (setInput layout input bit) inputs := by
  obtain ⟨ahead, disjoint⟩ := List.pairwise_cons.mp placed.disjoint
  refine ⟨?_, fun later member => placed.apart later (List.mem_cons_of_mem _ member), disjoint⟩
  intro later member dot touches
  rw [setInput_sites distinct (placed.apart input List.mem_cons_self) (placed.present input List.mem_cons_self),
    List.mem_filter]
  refine ⟨placed.present later (List.mem_cons_of_mem _ member) dot touches, decide_eq_true ?_⟩
  rintro rfl
  exact ahead later member _ BdlPair.touches_neutralDot touches

theorem setAll_sites (distinct : layout.Distinct) (placed : Placed layout inputs) (number : Nat) :
    (setAll layout inputs number).sites = layout.sites.filter (·.coord ∉ removed inputs number) := by
  induction inputs generalizing layout number with
  | nil => simp [setAll, removed]
  | cons input inputs ih =>
    have lowest : decide (number % 2 = 1) = number.testBit 0 := (Nat.testBit_zero number).symm
    rw [setAll, ih (setInput_distinct distinct _) (placed.setInput distinct _),
      setInput_sites distinct (placed.apart input List.mem_cons_self) (placed.present input List.mem_cons_self),
      List.filter_filter, removed_cons, lowest]
    refine List.filter_congr fun site _ => ?_
    simp only [List.mem_cons, not_or, Bool.decide_and, Bool.and_comm]

theorem setAll_size (distinct : layout.Distinct) (placed : Placed layout inputs) (number : Nat) :
    (setAll layout inputs number).size + inputs.length = layout.size := by
  induction inputs generalizing layout number with
  | nil => rfl
  | cons input inputs ih =>
    have apart := placed.apart input List.mem_cons_self
    have present := placed.present input List.mem_cons_self
    have one : (setInput layout input (number % 2 = 1)).size + 1 = layout.size := by
      let gone := input.1.neutralDot input.2 (number % 2 = 1)
      have listed : gone ∈ layout.sites.map (·.coord) :=
        List.mem_map.mpr ⟨_, present gone BdlPair.touches_neutralDot, rfl⟩
      have erased : (layout.sites.map (·.coord)).erase gone = (layout.sites.filter (·.coord ≠ gone)).map (·.coord) := by
        rw [distinct.erase_eq_filter, List.filter_map]
        exact congrArg _ (List.filter_congr fun site _ => (decide_not ..).symm)
      have shorter := List.length_erase_add_one listed
      rw [erased, List.length_map, List.length_map] at shorter
      rwa [Layout.size, setInput_sites distinct apart present]
    have rest := ih (setInput_distinct distinct (number % 2 = 1)) (placed.setInput distinct _) (number / 2)
    rw [setAll, List.length_cons]
    omega

/-- Of the dots of an input only the one stays that is negative for its bit. -/
theorem contains_setAll_iff (distinct : layout.Distinct) (placed : Placed layout inputs) {bit : Nat} {pair : BdlPair}
    {direction : Direction} (listed : inputs[bit]? = some (pair, direction)) {dot : Coord} (touches : pair.Touches dot) :
    (setAll layout inputs number).contains dot = true ↔ dot = pair.negativeDot direction (number.testBit bit) := by
  obtain ⟨inside, here⟩ := List.getElem?_eq_some_iff.mp listed
  have member : (pair, direction) ∈ inputs := List.mem_of_getElem? listed
  have gone : dot ∈ removed inputs number ↔ dot = pair.neutralDot direction (number.testBit bit) := by
    rw [mem_removed_iff]
    constructor
    · rintro ⟨index, other, towards, found, rfl⟩
      obtain ⟨within, there⟩ := List.getElem?_eq_some_iff.mp found
      have touched : other.Touches (other.neutralDot towards (number.testBit index)) := BdlPair.touches_neutralDot
      rcases Nat.lt_trichotomy index bit with before | rfl | behind
      · have disjoint := List.pairwise_iff_getElem.mp placed.disjoint index bit within inside before
        rw [here, there] at disjoint
        exact absurd touches (disjoint _ touched)
      · obtain ⟨rfl, rfl⟩ := Prod.mk.inj (Option.some.inj (found.symm.trans listed))
        rfl
      · have disjoint := List.pairwise_iff_getElem.mp placed.disjoint bit index inside within behind
        rw [here, there] at disjoint
        exact absurd touched (disjoint _ touches)
    · rintro rfl
      exact ⟨bit, pair, direction, listed, rfl⟩
  have present := placed.present _ member dot touches
  rw [Layout.contains_iff, setAll_sites distinct placed, List.mem_map]
  constructor
  · rintro ⟨site, kept, rfl⟩
    have stays := of_decide_eq_true (List.mem_filter.mp kept).2
    exact (BdlPair.touches_iff_dots.mp touches).resolve_right fun neutral => stays (gone.mpr neutral)
  · intro negative
    refine ⟨_, List.mem_filter.mpr ⟨present, decide_eq_true fun taken => ?_⟩, rfl⟩
    exact BdlPair.negativeDot_ne_neutralDot (placed.apart _ member) (negative.symm.trans (gone.mp taken))

end

section
variable {K : Type} [Elementary K] {spacing : Spacing K} {layout : Layout}

/-- What is left of a layout under a pattern: of each input pair one dot, and all other sites. The dot is the one
    that has to be negative when the pair, read in its direction, means its bit of the pattern. -/
structure Imposed (layout : Layout) (inputs : List BdlPair) (direction : BdlPair → Direction) (pattern : Nat)
    (result : Layout) : Prop where
  /-- The sites that are left have the kinds and the order that they had. -/
  sublist : result.sites.Sublist layout.sites
  others : ∀ site ∈ layout.sites, (∀ pair ∈ inputs, ¬ pair.Touches site.coord) → site ∈ result.sites
  size : result.size + inputs.length = layout.size
  single : ∀ pair ∈ inputs, result.contains pair.upper ≠ result.contains pair.lower
  reads : ∀ bit < inputs.length, ∀ pair, inputs[inputs.length - 1 - bit]? = some pair → ∀ dot, pair.Touches dot →
    (result.contains dot = true ↔
      ∀ chargeAt?, pair.Encodes chargeAt? (direction pair) (pattern.testBit bit) → chargeAt? dot = some .negative)

/-- A layout that is left tells the bits of its pattern. -/
theorem Imposed.testBit_eq {inputs : List BdlPair} {direction : BdlPair → Direction} {pattern other : Nat}
    {result : Layout} (imposed : Imposed layout inputs direction pattern result)
    (also : Imposed layout inputs direction other result) (apart : ∀ pair ∈ inputs, pair.upper ≠ pair.lower)
    {bit : Nat} (within : bit < inputs.length) : pattern.testBit bit = other.testBit bit := by
  obtain ⟨pair, listed⟩ : ∃ pair, inputs[inputs.length - 1 - bit]? = some pair :=
    ⟨_, List.getElem?_eq_getElem (by omega)⟩
  have apart := apart pair (List.mem_of_getElem? listed)
  have kept := imposed.reads bit within pair listed (pair.negativeDot (direction pair) (pattern.testBit bit))
    BdlPair.touches_negativeDot
  rw [also.reads bit within pair listed _ BdlPair.touches_negativeDot, BdlPair.forall_encodes_iff apart,
    BdlPair.forall_encodes_iff apart] at kept
  have same := kept.mpr rfl
  by_contra differ
  rw [Bool.eq_not_of_ne differ, BdlPair.negativeDot_not] at same
  exact BdlPair.negativeDot_ne_neutralDot apart same.symm

theorem mem_ofLayout_inputs {input : BdlPair × Direction} : input ∈ (ofLayout spacing layout).inputs ↔
    input.1 ∈ BdlPair.ofLayout spacing layout .input ∧
      input.2 = BdlWire.directionOf (BdlWire.ofLayout spacing layout .input) input.1 := by
  obtain ⟨pair, direction⟩ := input
  simp only [ofLayout, List.mem_map, Prod.mk.injEq]
  constructor
  · rintro ⟨pair, listed, rfl, rfl⟩
    exact ⟨listed, rfl⟩
  · rintro ⟨listed, rfl⟩
    exact ⟨pair, listed, rfl, rfl⟩

theorem placed_inputs (spacing : Spacing K) (distinct : layout.Distinct) :
    Placed layout (ofLayout spacing layout).inputs.reverse where
  present input listed dot touches := by
    obtain ⟨_, upper, lower⟩ := BdlPair.mem_ofLayout (mem_ofLayout_inputs.mp (List.mem_reverse.mp listed)).1
    rcases touches with rfl | rfl
    · exact Layout.mem_coordsOfKind_iff.mp upper
    · exact Layout.mem_coordsOfKind_iff.mp lower
  apart input listed :=
    Coord.ne_of_lt (BdlPair.upper_lt_lower distinct (mem_ofLayout_inputs.mp (List.mem_reverse.mp listed)).1)
  disjoint := by
    rw [List.pairwise_reverse, ofLayout, List.pairwise_map]
    exact (BdlPair.ofLayout_disjoint spacing layout .input).imp fun apart dot later first => apart dot first later

theorem apply_imposed (distinct : layout.Distinct) (pattern : Nat) :
    Imposed layout (BdlPair.ofLayout spacing layout .input)
      (BdlWire.directionOf (BdlWire.ofLayout spacing layout .input)) pattern
      ((ofLayout spacing layout).apply pattern) := by
  have placed := placed_inputs spacing distinct
  have sites : ((ofLayout spacing layout).apply pattern).sites =
      layout.sites.filter (·.coord ∉ removed (ofLayout spacing layout).inputs.reverse pattern) :=
    setAll_sites distinct placed pattern
  have apart {pair : BdlPair} (listed : pair ∈ BdlPair.ofLayout spacing layout .input) : pair.upper ≠ pair.lower :=
    Coord.ne_of_lt (BdlPair.upper_lt_lower distinct listed)
  have kept {bit : Nat} {pair : BdlPair} (listed : (BdlPair.ofLayout spacing layout .input).reverse[bit]? = some pair)
      {dot : Coord} (touches : pair.Touches dot) : ((ofLayout spacing layout).apply pattern).contains dot = true ↔
        dot = pair.negativeDot (BdlWire.directionOf (BdlWire.ofLayout spacing layout .input) pair) (pattern.testBit bit) := by
    refine contains_setAll_iff distinct placed ?_ touches
    rw [ofLayout, ← List.map_reverse, List.getElem?_map, listed]
    rfl
  constructor
  · rw [sites]
    exact List.filter_sublist
  · intro site member untouched
    rw [sites, List.mem_filter]
    refine ⟨member, decide_eq_true fun taken => ?_⟩
    obtain ⟨bit, pair, direction, listed, same⟩ := mem_removed_iff.mp taken
    have known := (mem_ofLayout_inputs.mp (List.mem_reverse.mp (List.mem_of_getElem? listed))).1
    exact untouched pair known (same ▸ BdlPair.touches_neutralDot)
  · have counted := setAll_size distinct placed pattern
    rwa [List.length_reverse, ofLayout, List.length_map] at counted
  · intro pair listed
    obtain ⟨bit, place⟩ := List.mem_iff_getElem?.mp (List.mem_reverse.mpr listed)
    rw [Ne, Bool.eq_iff_iff, kept place (.inl rfl), kept place (.inr rfl)]
    unfold BdlPair.negativeDot
    split
    · simpa using apart listed
    · simpa using (apart listed).symm
  · intro bit within pair listed dot touches
    rw [BdlPair.forall_encodes_iff (apart (List.mem_of_getElem? listed))]
    rw [← List.getElem?_reverse within] at listed
    exact kept listed touches

/-- Patterns write what is read. Each of them leaves of every input pair the dot that means its bit, different
    patterns leave different layouts, and all patterns are gone through in increasing order. -/
theorem patterns_write_bits (spacing : Spacing K) (sites : List Site)
    (few : (BdlPair.ofLayout spacing (.ofSites sites) .input).length < 64) :
    let layout := Layout.ofSites sites
    let patterns := ofLayout spacing layout
    let inputs := BdlPair.ofLayout spacing layout .input
    let direction := BdlWire.directionOf (BdlWire.ofLayout spacing layout .input)
    (∀ pattern < 2 ^ inputs.length, Imposed layout inputs direction pattern (patterns.apply pattern)) ∧
    (∀ pattern < 2 ^ inputs.length, ∀ other < 2 ^ inputs.length,
      patterns.apply pattern = patterns.apply other → pattern = other) ∧
    patterns.all = (List.range (2 ^ inputs.length)).map fun pattern => (pattern, patterns.apply pattern) := by
  intro layout patterns inputs direction
  have distinct : layout.Distinct := Layout.ofSites_distinct sites
  have counted : patterns.numInputs = inputs.length := List.length_map _
  refine ⟨fun pattern _ => apply_imposed distinct pattern, ?_, ?_⟩
  · intro pattern below other alsoBelow same
    have imposed : Imposed layout inputs direction pattern (patterns.apply pattern) := apply_imposed distinct pattern
    have also : Imposed layout inputs direction other (patterns.apply other) := apply_imposed distinct other
    refine Nat.eq_of_testBit_eq fun bit => ?_
    rcases Nat.lt_or_ge bit inputs.length with within | beyond
    · refine imposed.testBit_eq (same ▸ also) ?_ within
      exact fun pair listed => Coord.ne_of_lt (BdlPair.upper_lt_lower distinct listed)
    · have power := Nat.pow_le_pow_right Nat.zero_lt_two beyond
      rw [Nat.testBit_lt_two_pow (below.trans_le power), Nat.testBit_lt_two_pow (alsoBelow.trans_le power)]
  · rw [all, numPatterns, counted, Nat.min_eq_left (Nat.le_of_lt_succ few)]

end

/-- Of a layout with one input pair and one more dot, the two patterns leave different parts. -/
theorem patterns_write_bits_single :
    let layout := Layout.ofSites [⟨.column 0, .input⟩, ⟨.column 3, .input⟩, ⟨.column 6, .normal⟩]
    let patterns := ofLayout (.standard : Spacing ℝ) layout
    (BdlPair.ofLayout (.standard : Spacing ℝ) layout .input).length = 1 ∧
      (patterns.apply 0).size = 2 ∧ (patterns.apply 1).size = 2 ∧ patterns.apply 0 ≠ patterns.apply 1 := by
  intro layout patterns
  have dots : layout.coordsOfKind .input = [.column 0, .column 3] := by decide
  have threshold : (Spacing.standard : Spacing ℝ).pairThreshold = 2.0 := rfl
  have pairs : BdlPair.ofLayout (.standard : Spacing ℝ) layout .input = [.of .input (.column 0) (.column 3)] := by
    refine BdlPair.ofLayout_of_two dots ?_
    rw [Coord.distance_column, threshold]
    norm_num
  have few : (BdlPair.ofLayout (.standard : Spacing ℝ) layout .input).length < 64 := by
    rw [pairs]
    decide
  obtain ⟨imposed, different, _⟩ := patterns_write_bits (.standard : Spacing ℝ) _ few
  rw [pairs] at imposed different
  have first := (imposed 0 (by decide)).size
  have second := (imposed 1 (by decide)).size
  refine ⟨by rw [pairs]; rfl, Nat.succ.inj first, Nat.succ.inj second, fun same => ?_⟩
  exact absurd (different 0 (by decide) 1 (by decide) same) (by decide)

end InputPatterns

end DanglingBond
