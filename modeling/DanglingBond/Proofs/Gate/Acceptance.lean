import Mathlib
import DanglingBond.Gate.Operability
import DanglingBond.Proofs.Gate.Wire

/-!
What a gate asks of a ground state, said of the wires that hold its pairs (`Gate.Computes`): every output
pair means the bit of its table and, where kinks are rejected, so do the other pairs of its wire, and the
normal pairs of the wire of an input mean the bit of that input. A gate accepts exactly the charges that
do so (`accepts_iff`).
-/

namespace DanglingBond

variable {K : Type} [Elementary K]

/-- The wire that holds a pair carries a bit: those of its pairs that are picked mean the bit when they
    are read in the direction of the wire. -/
def BdlWire.Carries (spacing : Spacing K) (layout : Layout) (chargeAt? : Coord → Option Charge) (pair : BdlPair)
    (picked : BdlPair → Prop) (bit : Bool) : Prop :=
  ∃ wire ∈ ofLayout spacing layout .all, pair ∈ wire.pairs ∧
    ∀ other ∈ wire.pairs, picked other → other.Encodes chargeAt? wire.direction bit

/-- The charges mean what the tables say about an input pattern. Bit `0` of the pattern belongs to the
    last input pair. -/
structure Gate.Computes (spacing : Spacing K) (layout : Layout) (tables : List TruthTable) (rejectKinks : Bool)
    (pattern : Nat) (chargeAt? : Coord → Option Charge) : Prop where
  outputs : ∀ (index : Nat) (pair : BdlPair) (table : TruthTable),
    (BdlPair.ofLayout spacing layout .output)[index]? = some pair → tables[index]? = some table →
      BdlWire.Carries spacing layout chargeAt? pair (· = pair) (table.bit pattern)
  inputWires : rejectKinks = true → ∀ (index : Nat) (pair : BdlPair),
    (BdlPair.ofLayout spacing layout .input).reverse[index]? = some pair →
      BdlWire.Carries spacing layout chargeAt? pair (·.kind = .normal) (pattern.testBit index)
  outputWires : rejectKinks = true → ∀ (index : Nat) (pair : BdlPair) (table : TruthTable),
    (BdlPair.ofLayout spacing layout .output)[index]? = some pair → tables[index]? = some table →
      BdlWire.Carries spacing layout chargeAt? pair (·.kind ≠ .input) (table.bit pattern)

variable {spacing : Spacing K} {layout : Layout} {tables : List TruthTable} {chargeAt? : Coord → Option Charge}

namespace BdlWire

theorem carries_iff {wire : BdlWire} (listed : wire ∈ ofLayout spacing layout .all) {pair : BdlPair}
    (member : pair ∈ wire.pairs) {picked : BdlPair → Prop} {bit : Bool} :
    Carries spacing layout chargeAt? pair picked bit ↔
      ∀ other ∈ wire.pairs, picked other → other.Encodes chargeAt? wire.direction bit := by
  constructor
  · rintro ⟨other, otherListed, otherMember, carried⟩
    rwa [holding_unique listed otherListed member otherMember]
  · exact fun carried => ⟨wire, listed, member, carried⟩

theorem Carries.congr {pair : BdlPair} {picked chosen : BdlPair → Prop} {bit : Bool}
    (same : ∀ other ∈ pairsOf spacing layout, picked other ↔ chosen other) :
    Carries spacing layout chargeAt? pair picked bit ↔ Carries spacing layout chargeAt? pair chosen bit := by
  refine exists_congr fun wire => and_congr_right fun listed => and_congr_right fun _ => ?_
  exact forall₂_congr fun other member => imp_congr_left (same other (mem_pairsOf_of_mem listed member))

variable {kept dropped : SiteKind} {pair : BdlPair} {bit : Bool}

theorem encodes_directionOf_iff (distinct : layout.Distinct) (different : kept ≠ dropped)
    (member : pair ∈ pairsOf spacing layout) (kind : pair.kind = kept) :
    pair.Encodes chargeAt? (directionOf (selected spacing layout kept dropped) pair) bit ↔
      Carries spacing layout chargeAt? pair (· = pair) bit := by
  obtain ⟨wire, listed, held⟩ := exists_holding member
  rw [directionOf_selected distinct different listed held kind, carries_iff listed held]
  constructor
  · rintro encoded other _ rfl
    exact encoded
  · exact fun carried => carried pair held rfl

theorem wireCarries_iff (distinct : layout.Distinct) (different : kept ≠ dropped)
    (member : pair ∈ pairsOf spacing layout) (kind : pair.kind = kept) (omitted : Option SiteKind) :
    (∀ wire ∈ selected spacing layout kept dropped, wire.contains pair → Gate.WireCarries chargeAt? wire omitted bit) ↔
      Carries spacing layout chargeAt? pair (fun other => other.kind ≠ dropped ∧ some other.kind ≠ omitted) bit := by
  obtain ⟨wire, listed, held⟩ := exists_holding member
  have only := contains_selected_iff distinct different listed held kind
  rw [carries_iff listed held]
  constructor
  · intro all other inside picked
    obtain ⟨found, contained⟩ := (only _).mpr rfl
    exact all _ found contained other (List.mem_filter.mpr ⟨inside, decide_eq_true picked.1⟩) picked.2
  · intro carried found inside contained other remaining considered
    obtain rfl := (only found).mp ⟨inside, contained⟩
    obtain ⟨inside, undropped⟩ := List.mem_filter.mp remaining
    exact carried other inside ⟨of_decide_eq_true undropped, considered⟩

end BdlWire

theorem TruthTable.commonArity_le {arity : Nat} (common : commonArity tables = .ok arity) : arity ≤ maxArity := by
  unfold commonArity at common
  split at common
  · contradiction
  split at common
  · contradiction
  rename_i first _ _ _
  obtain rfl := Except.ok.inj common
  exact first.arity_le

namespace Gate

/-- The gate of a layout and its tables, whether they fit each other or not. -/
def described (spacing : Spacing K) (layout : Layout) (tables : List TruthTable) : Gate where
  patterns := .ofLayout spacing layout
  outputs := (BdlPair.ofLayout spacing layout .output).zip tables
  inputWires := BdlWire.ofLayout spacing layout .input
  outputWires := BdlWire.ofLayout spacing layout .output

theorem ofLayout?_eq_ok {gate : Gate} (made : ofLayout? spacing layout tables = .ok gate) :
    gate = described spacing layout tables ∧ BdlPair.ofLayout spacing layout .output ≠ [] ∧
      gate.patterns.numInputs ≤ TruthTable.maxArity := by
  simp only [ofLayout?, Except.bind_eq_ok, Except.guard_eq_ok, Except.pure_eq_ok] at made
  obtain ⟨arity, common, inputs, occupied, _, rfl⟩ := made
  refine ⟨rfl, by simpa using occupied, ?_⟩
  exact not_not.mp inputs ▸ TruthTable.commonArity_le common

/-- To go through the outputs is to go through the output pairs and the tables side by side. -/
theorem forall_outputs_iff {P : BdlPair → TruthTable → Prop} :
    (∀ output ∈ (described spacing layout tables).outputs, P output.1 output.2) ↔
      ∀ (index : Nat) (pair : BdlPair) (table : TruthTable),
        (BdlPair.ofLayout spacing layout .output)[index]? = some pair → tables[index]? = some table → P pair table := by
  constructor
  · intro all index pair table placed tabled
    refine all (pair, table) (List.mem_iff_getElem?.mpr ⟨index, ?_⟩)
    exact List.getElem?_zip_eq_some.mpr ⟨placed, tabled⟩
  · rintro all ⟨pair, table⟩ member
    obtain ⟨index, placed⟩ := List.mem_iff_getElem?.mp member
    obtain ⟨placed, tabled⟩ := List.getElem?_zip_eq_some.mp placed
    exact all index pair table placed tabled

section

variable (distinct : layout.Distinct) (pattern : Nat)
include distinct

theorem outputsMatch_iff : (described spacing layout tables).OutputsMatch chargeAt? pattern ↔
    ∀ (index : Nat) (pair : BdlPair) (table : TruthTable),
      (BdlPair.ofLayout spacing layout .output)[index]? = some pair → tables[index]? = some table →
        BdlWire.Carries spacing layout chargeAt? pair (· = pair) (table.bit pattern) := by
  refine Iff.trans (forall_outputs_iff (P := fun pair table =>
    pair.Encodes chargeAt? (BdlWire.directionOf (BdlWire.ofLayout spacing layout .output) pair) (table.bit pattern))) ?_
  refine forall₄_congr fun index pair table placed => imp_congr_right fun _ => ?_
  obtain ⟨member, kind⟩ := BdlWire.mem_pairsOf_of_kind (by decide) (List.mem_of_getElem? placed)
  exact BdlWire.encodes_directionOf_iff distinct (by decide) member kind

theorem outputWiresCarry_iff : (described spacing layout tables).OutputWiresCarry chargeAt? pattern ↔
    ∀ (index : Nat) (pair : BdlPair) (table : TruthTable),
      (BdlPair.ofLayout spacing layout .output)[index]? = some pair → tables[index]? = some table →
        BdlWire.Carries spacing layout chargeAt? pair (·.kind ≠ .input) (table.bit pattern) := by
  refine Iff.trans (forall_outputs_iff (P := fun pair table => ∀ wire ∈ BdlWire.ofLayout spacing layout .output,
    wire.contains pair → WireCarries chargeAt? wire none (table.bit pattern))) ?_
  refine forall₄_congr fun index pair table placed => imp_congr_right fun _ => ?_
  obtain ⟨member, kind⟩ := BdlWire.mem_pairsOf_of_kind (by decide) (List.mem_of_getElem? placed)
  refine Iff.trans (BdlWire.wireCarries_iff distinct (by decide) member kind none) (BdlWire.Carries.congr ?_)
  simp

theorem inputWiresCarry_iff : (described spacing layout tables).InputWiresCarry chargeAt? pattern ↔
    ∀ (index : Nat) (pair : BdlPair), (BdlPair.ofLayout spacing layout .input).reverse[index]? = some pair →
      BdlWire.Carries spacing layout chargeAt? pair (·.kind = .normal) (pattern.testBit index) := by
  have carries {index : Nat} {pair : BdlPair}
      (placed : (BdlPair.ofLayout spacing layout .input).reverse[index]? = some pair) :
      (∀ wire ∈ BdlWire.ofLayout spacing layout .input, wire.contains pair →
          WireCarries chargeAt? wire (some .input) (pattern.testBit index)) ↔
        BdlWire.Carries spacing layout chargeAt? pair (·.kind = .normal) (pattern.testBit index) := by
    obtain ⟨member, kind⟩ := BdlWire.mem_pairsOf_of_kind (by decide) (List.mem_reverse.mp (List.mem_of_getElem? placed))
    refine Iff.trans (BdlWire.wireCarries_iff distinct (by decide) member kind (some .input)) (BdlWire.Carries.congr ?_)
    intro other listed
    have sited := (BdlWire.mem_pairsOf.mp listed).1
    cases kind : other.kind <;> simp_all
  have entries {input : BdlPair × Direction} {index : Nat} :
      (input, index) ∈ (described spacing layout tables).patterns.inputs.reverse.zipIdx ↔
        ∃ pair, (BdlPair.ofLayout spacing layout .input).reverse[index]? = some pair ∧
          (pair, BdlWire.directionOf (BdlWire.ofLayout spacing layout .input) pair) = input := by
    rw [List.mk_mem_zipIdx_iff_getElem?, described, InputPatterns.ofLayout, ← List.map_reverse, List.getElem?_map,
      Option.map_eq_some_iff]
  constructor
  · intro all index pair placed
    exact (carries placed).mp (all _ (entries.mpr ⟨pair, placed, rfl⟩))
  · rintro all ⟨input, index⟩ member
    obtain ⟨pair, placed, rfl⟩ := entries.mp member
    exact (carries placed).mpr (all index pair placed)

theorem accepts_iff (rejectKinks : Bool) :
    (described spacing layout tables).Accepts chargeAt? pattern rejectKinks ↔
      Computes spacing layout tables rejectKinks pattern chargeAt? := by
  rw [Accepts, outputsMatch_iff distinct, inputWiresCarry_iff distinct, outputWiresCarry_iff distinct]
  constructor
  · rintro ⟨outputs, wires⟩
    exact ⟨outputs, fun reject => (wires reject).1, fun reject => (wires reject).2⟩
  · rintro ⟨outputs, inputWires, outputWires⟩
    exact ⟨outputs, fun reject => ⟨inputWires reject, outputWires reject⟩⟩

end

end Gate

end DanglingBond
