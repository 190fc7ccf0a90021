import Mathlib
import DanglingBond.Charge.Codec

/-!
The numbers that assignments spell. Read as digits in the radices of a codec, an assignment that
fits them is a number below their product (`Codec.number`), and the order of these numbers is the
lexicographic order of the digits (`digits_lt_iff`). Raising the last digit that can be raised and
lowering all behind it adds one (`number_wrap`), and only the last number has no such digit
(`raise?_eq_none`). The index that a codec computes is this number as long as a machine word
holds it (`encode_eq`).
-/

namespace DanglingBond

namespace Charge

theorem digit_injective {state other : Charge} (same : state.digit = other.digit) : state = other := by
  cases state <;> cases other <;> first | rfl | simp [digit] at same

theorem digit_lt_three (state : Charge) : state.digit < 3 := by
  cases state <;> simp [digit]

theorem mem_ofBase_iff {base : Nat} (least : 2 ≤ base) (state : Charge) : state ∈ ofBase base ↔ state.digit < base := by
  unfold ofBase
  by_cases three : 3 ≤ base
  · have below := state.digit_lt_three
    rw [if_pos three]
    cases state <;> simp [digit] <;> omega
  · rw [if_neg three]
    cases state <;> simp [digit] <;> omega

theorem negative_mem_ofBase (base : Nat) : negative ∈ ofBase base := by
  unfold ofBase
  split <;> decide

theorem ofBase_nodup (base : Nat) : (ofBase base).Nodup := by
  unfold ofBase
  split <;> decide

/-- Below three the next digit is that of a charge. -/
theorem ofDigit?_succ {state : Charge} (below : state.digit + 1 < 3) :
    ∃ next, ofDigit? (state.digit + 1) = some next ∧ next.digit = state.digit + 1 := by
  cases state with
  | negative => exact ⟨neutral, rfl, rfl⟩
  | neutral => exact ⟨positive, rfl, rfl⟩
  | positive => simp [digit] at below

theorem compare_eq (state other : Charge) : compare state other = compare state.digit other.digit := rfl

theorem compareList_eq_lt_iff (first second : List Charge) :
    listLE.compareList first second = .lt ↔ first.map digit < second.map digit := by
  induction first generalizing second with
  | nil => cases second <;> simp [listLE.compareList]
  | cons state states ih =>
    cases second with
    | nil => simp [listLE.compareList]
    | cons other others =>
      simp only [listLE.compareList, compare_eq, List.map_cons, List.cons_lt_cons_iff, ← ih,
        Ordering.then_eq_lt, Nat.compare_eq_lt, Nat.compare_eq_eq]

theorem compareList_swap (first second : List Charge) :
    (listLE.compareList first second).swap = listLE.compareList second first := by
  induction first generalizing second with
  | nil => cases second <;> rfl
  | cons state states ih =>
    cases second with
    | nil => rfl
    | cons other others =>
      simp only [listLE.compareList, compare_eq, Ordering.swap_then, ih, Nat.compare_swap]

/-- The order in which outcomes are listed is the lexicographic order of the digits. -/
theorem listLE_eq_true_iff (first second : List Charge) :
    listLE first second = true ↔ ¬ second.map digit < first.map digit := by
  rw [← compareList_eq_lt_iff, ← compareList_swap, listLE]
  cases listLE.compareList first second <;> simp

end Charge

namespace Codec

/-- There is one state for each radix, and its digit is below the radix. -/
def Fits (radices : List Nat) (states : List Charge) : Prop :=
  List.Forall₂ (fun r (state : Charge) => state.digit < r) radices states

/-- The number that the digits of an assignment spell, the first of them the most significant. -/
def number : List Nat → List Charge → Nat
  | _ :: radices, state :: states => state.digit * radices.prod + number radices states
  | _, _ => 0

theorem number_lt_prod {radices : List Nat} {states : List Charge} (fits : Fits radices states) :
    number radices states < radices.prod := by
  induction fits with
  | nil => simp [number]
  | @cons r state radices states below _ ih =>
    have room : (state.digit + 1) * radices.prod ≤ r * radices.prod := Nat.mul_le_mul_right _ below
    rw [Nat.add_mul, Nat.one_mul] at room
    rw [number, List.prod_cons]
    omega

@[simp] theorem number_replicate (radices : List Nat) (n : Nat) :
    number radices (List.replicate n .negative) = 0 := by
  induction radices generalizing n with
  | nil => simp [number]
  | cons r radices ih => cases n <;> simp [number, List.replicate_succ, Charge.digit, ih]

theorem number_injective {radices : List Nat} {states others : List Charge} (fits : Fits radices states)
    (otherFits : Fits radices others) (same : number radices states = number radices others) : states = others := by
  induction fits generalizing others with
  | nil => exact (List.forall₂_nil_left_iff.mp otherFits).symm
  | @cons r state radices states below fits ih =>
    obtain ⟨other, others, _, othersFit, rfl⟩ := List.forall₂_cons_left_iff.mp otherFits
    have rest := number_lt_prod fits
    have otherRest := number_lt_prod othersFit
    simp only [number] at same
    have digits : state.digit = other.digit := by
      have quotient := congrArg (· / radices.prod) same
      simpa only [Nat.mul_comm _ radices.prod, Nat.mul_add_div (Nat.zero_lt_of_lt rest), Nat.div_eq_of_lt rest,
        Nat.div_eq_of_lt otherRest, Nat.add_zero] using quotient
    rw [digits] at same
    rw [Charge.digit_injective digits, ih othersFit (Nat.add_left_cancel same)]

/-- Numbers are ordered as their digits are, lexicographically. -/
theorem digits_lt_iff {radices : List Nat} {states others : List Charge} (fits : Fits radices states)
    (otherFits : Fits radices others) :
    states.map Charge.digit < others.map Charge.digit ↔ number radices states < number radices others := by
  induction fits generalizing others with
  | nil =>
    rw [List.forall₂_nil_left_iff.mp otherFits]
    simp [number]
  | @cons r state radices states below fits ih =>
    obtain ⟨other, others, _, othersFit, rfl⟩ := List.forall₂_cons_left_iff.mp otherFits
    have rest := number_lt_prod fits
    have otherRest := number_lt_prod othersFit
    simp only [List.map_cons, List.cons_lt_cons_iff, ih othersFit, number]
    rcases Nat.lt_trichotomy state.digit other.digit with less | same | more
    · have room : (state.digit + 1) * radices.prod ≤ other.digit * radices.prod := Nat.mul_le_mul_right _ less
      rw [Nat.add_mul, Nat.one_mul] at room
      constructor
      · intro _; omega
      · intro _; exact Or.inl less
    · rw [same]
      omega
    · have room : (other.digit + 1) * radices.prod ≤ state.digit * radices.prod := Nat.mul_le_mul_right _ more
      rw [Nat.add_mul, Nat.one_mul] at room
      constructor
      · intro order; omega
      · intro order; omega

theorem fits_negative {radices : List Nat} (two_or_three : ∀ r ∈ radices, r = 2 ∨ r = 3) :
    Fits radices (List.replicate radices.length .negative) := by
  induction radices with
  | nil => exact .nil
  | cons r radices ih =>
    have positive : 0 < r := by
      have valid := two_or_three r List.mem_cons_self
      omega
    exact .cons positive (ih fun r' member => two_or_three r' (List.mem_cons_of_mem r member))

/-- The digit that is raised lies in the assignment, and raising it and lowering all behind it adds
    one to the number; there is none in the last assignment. -/
private theorem raise?_spec {radices : List Nat} (two_or_three : ∀ r ∈ radices, r = 2 ∨ r = 3) {states : List Charge}
    (fits : Fits radices states) :
    match raise? radices states with
    | none => number radices states + 1 = radices.prod
    | some (site, state) => site < states.length ∧ Fits radices (wrap states (some (site, state))) ∧
        number radices (wrap states (some (site, state))) = number radices states + 1 := by
  induction fits with
  | nil => simp [raise?, number]
  | @cons r state radices states below fits ih =>
    have valid := two_or_three r List.mem_cons_self
    have later : ∀ r ∈ radices, r = 2 ∨ r = 3 := fun r' member => two_or_three r' (List.mem_cons_of_mem r member)
    have behind := ih later
    rw [raise?]
    cases found : raise? radices states with
    | some raised =>
      obtain ⟨site, next⟩ := raised
      simp only [found] at behind
      obtain ⟨inside, nextFits, counted⟩ := behind
      simp only [wrap, List.take_succ_cons, List.drop_succ_cons, List.cons_append] at nextFits counted ⊢
      refine ⟨Nat.succ_lt_succ inside, .cons below nextFits, ?_⟩
      rw [number, number, counted, Nat.add_assoc]
    | none =>
      simp only [found] at behind
      -- All digits behind are the last ones, so what they are worth is what raising this one adds.
      by_cases room : state.digit + 1 < r
      · have three : state.digit + 1 < 3 := by omega
        obtain ⟨next, digits, counted⟩ := Charge.ofDigit?_succ three
        have lowered := fits_negative later
        rw [fits.length_eq] at lowered
        simp only [if_pos room, digits, Option.map_some, wrap, List.take_zero, List.nil_append, Nat.zero_add,
          List.drop_one, List.tail_cons, List.map_const', number, number_replicate, counted]
        refine ⟨Nat.zero_lt_succ _, .cons (by omega) lowered, ?_⟩
        rw [Nat.add_mul, Nat.one_mul]
        omega
      · have last : state.digit + 1 = r := by omega
        rw [if_neg room]
        simp only [number, List.prod_cons, ← last, Nat.add_mul, Nat.one_mul]
        omega

/-- The digit that is raised is one of the assignment, whether the assignment fits or not. -/
theorem raise?_lt {radices : List Nat} {states : List Charge} {site : Nat} {state : Charge}
    (raised : raise? radices states = some (site, state)) : site < states.length := by
  fun_induction raise? radices states generalizing site state with
  | case1 r radices head states later next behind ih =>
    cases raised
    exact Nat.succ_lt_succ (ih behind)
  | case2 r radices head states behind room ih =>
    obtain ⟨_, _, same⟩ := Option.map_eq_some_iff.mp raised
    cases same
    exact Nat.zero_lt_succ _
  | case3 | case4 => contradiction

theorem wrap_none (states : List Charge) : wrap states none = List.replicate states.length .negative := by
  rw [wrap, List.map_const']

/-- Stepping keeps the digits before the raised one. -/
theorem getElem?_wrap {states : List Charge} {site : Nat} (inside : site < states.length) (state : Charge) (i : Nat) :
    (wrap states (some (site, state)))[i]? =
      if i < site then states[i]? else if i = site then some state else states[i]?.map fun _ => .negative := by
  have length : (states.take site).length = site := List.length_take_of_le inside.le
  simp only [wrap, List.getElem?_append, length]
  rcases Nat.lt_trichotomy i site with less | same | more
  · simp [less]
  · simp [same]
  · obtain ⟨k, rfl⟩ := Nat.exists_eq_add_of_lt more
    have position : site + k + 1 - site = k + 1 := by omega
    have behind : site + 1 + k = site + k + 1 := by omega
    rw [if_neg (Nat.lt_asymm more), if_neg (Nat.lt_asymm more), if_neg (Nat.ne_of_gt more), position,
      List.getElem?_cons_succ, List.getElem?_map, List.getElem?_drop, behind]

theorem number_wrap {radices : List Nat} (two_or_three : ∀ r ∈ radices, r = 2 ∨ r = 3) {states : List Charge}
    (fits : Fits radices states) {site : Nat} {state : Charge} (raised : raise? radices states = some (site, state)) :
    site < states.length ∧ Fits radices (wrap states (some (site, state))) ∧
      number radices (wrap states (some (site, state))) = number radices states + 1 := by
  have spec := raise?_spec two_or_three fits
  rw [raised] at spec
  exact spec

theorem raise?_eq_none {radices : List Nat} (two_or_three : ∀ r ∈ radices, r = 2 ∨ r = 3) {states : List Charge}
    (fits : Fits radices states) : raise? radices states = none ↔ number radices states + 1 = radices.prod := by
  have spec := raise?_spec two_or_three fits
  cases raised : raise? radices states with
  | none =>
    rw [raised] at spec
    exact ⟨fun _ => spec, fun _ => rfl⟩
  | some next =>
    rw [raised] at spec
    obtain ⟨_, nextFits, counted⟩ := spec
    have inside := number_lt_prod nextFits
    simp only [reduceCtorEq, false_iff]
    omega

/-- Appending the digits of an assignment succeeds as long as a machine word holds the number. -/
theorem encodeFrom_eq {radices : List Nat} {states : List Charge} (fits : Fits radices states) (total site index : Nat)
    (small : index * radices.prod + number radices states < wordLimit) :
    encodeFrom total site index radices states = .ok (index * radices.prod + number radices states) := by
  induction fits generalizing site index with
  | nil => simp [encodeFrom, number]
  | @cons r state radices states below fits ih =>
    simp only [number, List.prod_cons] at small ⊢
    have positive : 0 < radices.prod := Nat.zero_lt_of_lt (number_lt_prod fits)
    have grouped : index * (r * radices.prod) + (state.digit * radices.prod + number radices states) =
        (index * r + state.digit) * radices.prod + number radices states := by ring
    rw [grouped] at small ⊢
    have held : index * r + state.digit ≤ (index * r + state.digit) * radices.prod := Nat.le_mul_of_pos_right _ positive
    rw [encodeFrom, if_neg (Nat.not_le.mpr below), if_pos ⟨by omega, by omega⟩]
    exact ih (site + 1) _ small

/-- The index of an assignment is its number. -/
theorem encode_eq (codec : Codec) {states : List Charge} (fits : Fits codec.radices states)
    (small : number codec.radices states < wordLimit) : codec.encode states = .ok (number codec.radices states) := by
  have length : codec.checkLength states.length = .ok () := if_pos fits.length_eq.symm
  have encoded := encodeFrom_eq fits codec.size 0 0 (by simpa using small)
  rw [encode, length]
  simpa [bind, Except.bind] using encoded

private theorem foldlM_product {radices : List Nat} (two_or_three : ∀ r ∈ radices, r = 2 ∨ r = 3) {product : Nat}
    (held : product < wordLimit) :
    radices.foldlM (fun product r => if product * r < wordLimit then some (product * r) else none) product =
      if product * radices.prod < wordLimit then some (product * radices.prod) else none := by
  induction radices generalizing product with
  | nil => simp [held]
  | cons r radices ih =>
    have later : ∀ r ∈ radices, r = 2 ∨ r = 3 := fun r' member => two_or_three r' (List.mem_cons_of_mem r member)
    have positive : 0 < radices.prod := by
      apply List.prod_pos
      intro r' member
      have valid := later r' member
      omega
    rw [List.foldlM_cons, List.prod_cons, ← Nat.mul_assoc]
    by_cases fits : product * r < wordLimit
    · rw [if_pos fits]
      exact ih later fits
    · have grown : product * r ≤ product * r * radices.prod := Nat.le_mul_of_pos_right _ positive
      rw [if_neg fits, if_neg (by omega)]
      rfl

/-- The number of assignments is the product of the radices, unless no machine word holds it. -/
theorem numConfigurations_eq (codec : Codec) :
    codec.numConfigurations =
      if codec.radices.prod < wordLimit then .ok codec.radices.prod else .error (.overflow codec.size) := by
  rw [numConfigurations, foldlM_product codec.two_or_three (by decide), Nat.one_mul]
  by_cases fits : codec.radices.prod < wordLimit
  · simp [fits]
  · simp [fits]

theorem fits_uniform_iff {sites base : Nat} {states : List Charge} :
    Fits (List.replicate sites base) states ↔ states.length = sites ∧ ∀ state ∈ states, state.digit < base := by
  induction sites generalizing states with
  | zero =>
    rw [Fits, List.replicate_zero, List.forall₂_nil_left_iff, List.length_eq_zero_iff]
    constructor
    · rintro rfl
      simp
    · exact And.left
  | succ sites ih =>
    cases states with
    | nil => simp [Fits, List.replicate_succ]
    | cons state states =>
      rw [Fits, List.replicate_succ, List.forall₂_cons]
      have tail : List.Forall₂ (fun r (state : Charge) => state.digit < r) (List.replicate sites base) states ↔ _ := ih
      rw [tail]
      simp only [List.length_cons, Nat.add_right_cancel_iff, List.forall_mem_cons]
      exact and_left_comm

theorem uniform_eq_ok {base : Nat} (valid : base = 2 ∨ base = 3) (sites : Nat) :
    ∃ codec, uniform sites base = .ok codec ∧ codec.radices = List.replicate sites base := by
  have radices : ∀ r ∈ List.replicate sites base, r = 2 ∨ r = 3 := by
    intro r member
    rw [List.eq_of_mem_replicate member]
    exact valid
  exact ⟨⟨_, radices⟩, dif_pos radices, rfl⟩

end Codec

end DanglingBond
