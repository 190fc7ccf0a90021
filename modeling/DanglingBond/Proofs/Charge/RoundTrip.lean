import Mathlib
import DanglingBond.Proofs.Charge.Index

/-!
Indices and assignments, both ways. Taking a number apart, the last digit first, gives the assignment
that spells it (`digitsOf_spec`), so the indices that can be decoded are those below the product of
the radices (`decode_eq`). Putting an assignment together, the first digit first, succeeds exactly
when its digits fit and a machine word holds its number (`encode_eq_ok_iff`): an overflow on the way
is never made good later. Together they make the codec an order isomorphism.
-/

namespace DanglingBond

namespace Charge

theorem ofDigit?_of_lt {digit : Nat} (below : digit < 3) : ∃ state, ofDigit? digit = some state ∧ state.digit = digit := by
  match digit, below with
  | 0, _ => exact ⟨negative, rfl, rfl⟩
  | 1, _ => exact ⟨neutral, rfl, rfl⟩
  | 2, _ => exact ⟨positive, rfl, rfl⟩

theorem listLE_trans {first second third : List Charge} (before : listLE first second = true)
    (after : listLE second third = true) : listLE first third = true := by
  rw [listLE_eq_true_iff, not_lt] at before after ⊢
  exact before.trans after

theorem listLE_total (first second : List Charge) : (listLE first second || listLE second first) = true := by
  rw [Bool.or_eq_true, listLE_eq_true_iff, listLE_eq_true_iff, not_lt, not_lt]
  exact le_total _ _

theorem pairwise_mergeSort_listLE (assignments : List (List Charge)) :
    (assignments.mergeSort listLE).Pairwise fun first second => listLE first second = true := by
  apply List.pairwise_mergeSort
  · intro first second third before after
    exact listLE_trans before after
  · exact listLE_total

end Charge

namespace Codec

/-- The digits of an index fit the radices, and with what is left above them they spell the index. -/
theorem digitsOf_spec {radices : List Nat} (two_or_three : ∀ r ∈ radices, r = 2 ∨ r = 3) (index : Nat) :
    Fits radices (digitsOf index radices).1 ∧
      index = (digitsOf index radices).2 * radices.prod + number radices (digitsOf index radices).1 := by
  induction radices with
  | nil => exact ⟨.nil, by simp [digitsOf, number]⟩
  | cons r radices ih =>
    obtain ⟨fits, spelled⟩ := ih fun r' member => two_or_three r' (List.mem_cons_of_mem r member)
    have radix := two_or_three r List.mem_cons_self
    simp only [digitsOf]
    generalize digitsOf index radices = taken at fits spelled ⊢
    obtain ⟨states, rest⟩ := taken
    simp only at fits spelled ⊢
    have below : rest % r < r := Nat.mod_lt _ (by omega)
    have three : rest % r < 3 := by omega
    obtain ⟨state, found, digit⟩ := Charge.ofDigit?_of_lt three
    rw [found, Option.getD_some]
    refine ⟨.cons (by rw [digit]; exact below) fits, ?_⟩
    rw [number, digit, List.prod_cons, ← Nat.add_assoc, ← Nat.mul_assoc, ← Nat.add_mul, Nat.div_add_mod' rest r]
    exact spelled

/-- Nothing is left above the digits exactly where the index is below the product of the radices. -/
theorem digitsOf_rest_eq_zero_iff {radices : List Nat} (two_or_three : ∀ r ∈ radices, r = 2 ∨ r = 3) (index : Nat) :
    (digitsOf index radices).2 = 0 ↔ index < radices.prod := by
  obtain ⟨fits, spelled⟩ := digitsOf_spec two_or_three index
  have below := number_lt_prod fits
  constructor
  · intro nothing
    rw [nothing, Nat.zero_mul, Nat.zero_add] at spelled
    omega
  · intro small
    by_contra something
    have whole : radices.prod ≤ (digitsOf index radices).2 * radices.prod :=
      Nat.le_mul_of_pos_left _ (Nat.pos_of_ne_zero something)
    omega

/-- A buffer of the right length is overwritten with the digits of the index, in range or not. -/
theorem decodeInto_eq (codec : Codec) (index : Nat) {buffer : List Charge} (length : buffer.length = codec.size) :
    codec.decodeInto index buffer =
      (if index < codec.radices.prod then .ok () else .error (.outOfRange index codec.size),
        (digitsOf index codec.radices).1) := by
  have checked : codec.checkLength buffer.length = .ok () := if_pos length
  simp only [decodeInto, checked, digitsOf_rest_eq_zero_iff codec.two_or_three]

theorem decode_eq (codec : Codec) (index : Nat) :
    codec.decode index =
      if index < codec.radices.prod then .ok (digitsOf index codec.radices).1
      else .error (.outOfRange index codec.size) := by
  simp only [decode, codec.decodeInto_eq index (List.length_replicate (n := codec.size))]
  by_cases inside : index < codec.radices.prod
  · simp only [if_pos inside, Except.map]
  · simp only [if_neg inside, Except.map]

/-- What decodes to an assignment is its number. -/
theorem decode_eq_ok_iff (codec : Codec) {index : Nat} {states : List Charge} :
    codec.decode index = .ok states ↔ Fits codec.radices states ∧ number codec.radices states = index := by
  obtain ⟨fits, spelled⟩ := digitsOf_spec codec.two_or_three index
  rw [decode_eq]
  constructor
  · intro decoded
    by_cases inside : index < codec.radices.prod
    · rw [if_pos inside, Except.ok.injEq] at decoded
      rw [(digitsOf_rest_eq_zero_iff codec.two_or_three index).mpr inside, Nat.zero_mul, Nat.zero_add] at spelled
      exact decoded ▸ ⟨fits, spelled.symm⟩
    · rw [if_neg inside] at decoded
      contradiction
  · rintro ⟨otherFits, rfl⟩
    have inside := number_lt_prod otherFits
    rw [(digitsOf_rest_eq_zero_iff codec.two_or_three _).mpr inside, Nat.zero_mul, Nat.zero_add] at spelled
    rw [if_pos inside, number_injective fits otherFits spelled.symm]

/-- Whatever digits have been appended, the assignment fits and a machine word holds its number. -/
theorem encodeFrom_fits {radices : List Nat} {states : List Charge} (length : states.length = radices.length)
    {total site index result : Nat} (held : index < wordLimit)
    (encoded : encodeFrom total site index radices states = .ok result) :
    Fits radices states ∧ index * radices.prod + number radices states = result ∧ result < wordLimit := by
  induction radices generalizing states site index with
  | nil =>
    obtain rfl := List.length_eq_zero_iff.mp length
    simp only [encodeFrom, Except.ok.injEq] at encoded
    exact ⟨.nil, by simpa [number] using encoded, encoded ▸ held⟩
  | cons r radices ih =>
    obtain ⟨state, states, rfl⟩ := List.exists_cons_of_length_eq_add_one length
    rw [encodeFrom] at encoded
    by_cases below : state.digit < r
    · rw [if_neg (Nat.not_le.mpr below)] at encoded
      split at encoded
      · rename_i room
        obtain ⟨fits, spelled, small⟩ := ih (Nat.succ_injective length) room.2 encoded
        refine ⟨.cons below fits, ?_, small⟩
        rw [← spelled, number, List.prod_cons]
        ring
      · contradiction
    · rw [if_pos (Nat.not_lt.mp below)] at encoded
      contradiction

/-- An assignment has an index exactly when its digits fit and a machine word holds its number, which
    is the index. -/
theorem encode_eq_ok_iff (codec : Codec) {states : List Charge} {index : Nat} :
    codec.encode states = .ok index ↔
      Fits codec.radices states ∧ number codec.radices states = index ∧ index < wordLimit := by
  constructor
  · intro encoded
    have length : states.length = codec.size := by
      by_contra differs
      have refused : codec.checkLength states.length = .error (.lengthMismatch codec.size states.length) := if_neg differs
      rw [encode, refused] at encoded
      contradiction
    have checked : codec.checkLength states.length = .ok () := if_pos length
    rw [encode, checked] at encoded
    obtain ⟨fits, spelled, small⟩ := encodeFrom_fits length (by decide) encoded
    rw [Nat.zero_mul, Nat.zero_add] at spelled
    exact ⟨fits, spelled, small⟩
  · rintro ⟨fits, rfl, small⟩
    exact codec.encode_eq fits small

end Codec

/-- A codec is an order isomorphism between the indices below the product of its radices and the
    assignments that fit them, as far as machine words reach. An index at or beyond the product is
    refused as out of range, and so is an assignment with a digit at or beyond its radix or with a
    number beyond all machine words. Sorting assignments therefore sorts their indices. -/
theorem codec_order_isomorphism (codec : Codec) :
    (∀ index, (∃ states, codec.decode index = .ok states) ↔ index < codec.radices.prod) ∧
    (∀ index, codec.radices.prod ≤ index → codec.decode index = .error (.outOfRange index codec.size)) ∧
    (∀ states : List Charge, states.length = codec.size → ((∃ index, codec.encode states = .ok index) ↔
      List.Forall₂ (fun r (state : Charge) => state.digit < r) codec.radices states ∧
        Codec.number codec.radices states < wordLimit)) ∧
    (∀ index states, index < wordLimit → codec.decode index = .ok states → codec.encode states = .ok index) ∧
    (∀ states index, codec.encode states = .ok index → codec.decode index = .ok states) ∧
    (∀ states others i j, codec.encode states = .ok i → codec.encode others = .ok j →
      (states.map Charge.digit < others.map Charge.digit ↔ i < j)) ∧
    (∀ assignments : List (List Charge), (∀ states ∈ assignments, ∃ index, codec.encode states = .ok index) →
      (assignments.mergeSort Charge.listLE).Pairwise fun states others =>
        ∃ i j, codec.encode states = .ok i ∧ codec.encode others = .ok j ∧ i ≤ j) := by
  have ordered (states others : List Charge) (i j : Nat) (first : codec.encode states = .ok i)
      (second : codec.encode others = .ok j) : states.map Charge.digit < others.map Charge.digit ↔ i < j := by
    obtain ⟨fits, rfl, _⟩ := codec.encode_eq_ok_iff.mp first
    obtain ⟨otherFits, rfl, _⟩ := codec.encode_eq_ok_iff.mp second
    exact Codec.digits_lt_iff fits otherFits
  refine ⟨?_, ?_, ?_, ?_, ?_, ordered, ?_⟩
  · intro index
    rw [Codec.decode_eq]
    by_cases inside : index < codec.radices.prod
    · simp [inside]
    · simp [inside]
  · intro index beyond
    rw [Codec.decode_eq, if_neg (Nat.not_lt.mpr beyond)]
  · intro states _
    constructor
    · rintro ⟨index, encoded⟩
      obtain ⟨fits, rfl, small⟩ := codec.encode_eq_ok_iff.mp encoded
      exact ⟨fits, small⟩
    · rintro ⟨fits, small⟩
      exact ⟨_, codec.encode_eq fits small⟩
  · intro index states held decoded
    obtain ⟨fits, spelled⟩ := codec.decode_eq_ok_iff.mp decoded
    exact codec.encode_eq_ok_iff.mpr ⟨fits, spelled, held⟩
  · intro states index encoded
    obtain ⟨fits, spelled, _⟩ := codec.encode_eq_ok_iff.mp encoded
    exact codec.decode_eq_ok_iff.mpr ⟨fits, spelled⟩
  · intro assignments all
    refine (Charge.pairwise_mergeSort_listLE assignments).imp_of_mem ?_
    intro states others first second before
    obtain ⟨i, encoded⟩ := all states (List.mem_mergeSort.mp first)
    obtain ⟨j, otherEncoded⟩ := all others (List.mem_mergeSort.mp second)
    rw [Charge.listLE_eq_true_iff, ordered others states j i otherEncoded encoded, Nat.not_lt] at before
    exact ⟨i, j, encoded, otherEncoded, before⟩

/-- With forty-one digits of three values the numbers go beyond machine words: the last word still
    decodes and encodes back, while the last assignment has no index. -/
theorem codec_order_isomorphism_wide :
    ∃ codec : Codec, Codec.uniform 41 3 = .ok codec ∧
      (∃ states, codec.decode (wordLimit - 1) = .ok states ∧ codec.encode states = .ok (wordLimit - 1)) ∧
      ¬ ∃ index, codec.encode (List.replicate 41 .positive) = .ok index := by
  obtain ⟨codec, uniform, radices⟩ := Codec.uniform_eq_ok (.inr rfl : 3 = 2 ∨ 3 = 3) 41
  obtain ⟨decodable, _, encodable, back, _⟩ := codec_order_isomorphism codec
  refine ⟨codec, uniform, ?_, ?_⟩
  · obtain ⟨states, decoded⟩ := (decodable (wordLimit - 1)).mpr (by rw [radices]; decide +kernel)
    exact ⟨states, decoded, back _ _ (by decide) decoded⟩
  · rw [encodable _ (by rw [Codec.size, radices]; rfl), radices]
    rintro ⟨_, small⟩
    exact absurd small (by decide +kernel)

end DanglingBond
