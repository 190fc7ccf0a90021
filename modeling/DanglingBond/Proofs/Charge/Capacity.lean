import Mathlib
import DanglingBond.Proofs.Charge.RoundTrip

/-!
How many assignments machine words can number. All of them have an index when there are at most as many as
there are words (`forall_encodes_iff`), and then the last word is an index as well. The largest index is found
by counting the assignments first, and their number has to be a word too (`maxIndex_eq`). The two conditions
differ for one product of radices only, and only sixty-four digits of two values have it
(`prod_eq_wordLimit_iff`).
-/

namespace DanglingBond

namespace Codec

theorem prod_pos (codec : Codec) : 0 < codec.radices.prod :=
  Nat.zero_lt_of_lt (number_lt_prod (fits_negative codec.two_or_three))

/-- There is an assignment that spells the last number. -/
theorem exists_last (codec : Codec) :
    ∃ states, Fits codec.radices states ∧ number codec.radices states = codec.radices.prod - 1 := by
  have inside : codec.radices.prod - 1 < codec.radices.prod := Nat.sub_lt codec.prod_pos Nat.one_pos
  have decoded := codec.decode_eq (codec.radices.prod - 1)
  rw [if_pos inside] at decoded
  exact ⟨_, codec.decode_eq_ok_iff.mp decoded⟩

/-- What fits but has no index is refused for the size of its number. -/
theorem encodeFrom_overflow {radices : List Nat} {states : List Charge} (fits : Fits radices states)
    (total site index : Nat) (held : index < wordLimit)
    (large : wordLimit ≤ index * radices.prod + number radices states) :
    encodeFrom total site index radices states = .error (.overflow total) := by
  induction fits generalizing site index with
  | nil =>
    simp only [List.prod_nil, Nat.mul_one, number, Nat.add_zero] at large
    exact absurd held (Nat.not_lt.mpr large)
  | @cons r state radices states below fits ih =>
    have grouped : index * (r :: radices).prod + number (r :: radices) (state :: states) =
        (index * r + state.digit) * radices.prod + number radices states := by
      rw [number, List.prod_cons]
      ring
    rw [grouped] at large
    rw [encodeFrom, if_neg (Nat.not_le.mpr below)]
    by_cases room : index * r < wordLimit ∧ index * r + state.digit < wordLimit
    · rw [if_pos room]
      exact ih (site + 1) _ room.2 large
    · rw [if_neg room]

theorem encode_overflow (codec : Codec) {states : List Charge} (fits : Fits codec.radices states)
    (large : wordLimit ≤ number codec.radices states) : codec.encode states = .error (.overflow codec.size) := by
  have length : codec.checkLength states.length = .ok () := if_pos fits.length_eq.symm
  rw [encode, length, Except.ok_bind]
  exact encodeFrom_overflow fits codec.size 0 0 (by decide) (by simpa using large)

/-- All assignments have an index where there are no more of them than machine words. -/
theorem forall_encodes_iff (codec : Codec) :
    (∀ states, Fits codec.radices states → ∃ index, codec.encode states = .ok index) ↔ codec.radices.prod ≤ wordLimit := by
  constructor
  · intro all
    obtain ⟨last, fits, spelled⟩ := codec.exists_last
    obtain ⟨index, encoded⟩ := all last fits
    obtain ⟨_, same, small⟩ := codec.encode_eq_ok_iff.mp encoded
    omega
  · intro few states fits
    exact ⟨_, codec.encode_eq fits ((number_lt_prod fits).trans_le few)⟩

/-- The largest index is found where the number of assignments is itself a machine word. -/
theorem maxIndex_eq (codec : Codec) :
    codec.maxIndex =
      if codec.radices.prod < wordLimit then .ok (codec.radices.prod - 1) else .error (.overflow codec.size) := by
  rw [maxIndex, numConfigurations_eq]
  by_cases fits : codec.radices.prod < wordLimit
  · rw [if_pos fits, if_pos fits]
    rfl
  · rw [if_neg fits, if_neg fits]
    rfl

theorem maxIndex_eq_ok_iff (codec : Codec) {index : Nat} :
    codec.maxIndex = .ok index ↔ codec.radices.prod < wordLimit ∧ codec.radices.prod - 1 = index := by
  rw [maxIndex_eq]
  by_cases few : codec.radices.prod < wordLimit
  · simp [few]
  · simp [few]

theorem maxIndex_eq_overflow_iff (codec : Codec) :
    codec.maxIndex = .error (.overflow codec.size) ↔ wordLimit ≤ codec.radices.prod := by
  rw [maxIndex_eq]
  by_cases few : codec.radices.prod < wordLimit
  · simp [few]
  · simp [few, Nat.le_of_not_lt few]

/-- No product with a factor of three is a power of two. -/
theorem prod_eq_wordLimit_iff (codec : Codec) : codec.radices.prod = wordLimit ↔ codec.radices = List.replicate 64 2 := by
  constructor
  · intro product
    have two : ∀ r ∈ codec.radices, r = 2 := by
      intro r member
      refine (codec.two_or_three r member).resolve_right fun three => ?_
      have divides : 3 ∣ wordLimit := three ▸ product ▸ List.dvd_prod member
      exact absurd divides (by decide)
    have uniform := List.eq_replicate_of_mem two
    rw [uniform, List.prod_replicate] at product
    rw [uniform, Nat.pow_right_injective le_rfl product]
  · intro uniform
    rw [uniform, List.prod_replicate]
    rfl

/-- The last number is the greatest index where all assignments have one. -/
theorem isGreatest_last (codec : Codec) (few : codec.radices.prod ≤ wordLimit) :
    IsGreatest {index | ∃ states, codec.encode states = .ok index} (codec.radices.prod - 1) := by
  constructor
  · obtain ⟨last, fits, spelled⟩ := codec.exists_last
    obtain ⟨index, encoded⟩ := codec.forall_encodes_iff.mpr few last fits
    obtain ⟨_, same, _⟩ := codec.encode_eq_ok_iff.mp encoded
    exact ⟨last, by rw [encoded, ← same, spelled]⟩
  · rintro index ⟨states, encoded⟩
    obtain ⟨fits, rfl, _⟩ := codec.encode_eq_ok_iff.mp encoded
    exact Nat.le_sub_one_of_lt (number_lt_prod fits)

end Codec

/-- A codec finds a largest index where all assignments that fit have one, and it is the greatest of them;
    it reports an overflow where some assignment has none. Sixty-four digits of two values are the one
    exception: all their assignments have an index, and an overflow is reported all the same. -/
theorem maxIndex_ok_iff_encodable (codec : Codec) :
    ((∃ index, codec.maxIndex = .ok index) ↔
      (∀ states, Codec.Fits codec.radices states → ∃ index, codec.encode states = .ok index) ∧
        codec.radices ≠ List.replicate 64 2) ∧
    (∀ index, codec.maxIndex = .ok index → IsGreatest {index | ∃ states, codec.encode states = .ok index} index) ∧
    (codec.maxIndex = .error (.overflow codec.size) ↔
      (∃ states, Codec.Fits codec.radices states ∧ ¬ ∃ index, codec.encode states = .ok index) ∨
        codec.radices = List.replicate 64 2) ∧
    (∀ states, Codec.Fits codec.radices states → (¬ ∃ index, codec.encode states = .ok index) →
      codec.encode states = .error (.overflow codec.size)) := by
  have exception := codec.prod_eq_wordLimit_iff
  have all := codec.forall_encodes_iff
  have fails : (∃ states, Codec.Fits codec.radices states ∧ ¬ ∃ index, codec.encode states = .ok index) ↔
      wordLimit < codec.radices.prod := by
    rw [← not_le, ← all]
    push Not
    rfl
  refine ⟨?_, ?_, ?_, ?_⟩
  · rw [all, Ne, ← exception, ← lt_iff_le_and_ne]
    simp only [codec.maxIndex_eq_ok_iff, exists_and_left, exists_eq', and_true]
  · intro index found
    obtain ⟨few, rfl⟩ := codec.maxIndex_eq_ok_iff.mp found
    exact codec.isGreatest_last few.le
  · rw [fails, ← exception, codec.maxIndex_eq_overflow_iff, eq_comm, ← le_iff_lt_or_eq]
  · intro states fits missing
    exact codec.encode_overflow fits (Nat.le_of_not_lt fun small => missing ⟨_, codec.encode_eq fits small⟩)

/-- With forty digits of three values the largest index is that of the last assignment. -/
theorem maxIndex_ok_iff_encodable_forty :
    ∃ codec : Codec, Codec.uniform 40 3 = .ok codec ∧ codec.maxIndex = .ok (3 ^ 40 - 1) ∧
      IsGreatest {index | ∃ states, codec.encode states = .ok index} (3 ^ 40 - 1) ∧
      ∃ index, codec.encode (List.replicate 40 .positive) = .ok index := by
  obtain ⟨codec, uniform, radices⟩ := Codec.uniform_eq_ok (.inr rfl : 3 = 2 ∨ 3 = 3) 40
  obtain ⟨found, greatest, _⟩ := maxIndex_ok_iff_encodable codec
  have last : codec.maxIndex = .ok (3 ^ 40 - 1) := by
    rw [codec.maxIndex_eq_ok_iff, radices, List.prod_replicate]
    decide
  have fits : Codec.Fits codec.radices (List.replicate 40 .positive) := by
    rw [radices]
    exact Codec.fits_uniform_iff.mpr ⟨rfl, fun state _ => state.digit_lt_three⟩
  exact ⟨codec, uniform, last, greatest _ last, (found.mp ⟨_, last⟩).1 _ fits⟩

/-- Sixty-four digits of two values number their assignments with all the words there are, and no largest
    index is found. -/
theorem last_word_not_found :
    ∃ codec : Codec, Codec.uniform 64 2 = .ok codec ∧ codec.maxIndex = .error (.overflow 64) ∧
      (∀ states, Codec.Fits codec.radices states → ∃ index, codec.encode states = .ok index) ∧
      codec.encode (List.replicate 64 .neutral) = .ok (wordLimit - 1) ∧
      IsGreatest {index | ∃ states, codec.encode states = .ok index} (wordLimit - 1) := by
  obtain ⟨codec, uniform, radices⟩ := Codec.uniform_eq_ok (.inl rfl : 2 = 2 ∨ 2 = 3) 64
  have product : codec.radices.prod = wordLimit := codec.prod_eq_wordLimit_iff.mpr radices
  have fits : Codec.Fits codec.radices (List.replicate 64 .neutral) := by
    rw [radices]
    refine Codec.fits_uniform_iff.mpr ⟨rfl, fun state member => ?_⟩
    rw [List.eq_of_mem_replicate member]
    decide
  have spelled : Codec.number codec.radices (List.replicate 64 .neutral) = wordLimit - 1 := by
    rw [radices]
    decide +kernel
  refine ⟨codec, uniform, ?_, codec.forall_encodes_iff.mpr product.le, ?_, product ▸ codec.isGreatest_last product.le⟩
  · have size : codec.size = 64 := by rw [Codec.size, radices, List.length_replicate]
    exact size ▸ codec.maxIndex_eq_overflow_iff.mpr product.ge
  · exact codec.encode_eq_ok_iff.mpr ⟨fits, spelled, by decide⟩

end DanglingBond
