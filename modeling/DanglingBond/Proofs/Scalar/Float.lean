import Mathlib
import DanglingBond.Proofs.Scalar.Share
import DanglingBond.Scalar.Float

/-!
The laws of shares for floats. Comparing two floats is comparing their places in a linear order, by sign, exponent
and mantissa (`place`). The product of a float and a part of one is at most the float before it is rounded, and
rounding does not take it above: what is shifted out of a mantissa raises it only if it was
below the bound (`AtMost`), and one bit too many is no more than the next exponent (`round_spec`). Such a number is
packed into bits and read back unchanged (`unpack_pack`).
-/

namespace DanglingBond.Unpacked

open Float (Model)
open Float.Model (Format UnpackedFloat totalExponent)
open Float.Model.UnpackedFloat

section Order

/-- Where a number stands in the order of all numbers. -/
def place : UnpackedFloat → Option (ℤ ×ₗ ℤ ×ₗ ℤ)
  | .notANumber => none
  | .infinity .negative => some (toLex (-2, toLex (0, 0)))
  | .finite .negative mantissa exponent _ => some (toLex (-1, toLex (-exponent, -mantissa)))
  | .zero _ => some (toLex (0, toLex (0, 0)))
  | .finite .positive mantissa exponent _ => some (toLex (1, toLex (exponent, mantissa)))
  | .infinity .positive => some (toLex (2, toLex (0, 0)))

theorem compare_neg (x y : ℤ) : compare (-x) (-y) = compare y x := by
  simp only [compare, compareOfLessAndEq, neg_lt_neg_iff, neg_inj, eq_comm]

theorem compare_natCast (m n : ℕ) : compare (m : ℤ) n = compare m n := by
  simp only [compare, compareOfLessAndEq, Nat.cast_lt, Nat.cast_inj]

/-- Numbers are compared by their places. -/
theorem compare_eq (x y : UnpackedFloat) : x.compare y = (place x).bind fun p => (place y).map fun q => compare p q := by
  -- Only where both are finite and of one sign is there more to compare than constructors.
  rcases x with ⟨_ | _⟩ | _ | _ | ⟨_ | _, m, e, _⟩ <;> rcases y with ⟨_ | _⟩ | _ | _ | ⟨_ | _, n, f, _⟩ <;> try rfl
  · have swapped : (compare e f).swap.then (compare m n).swap = (compare (-e) (-f)).then (compare (-m : ℤ) (-n)) := by
      rw [compare_neg, compare_neg, compare_natCast, ← Std.OrientedOrd.eq_swap, ← Std.OrientedOrd.eq_swap]
    exact congrArg some ((Ordering.swap_then _ _).trans swapped)
  · exact congrArg some (congrArg (compare e f).then (compare_natCast m n).symm)

theorem compare_eq_some_iff {x y : UnpackedFloat} {order : Ordering} :
    x.compare y = some order ↔ ∃ p q, place x = some p ∧ place y = some q ∧ compare p q = order := by
  simp only [compare_eq, Option.bind_eq_some_iff, Option.map_eq_some_iff, exists_and_left]

theorem exists_place {x : UnpackedFloat} (finite : x.isFinite = true) : ∃ p, place x = some p := by
  rcases x with ⟨_ | _⟩ | _ | s | ⟨_ | _, m, e, pos⟩
  all_goals first | contradiction | exact ⟨_, rfl⟩

/-- Numbers at one place are the same, except for the sign of zero. -/
theorem eq_or_zero {x y : UnpackedFloat} (number : x ≠ .notANumber) (same : place x = place y) :
    x = y ∨ (∃ s, x = .zero s) ∧ ∃ s, y = .zero s := by
  rcases x with ⟨_ | _⟩ | _ | _ | ⟨_ | _, m, e, _⟩ <;> rcases y with ⟨_ | _⟩ | _ | _ | ⟨_ | _, n, f, _⟩ <;>
    simp_all [place]

theorem cases_of_nonneg {x : UnpackedFloat} {p : ℤ ×ₗ ℤ ×ₗ ℤ} (placed : place x = some p)
    (nonneg : toLex (0, toLex (0, 0)) ≤ p) :
    (∃ s, x = .zero s) ∨ (∃ m e pos, x = .finite .positive m e pos) ∨ x = .infinity .positive := by
  rcases x with ⟨_ | _⟩ | _ | s | ⟨_ | _, m, e, pos⟩
  · obtain rfl := Option.some.inj placed
    exact absurd nonneg (by decide)
  · exact .inr (.inr rfl)
  · contradiction
  · exact .inl ⟨s, rfl⟩
  · obtain rfl := Option.some.inj placed
    simp [Prod.Lex.toLex_le_toLex] at nonneg
  · exact .inr (.inl ⟨m, e, pos, rfl⟩)

variable {a b c : Float}

theorem lt_iff : a < b ↔ ∃ p q, place a.toModel.unpack = some p ∧ place b.toModel.unpack = some q ∧ p < q := by
  have opened : a < b ↔ a.toModel.unpack.lt b.toModel.unpack = true := decide_eq_true_iff
  simp only [opened, UnpackedFloat.lt, beq_iff_eq, compare_eq_some_iff, compare_lt_iff_lt]

theorem le_iff : a ≤ b ↔ ∃ p q, place a.toModel.unpack = some p ∧ place b.toModel.unpack = some q ∧ p ≤ q := by
  have opened : a ≤ b ↔ a.toModel.unpack.le b.toModel.unpack = true := decide_eq_true_iff
  rw [opened, UnpackedFloat.le, Option.any_eq_true]
  simp only [compare_eq_some_iff, ← compare_le_iff_le, ne_eq, Ordering.ne_gt_iff_isLE]
  constructor
  · rintro ⟨_, ⟨p, q, first, second, rfl⟩, below⟩
    exact ⟨p, q, first, second, below⟩
  · rintro ⟨p, q, first, second, below⟩
    exact ⟨_, ⟨p, q, first, second, rfl⟩, below⟩

theorem le_congr (same : place a.toModel.unpack = place b.toModel.unpack) : a ≤ c ↔ b ≤ c := by
  rw [le_iff, le_iff, same]

theorem nonneg_unpacked (finite : a.isFinite = true) (nonneg : 0 ≤ a) :
    (∃ s, a.toModel.unpack = .zero s) ∨ ∃ m e pos, a.toModel.unpack = .finite .positive m e pos := by
  obtain ⟨_, p, zero, placed, above⟩ := le_iff.mp nonneg
  obtain rfl := Option.some.inj zero
  rcases cases_of_nonneg placed above with zero | number | infinite
  · exact .inl zero
  · exact .inr number
  · have finite : a.toModel.unpack.isFinite = true := finite
    rw [infinite] at finite
    contradiction

/-- A positive number that is at most one, which is `2 ^ 52 * 2 ^ -52`. -/
theorem part_unpacked (positive : 0 < a) (part : a ≤ 1) :
    ∃ m e pos, a.toModel.unpack = .finite .positive m e pos ∧ (e < -52 ∨ e = -52 ∧ m ≤ 2 ^ 52) := by
  have one : (1 : Float).toModel.unpack = .finite .positive (2 ^ 52) (-52) (by decide) := rfl
  obtain ⟨_, p, zero, placed, above⟩ := lt_iff.mp positive
  obtain rfl := Option.some.inj zero
  obtain ⟨p', q, again, last, below⟩ := le_iff.mp part
  obtain rfl : p = p' := Option.some.inj (placed.symm.trans again)
  obtain rfl := Option.some.inj ((congrArg place one).symm.trans last)
  rcases cases_of_nonneg placed above.le with ⟨s, shape⟩ | ⟨m, e, pos, shape⟩ | shape <;> rw [shape] at placed <;>
    obtain rfl := Option.some.inj placed
  · exact absurd above (lt_irrefl _)
  · refine ⟨m, e, pos, shape, ?_⟩
    rw [Prod.Lex.toLex_le_toLex, Prod.Lex.toLex_le_toLex] at below
    simpa using below
  · exact absurd below (by decide)

end Order

section Rounding

variable {m n k : ℕ} {e f : ℤ} {em : ExtendedMantissa}

/-- A mantissa has 53 bits, and fewer only at the least exponent. -/
structure Canonical (mantissa : ℕ) (exponent : ℤ) : Prop where
  bits : mantissa < 2 ^ 53
  least : -1074 ≤ exponent
  normal : -1074 < exponent → 2 ^ 52 ≤ mantissa

/-- The mantissa with all that was shifted out of it is at most `n`. -/
def AtMost (n : ℕ) (em : ExtendedMantissa) : Prop := em.mantissa < n ∨ em = ⟨n, false, false⟩

theorem AtMost.rounded (atMost : AtMost n em) : em.roundedMantissa ≤ n := by
  rcases atMost with less | rfl
  · rcases em with ⟨mantissa, _ | _, _ | _⟩ <;>
      simp only [ExtendedMantissa.roundedMantissa, ExtendedMantissa.accuracy, Accuracy.roundToNearestEven] at less ⊢ <;>
      omega
  · exact le_rfl

theorem AtMost.halved (atMost : AtMost (n * 2) em) : AtMost n em.shiftRightOne := by
  rcases atMost with less | rfl
  · exact .inl (Nat.div_lt_of_lt_mul (by omega))
  · refine .inr ?_
    simp [ExtendedMantissa.shiftRightOne]

theorem shiftRight_succ (em : ExtendedMantissa) (k : ℕ) : em >>> (k + 1) = (em >>> k).shiftRightOne := rfl

theorem AtMost.shifted (atMost : AtMost (n * 2 ^ k) em) : AtMost n (em >>> k) := by
  induction k generalizing n with
  | zero => exact mul_one n ▸ atMost
  | succ k ih =>
    rw [shiftRight_succ]
    refine AtMost.halved (ih ?_)
    rwa [mul_assoc, ← pow_succ']

theorem mantissa_shiftRight (em : ExtendedMantissa) (k : ℕ) : (em >>> k).mantissa = em.mantissa / 2 ^ k := by
  induction k with
  | zero => exact (Nat.div_one _).symm
  | succ k ih => rw [shiftRight_succ, ExtendedMantissa.shiftRightOne, ih, Nat.div_div_eq_div_mul, ← pow_succ]

theorem mantissa_le_rounded (em : ExtendedMantissa) : em.mantissa ≤ em.roundedMantissa := by
  rcases em with ⟨mantissa, _ | _, _ | _⟩ <;>
    simp [ExtendedMantissa.roundedMantissa, ExtendedMantissa.accuracy, Accuracy.roundToNearestEven]

/-- A mantissa without its last bits, rounded. -/
def rounded (m k : ℕ) : ℕ := ((⟨m, false, false⟩ : ExtendedMantissa) >>> k).roundedMantissa

theorem rounded_le (bound : m ≤ n * 2 ^ k) : rounded m k ≤ n := by
  refine (AtMost.shifted ?_).rounded
  rcases bound.lt_or_eq with less | rfl
  · exact .inl less
  · exact .inr rfl

theorem le_rounded (bound : n * 2 ^ k ≤ m) : n ≤ rounded m k := by
  refine le_trans ?_ (mantissa_le_rounded _)
  rw [mantissa_shiftRight]
  exact (Nat.le_div_iff_mul_le (by positivity)).mpr bound

/-- The exponent that a number is rounded to. -/
def target (m : ℕ) (e : ℤ) : ℤ := max (m.log2 + e - 52) (-1074)

theorem shiftToTargetExponent_eq (m : ℕ) (e : ℤ) :
    shiftToTargetExponent .binary64 m e .exact =
      ((⟨m, false, false⟩ : ExtendedMantissa) >>> (target m e - e).toNat, e + (target m e - e).toNat) := by
  have exponent : Format.binary64.targetExponent (totalExponent m e) = target m e := by
    simp only [Format.targetExponent, totalExponent, Format.mantissaBits, Format.minExponent, target]
    omega
  rw [shiftToTargetExponent, exponent]
  rfl

theorem log2_lt {b : ℕ} (some_bits : b ≠ 0) (bits : m < 2 ^ b) : m.log2 < b := by
  rcases Nat.eq_zero_or_pos m with rfl | pos
  · exact Nat.pos_of_ne_zero some_bits
  · exact (Nat.log2_lt pos.ne').mpr bits

theorem rounded_bits (enough : e ≤ target m e) : rounded m (target m e - e).toNat ≤ 2 ^ 53 := by
  refine rounded_le (Nat.lt_log2_self.le.trans ?_)
  rw [← pow_add]
  refine Nat.pow_le_pow_right (by decide) ?_
  have reached : m.log2 + e - 52 ≤ target m e := le_max_left _ _
  omega

theorem rounded_normal (pos : 0 < m) (enough : e ≤ target m e) (normal : -1074 < target m e) :
    2 ^ 52 ≤ rounded m (target m e - e).toNat := by
  refine le_rounded (le_trans ?_ (Nat.log2_self_le pos.ne'))
  rw [← pow_add]
  refine Nat.pow_le_pow_right (by decide) ?_
  unfold target at *
  omega

theorem target_le (canonical : Canonical n f) (below : e ≤ f) (bound : m ≤ n * 2 ^ (f - e).toNat) : target m e ≤ f := by
  have bits : m.log2 < 53 + (f - e).toNat := by
    refine log2_lt (by omega) (bound.trans_lt ?_)
    rw [pow_add]
    exact Nat.mul_lt_mul_of_pos_right canonical.bits (by positivity)
  refine max_le ?_ canonical.least
  omega

/-- After rounding there is at most one bit too many. -/
theorem shift_again {r : ℕ} {t : ℤ} (least : -1074 ≤ t) (bits : r ≤ 2 ^ 53) :
    r < 2 ^ 53 ∧ shiftToTargetExponent .binary64 r t .exact = (⟨r, false, false⟩, t) ∨
      r = 2 ^ 53 ∧ shiftToTargetExponent .binary64 r t .exact = (⟨2 ^ 52, false, false⟩, t + 1) := by
  rw [shiftToTargetExponent_eq]
  rcases bits.lt_or_eq with fits | rfl
  · have there : (target r t - t).toNat = 0 := by
      have few := log2_lt (by decide) fits
      unfold target
      omega
    rw [there]
    exact .inl ⟨fits, congrArg _ (add_zero t)⟩
  · have there : (target (2 ^ 53) t - t).toNat = 1 := by
      rw [target, Nat.log2_two_pow]
      omega
    rw [there]
    exact .inr ⟨rfl, rfl⟩

theorem roundWithAccuracy_eq {s : Sign} {r : ℕ} {t : ℤ} (enough : e ≤ target m e)
    (second : shiftToTargetExponent .binary64 (rounded m (target m e - e).toNat) (target m e) .exact =
      (⟨r, false, false⟩, t)) :
    roundWithAccuracy .binary64 s m e .exact = if h : r = 0 then .zero s else .finite s r t (Nat.pos_of_ne_zero h) := by
  have first : shiftToTargetExponent .binary64 m e .exact =
      ((⟨m, false, false⟩ : ExtendedMantissa) >>> (target m e - e).toNat, target m e) := by
    rw [shiftToTargetExponent_eq, Int.toNat_of_nonneg (Int.sub_nonneg_of_le enough), add_sub_cancel]
  rw [rounded] at second
  simp only [roundWithAccuracy, first, second]

/-- A number that is at most one of the format is rounded to one of the format that is at most that, if
    there are bits enough. -/
theorem round_spec {s : Sign} (canonical : Canonical n f) (pos : 0 < m) (enough : e ≤ target m e) (below : e ≤ f)
    (bound : m ≤ n * 2 ^ (f - e).toNat) :
    ∃ r t, Canonical r t ∧ (t < f ∨ t = f ∧ r ≤ n) ∧
      roundWithAccuracy .binary64 s m e .exact = if h : r = 0 then .zero s else .finite s r t (Nat.pos_of_ne_zero h) := by
  have least : -1074 ≤ target m e := le_max_right _ _
  have most := target_le canonical below bound
  have normal := rounded_normal pos enough
  have same (last : target m e = f) : rounded m (target m e - e).toNat ≤ n := by
    rw [last]
    exact rounded_le bound
  rcases shift_again least (rounded_bits enough) with ⟨fits, second⟩ | ⟨full, second⟩
  · exact ⟨_, _, ⟨fits, least, normal⟩, most.lt_or_eq.imp_right fun last => ⟨last, same last⟩,
      roundWithAccuracy_eq enough second⟩
  · -- The bound has no bit too many, so that there is an exponent left.
    have before : target m e < f := by
      refine most.lt_of_ne fun last => ?_
      have bits := canonical.bits
      have bounded := same last
      omega
    refine ⟨_, _, ⟨by decide, by omega, fun _ => le_rfl⟩, ?_, roundWithAccuracy_eq enough second⟩
    refine (Int.add_one_le_of_lt before).lt_or_eq.imp_right fun last => ⟨last, canonical.normal ?_⟩
    omega

theorem round_cases (s : Sign) (m : ℕ) (e : ℤ) (accuracy : Accuracy) :
    roundWithAccuracy .binary64 s m e accuracy = .zero s ∨
      ∃ r t pos, roundWithAccuracy .binary64 s m e accuracy = .finite s r t pos := by
  simp only [roundWithAccuracy]
  split
  · exact .inl rfl
  · rename_i some
    exact .inr ⟨_, _, Nat.pos_of_ne_zero some, rfl⟩

end Rounding

section Packing

variable {s : Sign} {m : ℕ} {e : ℤ} {pos : 0 < m}

theorem toNat_leading (mantissa : BitVec 52) : (1#1 ++ mantissa).toNat = 2 ^ 52 + mantissa.toNat :=
  (Nat.two_pow_add_eq_or_of_lt mantissa.isLt 1).symm

/-- A finite number that is read from bits is one of the format. -/
theorem unpack_canonical {model : Model} (unpacked : model.unpack = .finite s m e pos) : Canonical m e ∧ e ≤ 971 := by
  have bits : (@unpackMantissa .binary64 model.toBits.toBitVec).toNat < 2 ^ 52 := BitVec.isLt _
  have digits : (@unpackExponent .binary64 model.toBits.toBitVec).toNat < 2 ^ 11 := BitVec.isLt _
  have zeros : (0#11).toNat = 0 := rfl
  have ones : (-1#11).toNat = 2 ^ 11 - 1 := rfl
  simp only [Model.unpack, unpack, ← BitVec.toNat_inj, zeros, ones, Format.exponentBias] at unpacked
  split at unpacked
  · split at unpacked <;> contradiction
  · split at unpacked
    · rename_i least
      split at unpacked
      · contradiction
      · obtain ⟨rfl, rfl, rfl⟩ := UnpackedFloat.finite.inj unpacked
        simp only [least]
        refine ⟨⟨?_, ?_, ?_⟩, ?_⟩ <;> omega
    · obtain ⟨rfl, rfl, rfl⟩ := UnpackedFloat.finite.inj unpacked
      simp only [toNat_leading]
      refine ⟨⟨?_, ?_, ?_⟩, ?_⟩ <;> omega

theorem unpack_normal {exponent : ℕ} (pos : 0 < m) (fits : exponent < 2 ^ 11 - 1) (normal : 0 < exponent)
    (leading : 2 ^ 52 ≤ m) (bits : m < 2 ^ 53) :
    unpack .binary64 (packComponents .binary64 s (BitVec.ofNat 11 exponent) (BitVec.ofNat 52 m)) =
      .finite s m (exponent - 1075) pos := by
  have finite : BitVec.ofNat 11 exponent ≠ -1#11 := by
    have ones : (-1#11).toNat = 2 ^ 11 - 1 := rfl
    rw [ne_eq, ← BitVec.toNat_inj, BitVec.toNat_ofNat]
    omega
  have nonzero : BitVec.ofNat 11 exponent ≠ 0#11 := by
    rw [ne_eq, ← BitVec.toNat_inj, BitVec.toNat_ofNat, BitVec.toNat_ofNat]
    omega
  simp only [unpack, unpackExponent_packComponents, unpackMantissa_packComponents, unpackSign_packComponents,
    if_neg finite, if_neg nonzero, toNat_leading, Sign.ofBitVec_toBitVec, BitVec.toNat_ofNat]
  congr 1
  · omega
  · have bias : Format.exponentBias .binary64 = 1023 := rfl
    omega

theorem unpack_subnormal (pos : 0 < m) (bits : m < 2 ^ 52) :
    unpack .binary64 (packComponents .binary64 s 0#11 (BitVec.ofNat 52 m)) = .finite s m (-1074) pos := by
  have finite : 0#11 ≠ -1#11 := by decide
  have nonzero : BitVec.ofNat 52 m ≠ 0#52 := by
    rw [ne_eq, ← BitVec.toNat_inj, BitVec.toNat_ofNat, BitVec.toNat_ofNat]
    omega
  simp only [unpack, unpackExponent_packComponents, unpackMantissa_packComponents, unpackSign_packComponents,
    if_neg finite, dif_neg nonzero, if_pos, Sign.ofBitVec_toBitVec, BitVec.toNat_ofNat]
  congr 1
  omega

theorem pack_finite (most : e ≤ 971) : pack .binary64 (.finite s m e pos) =
    if m.log2 + 1 = 53 then packComponents .binary64 s (BitVec.ofNat 11 (e + 1023 + 52).toNat) (BitVec.ofNat 52 m)
    else packComponents .binary64 s 0#11 (BitVec.ofNat 52 m) := by
  have held : ¬ 2 ^ 11 ≤ (e + 1023 + 52).toNat + 1 := by omega
  exact if_neg held

/-- A number of the format is read back from its bits. -/
theorem unpack_pack (canonical : Canonical m e) (most : e ≤ 971) :
    unpack .binary64 (pack .binary64 (.finite s m e pos)) = .finite s m e pos := by
  obtain ⟨bits, least, normal⟩ := canonical
  rw [pack_finite most]
  by_cases leading : 2 ^ 52 ≤ m
  · have length : m.log2 = 52 := (Nat.log2_eq_iff pos.ne').mpr ⟨leading, bits⟩
    rw [if_pos (by omega), unpack_normal pos (by omega) (by omega) leading bits]
    congr 1
    omega
  · have length : m.log2 < 52 := log2_lt (by decide) (not_le.mp leading)
    rw [if_neg (by omega), unpack_subnormal pos (not_le.mp leading)]
    congr 1
    omega

theorem unpack_pack_zero : unpack .binary64 (pack .binary64 (.zero s)) = .zero s := unpack_packedZero

theorem pack_positive (m : ℕ) (e : ℤ) (pos : 0 < m) : ∃ exponent mantissa,
    pack .binary64 (.finite .positive m e pos) = packComponents .binary64 .positive exponent mantissa := by
  simp only [pack]
  split_ifs <;> exact ⟨_, _, rfl⟩

theorem place_positive (exponent : BitVec 11) (mantissa : BitVec 52) {p : ℤ ×ₗ ℤ ×ₗ ℤ}
    (placed : place (unpack .binary64 (packComponents .binary64 .positive exponent mantissa)) = some p) :
    toLex (0, toLex (0, 0)) ≤ p := by
  simp only [unpack, unpackExponent_packComponents, unpackMantissa_packComponents, unpackSign_packComponents,
    Sign.ofBitVec_toBitVec] at placed
  split_ifs at placed
  · obtain rfl := Option.some.inj placed
    decide
  · contradiction
  · obtain rfl := Option.some.inj placed
    exact le_rfl
  all_goals
    obtain rfl := Option.some.inj placed
    exact Prod.Lex.toLex_le_toLex.mpr (.inl one_pos)

end Packing

section Laws

variable {a b alpha : Float}

theorem unpack_mul (a b : Float) : (a * b).toModel.unpack =
    unpack .binary64 (pack .binary64 (mul .binary64 a.toModel.unpack b.toModel.unpack)) := rfl

/-- A part of zero is zero. -/
theorem mul_of_zero {m : ℕ} {e : ℤ} {pos : 0 < m} {s : Sign} (part : alpha.toModel.unpack = .finite .positive m e pos)
    (zero : a.toModel.unpack = .zero s) : place (alpha * a).toModel.unpack = some (toLex (0, toLex (0, 0))) := by
  rw [unpack_mul, part, zero]
  exact congrArg place unpack_pack_zero

/-- A product with a part of one has bits enough, for its exponent is the least one or the other mantissa
    has all its bits. -/
theorem mul_enough {m n : ℕ} {e f : ℤ} (canonical : Canonical n f) (pos : 0 < m) (negative : e ≤ 0) :
    e + f ≤ target (m * n) (e + f) := by
  by_cases low : e + f ≤ -1074
  · exact low.trans (le_max_right _ _)
  · have normal := canonical.normal (by omega)
    have bits : 52 ≤ (m * n).log2 :=
      (Nat.le_log2 (by positivity)).mpr (normal.trans (Nat.le_mul_of_pos_left n pos))
    refine le_trans ?_ (le_max_left _ _)
    omega

theorem part_bound {m : ℕ} {e : ℤ} (canonical : Canonical m e) (small : e < -52 ∨ e = -52 ∧ m ≤ 2 ^ 52) :
    m ≤ 2 ^ (-e).toNat := by
  rcases small with less | ⟨rfl, bound⟩
  · exact canonical.bits.le.trans (Nat.pow_le_pow_right (by decide) (by omega))
  · exact bound

/-- A part of a number is not above it. -/
theorem mul_le (positive : 0 < alpha) (part : alpha ≤ 1) (finite : a.isFinite = true) (nonneg : 0 ≤ a) : alpha * a ≤ a := by
  obtain ⟨m, e, pos, factor, small⟩ := part_unpacked positive part
  rcases nonneg_unpacked finite nonneg with ⟨s, zero⟩ | ⟨n, f, pos', number⟩
  · exact le_iff.mpr ⟨_, _, mul_of_zero factor zero, congrArg place zero, le_rfl⟩
  · have bound := part_bound (unpack_canonical factor).1 small
    obtain ⟨canonical, most⟩ := unpack_canonical number
    have exact : m * n ≤ n * 2 ^ (f - (e + f)).toNat := by
      rw [sub_add_cancel_right, mul_comm m n]
      exact Nat.mul_le_mul_left n bound
    obtain ⟨r, t, fits, below, result⟩ :=
      round_spec (s := .positive) canonical (Nat.mul_pos pos pos') (mul_enough canonical pos (by omega)) (by omega) exact
    have product : (alpha * a).toModel.unpack =
        unpack .binary64 (pack .binary64 (roundWithAccuracy .binary64 .positive (m * n) (e + f) .exact)) := by
      rw [unpack_mul, factor, number]
      rfl
    rw [result] at product
    split at product
    · rw [unpack_pack_zero] at product
      exact le_iff.mpr ⟨_, _, congrArg place product, congrArg place number, Prod.Lex.toLex_le_toLex.mpr (.inl one_pos)⟩
    · rw [unpack_pack fits (by omega)] at product
      refine le_iff.mpr ⟨_, _, congrArg place product, congrArg place number, ?_⟩
      simpa [Prod.Lex.toLex_le_toLex] using below

/-- Parts of numbers that compare as equal are at one place. -/
theorem mul_congr (positive : 0 < alpha) (part : alpha ≤ 1) (above : a ≤ b) (below : b ≤ a) :
    place (alpha * a).toModel.unpack = place (alpha * b).toModel.unpack := by
  obtain ⟨m, e, pos, factor, _⟩ := part_unpacked positive part
  obtain ⟨p, q, first, second, less⟩ := le_iff.mp above
  obtain ⟨q', p', again, last, more⟩ := le_iff.mp below
  obtain rfl : q = q' := Option.some.inj (second.symm.trans again)
  obtain rfl : p = p' := Option.some.inj (first.symm.trans last)
  obtain rfl := le_antisymm less more
  have number : a.toModel.unpack ≠ .notANumber := by
    intro none
    rw [none] at first
    contradiction
  rcases eq_or_zero number (first.trans second.symm) with same | ⟨⟨s, zero⟩, ⟨s', zero'⟩⟩
  · rw [unpack_mul, unpack_mul, same]
  · rw [mul_of_zero factor zero, mul_of_zero factor zero']

/-- A root is zero, or it is packed with a positive sign. -/
theorem sqrt_cases (x : UnpackedFloat) :
    (∃ s, sqrt .binary64 x = .zero s) ∨
      ∃ exponent mantissa, pack .binary64 (sqrt .binary64 x) = packComponents .binary64 .positive exponent mantissa := by
  rcases x with ⟨_ | _⟩ | _ | s | ⟨_ | _, m, e, pos⟩
  · exact .inr ⟨_, _, rfl⟩
  · exact .inr ⟨_, _, rfl⟩
  · exact .inr ⟨_, _, rfl⟩
  · exact .inl ⟨s, rfl⟩
  · exact .inr ⟨_, _, rfl⟩
  · have opened : sqrt .binary64 (.finite .positive m e pos) = roundWithAccuracy .binary64 .positive
        (sqrtCore .binary64 m e).1 (sqrtCore .binary64 m e).2.1 (sqrtCore .binary64 m e).2.2 := rfl
    rw [opened]
    rcases round_cases .positive (sqrtCore .binary64 m e).1 (sqrtCore .binary64 m e).2.1 (sqrtCore .binary64 m e).2.2 with
      zero | ⟨r, t, some, finite⟩
    · exact .inl ⟨_, zero⟩
    · exact .inr (finite ▸ pack_positive r t some)

theorem sqrt_nonneg (finite : (Float.sqrt a).isFinite = true) : 0 ≤ Float.sqrt a := by
  obtain ⟨p, placed⟩ := exists_place finite
  refine le_iff.mpr ⟨_, p, rfl, placed, ?_⟩
  have opened : (Float.sqrt a).toModel.unpack = unpack .binary64 (pack .binary64 (sqrt .binary64 a.toModel.unpack)) := rfl
  rw [opened] at placed
  rcases sqrt_cases a.toModel.unpack with ⟨s, zero⟩ | ⟨exponent, mantissa, positive⟩
  · rw [zero, unpack_pack_zero] at placed
    exact (Option.some.inj placed).le
  · rw [positive] at placed
    exact place_positive exponent mantissa placed

end Laws

end DanglingBond.Unpacked

namespace DanglingBond

instance : Scalar.LawfulShare Float where
  zero_finite := rfl
  trans first second := by
    obtain ⟨p, q, placed, middle, below⟩ := Unpacked.le_iff.mp first
    obtain ⟨q', r, again, last, above⟩ := Unpacked.le_iff.mp second
    obtain rfl : q = q' := Option.some.inj (middle.symm.trans again)
    exact Unpacked.le_iff.mpr ⟨p, r, placed, last, below.trans above⟩
  total first second := by
    obtain ⟨p, placed⟩ := Unpacked.exists_place first
    obtain ⟨q, last⟩ := Unpacked.exists_place second
    refine (le_total p q).imp (fun below => ?_) (fun above => ?_)
    · exact Unpacked.le_iff.mpr ⟨p, q, placed, last, below⟩
    · exact Unpacked.le_iff.mpr ⟨q, p, last, placed, above⟩
  asymm first second := by
    obtain ⟨p, q, placed, last, below⟩ := Unpacked.lt_iff.mp first
    obtain ⟨q', p', again, same, above⟩ := Unpacked.lt_iff.mp second
    obtain rfl : q = q' := Option.some.inj (last.symm.trans again)
    obtain rfl : p = p' := Option.some.inj (placed.symm.trans same)
    exact lt_asymm below above
  share_le := Unpacked.mul_le
  share_congr positive part above below := (Unpacked.le_congr (Unpacked.mul_congr positive part above below)).mp

instance : Elementary.LawfulRoot Float where
  sqrt_nonneg := Unpacked.sqrt_nonneg

end DanglingBond
