import Mathlib
import DanglingBond.Proofs.Charge.RoundTrip
import DanglingBond.Proofs.Surface.Cache
import DanglingBond.Surface.Operation

/-!
What a refused operation leaves behind. An operation that names no site of the surface, or charges of
another number of sites, leaves the surface as it was. Decoding an index is the exception: an index
beyond the last one is noticed only after its digits have been written over the charges, and neither
the cache nor the flag that vouches for it takes notice (`perform_refused`).
-/

namespace DanglingBond.Surface

section
variable {K : Type} {g : Geometry K}

private theorem settle_error {s after : Surface g} {result : Except (SurfaceError K) (Surface g)}
    {cause : SurfaceError K} (refused : s.settle result = (.error cause, after)) : after = s := by
  cases result with
  | ok settled => simp [settle] at refused
  | error other =>
    simp only [settle, Prod.mk.injEq] at refused
    exact refused.2.symm

variable [Scalar K]

/-- The surface with the digits of an index written over its charges and nothing else changed. -/
def overwritten (s : Surface g) (index : Nat) (codec : Codec) : Surface g :=
  { s with charges := Vector.ofFn fun i => (Codec.digitsOf index codec.radices).1.getD i.val .negative }

/-- Decoding is refused for a codec of another length, which changes nothing, and for an index beyond
    the last one, which has overwritten the charges by then. -/
theorem assignIndex_refused {s after : Surface g} {index : Nat} {codec : Codec} {cause : SurfaceError K}
    (refused : s.assignIndex index codec = (.error cause, after)) :
    (codec.size ≠ g.size ∧ cause = .codec (.lengthMismatch codec.size g.size) ∧ after = s) ∨
      (codec.size = g.size ∧ codec.radices.prod ≤ index ∧ cause = .codec (.outOfRange index g.size) ∧
        after = s.overwritten index codec) := by
  have states : s.states.length = g.size := Vector.length_toList
  by_cases length : codec.size = g.size
  · right
    rw [assignIndex, codec.decodeInto_eq index (states.trans length.symm)] at refused
    by_cases inside : index < codec.radices.prod
    · simp [inside] at refused
    · simp only [if_neg inside, Prod.mk.injEq, Except.error.injEq] at refused
      obtain ⟨rfl, rfl⟩ := refused
      exact ⟨length, Nat.le_of_not_lt inside, by rw [length], rfl⟩
  · left
    have unwritten : codec.decodeInto index s.states = (.error (.lengthMismatch codec.size g.size), s.states) := by
      have mismatch : codec.checkLength s.states.length = .error (.lengthMismatch codec.size g.size) := by
        rw [states]
        exact if_neg (Ne.symm length)
      simp only [Codec.decodeInto, mismatch]
    have same : (Vector.ofFn fun i : Fin g.size => s.states.getD i.val .negative) = s.charges := by
      apply Vector.ext_at
      intro i
      rw [Vector.at_ofFn, List.getD_eq_getElem?_getD, Surface.states, Vector.toList_at, Option.getD_some]
    rw [assignIndex, unwritten] at refused
    simp only [same, Prod.mk.injEq, Except.error.injEq] at refused
    obtain ⟨rfl, rfl⟩ := refused
    exact ⟨length, rfl, rfl⟩

end

variable {K : Type} [Scalar K] {g : Geometry K}

/-- A refused operation leaves the surface exactly as it was, unless it was to decode an index beyond
    the last one of a codec of the right length. That leaves other charges, and the potentials, the
    energy, the flag and the dependent site of before. -/
theorem perform_refused {s after : Surface g} {operation : Operation K} {cause : SurfaceError K}
    (refused : s.perform operation = (.error cause, after)) :
    after = s ∨ ∃ index codec, operation = .assignIndex index codec ∧ codec.size = g.size ∧
      codec.radices.prod ≤ index ∧ cause = .codec (.outOfRange index g.size) ∧ after = s.overwritten index codec := by
  cases operation with
  | assignIndex index codec =>
    rcases assignIndex_refused refused with ⟨_, _, same⟩ | ⟨length, beyond, outOfRange, written⟩
    · exact .inl same
    · exact .inr ⟨index, codec, rfl, length, beyond, outOfRange, written⟩
  | assign | assignAt | assignStates | set | increment | setDependent => exact .inl (settle_error refused)
  -- These are never refused.
  | assignAll | refresh | setMode | setChecker => simp [perform, settle] at refused

/-- Two binary digits reach up to three, and seven is refused. -/
def beyondPair : Operation ℚ := .assignIndex 7 ⟨[2, 2], by decide⟩

theorem perform_refused_pair :
    ∃ after, (ofGeometry Geometry.pair).perform beyondPair = (.error (.codec (.outOfRange 7 2)), after) ∧
      after = (ofGeometry Geometry.pair).overwritten 7 ⟨[2, 2], by decide⟩ := by
  have refused : (ofGeometry Geometry.pair).perform beyondPair =
      (.error (.codec (.outOfRange 7 2)), ((ofGeometry Geometry.pair).perform beyondPair).2) := rfl
  refine ⟨_, refused, ?_⟩
  rcases perform_refused refused with same | ⟨index, codec, asked, _, _, _, written⟩
  · have charges := congrArg Surface.charges same
    exact absurd charges (by decide +kernel)
  · cases asked
    exact written

/-- A refused operation can change a surface: of two negative sites both are neutral after it, and the
    surface still calls itself clean, though its cache is that of two negative sites. -/
theorem refused_index_overwrites :
    ∃ after, (ofGeometry Geometry.pair).perform beyondPair = (.error (.codec (.outOfRange 7 2)), after) ∧
      (ofGeometry Geometry.pair).states = [.negative, .negative] ∧ after.states = [.neutral, .neutral] ∧
      after.clean = true ∧ ¬ after.Accurate := by
  refine ⟨((ofGeometry Geometry.pair).perform beyondPair).2, rfl, by decide +kernel, by decide +kernel, rfl, ?_⟩
  intro accurate
  exact absurd (accurate.potential ⟨0, by decide⟩) (by decide +kernel)

end DanglingBond.Surface
