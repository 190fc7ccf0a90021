import Mathlib
import DanglingBond.Proofs.Surface.Stepping
import DanglingBond.Surface.Operation

/-!
Stepping is the successor. A step from an assignment that fits its codec leads to the assignment of the
next number, or around to the all-negative one (`increment_spec`). So stepping from the all-negative
assignment lists each assignment once, in the order of the numbers, and stops by itself
(`visits_spec`). Numbers are unbounded here: this also holds where no machine word holds them. A
surface steps site by site and still makes the step of its codec (`increment?_eq`).
-/

namespace DanglingBond

namespace Codec

theorem increment_eq (codec : Codec) {states : List Charge} (length : states.length = codec.size) :
    codec.increment states =
      .ok ((raise? codec.radices states).isSome, wrap states (raise? codec.radices states)) := by
  have checked : codec.checkLength states.length = .ok () := if_pos length
  simp [increment, carry, checked, bind, Except.bind, pure, Except.pure]

/-- A step adds one to the number of an assignment. From the last assignment it goes around. -/
theorem increment_spec (codec : Codec) {states : List Charge} (fits : Fits codec.radices states) :
    (∃ next, codec.increment states = .ok (true, next) ∧ Fits codec.radices next ∧
      number codec.radices next = number codec.radices states + 1) ∨
    number codec.radices states + 1 = codec.radices.prod ∧
      codec.increment states = .ok (false, List.replicate codec.size .negative) := by
  have length : states.length = codec.size := fits.length_eq.symm
  rw [codec.increment_eq length]
  cases raised : raise? codec.radices states with
  | none => exact .inr ⟨(raise?_eq_none codec.two_or_three fits).mp raised, by rw [wrap_none, length]; rfl⟩
  | some digit =>
    obtain ⟨_, nextFits, counted⟩ := number_wrap codec.two_or_three fits raised
    exact .inl ⟨_, rfl, nextFits, counted⟩

/-- The assignments from one on, each a step from the one before, up to the step that goes around. No more
    than a given number of them is listed. -/
def visits (codec : Codec) : Nat → List Charge → Except CodecError (List (List Charge))
  | 0, _ => return []
  | room + 1, states => do
    let (more, next) ← codec.increment states
    if more then return states :: (← visits codec room next) else return [states]

/-- Where there is room for all, stepping ends with the last number and lists all numbers on the way to it. -/
theorem visits_spec (codec : Codec) (room : Nat) {states : List Charge} (fits : Fits codec.radices states)
    (enough : codec.radices.prod ≤ number codec.radices states + room) :
    ∃ visited, codec.visits room states = .ok visited ∧ (∀ listed ∈ visited, Fits codec.radices listed) ∧
      visited.map (number codec.radices) =
        List.range' (number codec.radices states) (codec.radices.prod - number codec.radices states) := by
  induction room generalizing states with
  | zero =>
    have inside := number_lt_prod fits
    omega
  | succ room ih =>
    rcases codec.increment_spec fits with ⟨next, stepped, nextFits, counted⟩ | ⟨last, around⟩
    · obtain ⟨visited, listed, allFit, numbers⟩ := ih nextFits (by omega)
      have inside := number_lt_prod nextFits
      have left : codec.radices.prod - number codec.radices states =
          codec.radices.prod - number codec.radices next + 1 := by omega
      refine ⟨states :: visited, ?_, List.forall_mem_cons.mpr ⟨fits, allFit⟩, ?_⟩
      · rw [visits, stepped, Except.ok_bind]
        simp [listed]
      · rw [List.map_cons, numbers, counted, left, counted, List.range'_succ]
    · refine ⟨[states], ?_, by simpa using fits, ?_⟩
      · rw [visits, around, Except.ok_bind]
        rfl
      · rw [← last, Nat.add_sub_cancel_left]
        rfl

/-- Whatever fits a codec is listed when stepping begins at the all-negative assignment, and only once. -/
theorem mem_visits_iff (codec : Codec) {visited : List (List Charge)}
    (fits : ∀ listed ∈ visited, Fits codec.radices listed)
    (numbers : visited.map (number codec.radices) = List.range codec.radices.prod) (states : List Charge) :
    states ∈ visited ↔ Fits codec.radices states := by
  refine ⟨fits states, fun stateFits => ?_⟩
  have counted : number codec.radices states ∈ visited.map (number codec.radices) := by
    rw [numbers]
    exact List.mem_range.mpr (number_lt_prod stateFits)
  obtain ⟨listed, member, same⟩ := List.mem_map.mp counted
  rwa [← number_injective (fits listed member) stateFits same]

end Codec

/-- A surface makes the step of its codec, whatever its charges are, and is refused for the same reason. -/
theorem Surface.increment?_eq {K : Type} [Scalar K] {g : Geometry K} (s : Surface g) (codec : Codec) :
    (s.increment? codec).map (fun step => (step.1, step.2.states, step.2.clean)) =
      ((codec.increment s.states).mapError .codec).map fun step => (step.1, step.2, s.clean) := by
  by_cases length : s.states.length = codec.size
  · have carried : codec.carry s.states = .ok (Codec.raise? codec.radices s.states) := by
      have checked : codec.checkLength s.states.length = .ok () := if_pos length
      rw [Codec.carry, checked]
      rfl
    have wrapped : (s.stepTo (Codec.raise? codec.radices s.states)).states =
        Codec.wrap s.states (Codec.raise? codec.radices s.states) := by
      cases raised : Codec.raise? codec.radices s.states with
      | none => exact s.stepTo_none_states
      | some digit =>
        have inside : digit.1 < g.size := by simpa [states] using Codec.raise?_lt raised
        exact s.stepTo_states inside digit.2
    rw [codec.increment_eq length, increment?, carried]
    simp only [Except.map, Except.mapError, wrapped, stepTo_clean]
  · have refused : codec.checkLength s.states.length = .error (.lengthMismatch codec.size s.states.length) := if_neg length
    rw [Codec.increment, increment?, Codec.carry, refused]
    rfl

/-- A step is the successor of mixed-radix numbers: it adds one to the number of an assignment that fits, and
    from the last number it goes around to the all-negative assignment and says so. Steps from there therefore
    visit every assignment that fits exactly once, in the order of the numbers, before one goes around. A step
    of a surface reports the same, leaves the same charges and is refused for the same reason as that of the
    codec on its charges, whether they fit or not, and it keeps a clean surface clean and a stale one stale. -/
theorem increment_successor (codec : Codec) :
    (∀ states, Codec.Fits codec.radices states →
      (Codec.number codec.radices states + 1 < codec.radices.prod →
        ∃ next, codec.increment states = .ok (true, next) ∧ Codec.Fits codec.radices next ∧
          Codec.number codec.radices next = Codec.number codec.radices states + 1) ∧
      (Codec.number codec.radices states + 1 = codec.radices.prod →
        codec.increment states = .ok (false, List.replicate codec.size .negative))) ∧
    (∀ room, codec.radices.prod ≤ room →
      ∃ visited, codec.visits room (List.replicate codec.size .negative) = .ok visited ∧
        visited.map (Codec.number codec.radices) = List.range codec.radices.prod ∧ visited.Nodup ∧
        ∀ states, states ∈ visited ↔ Codec.Fits codec.radices states) ∧
    ∀ {K : Type} [Scalar K] {g : Geometry K} (s : Surface g),
      (s.increment? codec).map (fun step => (step.1, step.2.states, step.2.clean)) =
        ((codec.increment s.states).mapError .codec).map fun step => (step.1, step.2, s.clean) := by
  refine ⟨fun states fits => ⟨fun more => ?_, fun last => ?_⟩, fun room enough => ?_, fun s => s.increment?_eq codec⟩
  · rcases codec.increment_spec fits with stepped | ⟨last, _⟩
    · exact stepped
    · omega
  · rcases codec.increment_spec fits with ⟨next, _, nextFits, counted⟩ | ⟨_, around⟩
    · have inside := Codec.number_lt_prod nextFits
      omega
    · exact around
  · have fits : Codec.Fits codec.radices (List.replicate codec.size .negative) := Codec.fits_negative codec.two_or_three
    have first := Codec.number_replicate codec.radices codec.size
    obtain ⟨visited, listed, allFit, numbers⟩ := codec.visits_spec room fits (by omega)
    rw [first, Nat.sub_zero, ← List.range_eq_range'] at numbers
    refine ⟨visited, listed, numbers, ?_, codec.mem_visits_iff allFit numbers⟩
    apply List.Nodup.of_map (Codec.number codec.radices)
    rw [numbers]
    exact List.nodup_range

/-- With forty-one digits of three values most assignments have no index. The step to the last of them is made
    all the same, and the one from there goes around. -/
theorem increment_successor_wide :
    ∃ codec : Codec, Codec.uniform 41 3 = .ok codec ∧ wordLimit < codec.radices.prod ∧
      codec.increment (List.replicate 41 .positive) = .ok (false, List.replicate codec.size .negative) ∧
      ∃ next, codec.increment (List.replicate 40 .positive ++ [.neutral]) = .ok (true, next) ∧
        Codec.number codec.radices next + 1 = codec.radices.prod := by
  obtain ⟨codec, uniform, radices⟩ := Codec.uniform_eq_ok (.inr rfl : 3 = 2 ∨ 3 = 3) 41
  obtain ⟨steps, _⟩ := increment_successor codec
  have beforeLast : Codec.number codec.radices (List.replicate 40 .positive ++ [.neutral]) + 2 = codec.radices.prod := by
    rw [radices]
    decide +kernel
  have last : Codec.number codec.radices (List.replicate 41 .positive) + 1 = codec.radices.prod := by
    rw [radices]
    decide +kernel
  have fits {states : List Charge} (length : states.length = 41) : Codec.Fits codec.radices states := by
    rw [radices]
    exact Codec.fits_uniform_iff.mpr ⟨length, fun state _ => state.digit_lt_three⟩
  obtain ⟨next, stepped, _, counted⟩ := (steps _ (fits rfl)).1 (by rw [← beforeLast]; exact Nat.lt_succ_self _)
  refine ⟨codec, uniform, ?_, (steps _ (fits rfl)).2 last, next, stepped, by rw [counted, ← beforeLast]⟩
  rw [radices]
  decide +kernel

end DanglingBond
