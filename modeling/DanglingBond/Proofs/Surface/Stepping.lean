import Mathlib
import DanglingBond.Proofs.Charge.Index
import DanglingBond.Proofs.Surface.Cache

/-!
Stepping a surface through the charge indices. The charges after a step are those that the codec
asks for (`stepTo_states`), and over a reciprocal geometry the surface is the one that computing the
cache anew gives for them (`charged_stepTo`).
-/

namespace DanglingBond.Surface

section
variable {K : Type} [Scalar K] {g : Geometry K}

theorem set_charges (s : Surface g) (site : Fin g.size) (state : Charge) :
    (s.set site state).charges = s.charges.put site state := by
  unfold set
  by_cases same : s.charges[site] = state
  · rw [if_pos same, ← same, Vector.put_at]
  · rw [if_neg same]
    cases s.clean <;> rfl

private theorem foldl_set_charges (sites : List (Fin g.size)) (s : Surface g) (i : Fin g.size) :
    (sites.foldl (fun s site => s.set site .negative) s).charges[i] =
      if i ∈ sites then .negative else s.charges[i] := by
  induction sites generalizing s with
  | nil => simp
  | cons site sites ih =>
    rw [List.foldl_cons, ih, set_charges]
    by_cases later : i ∈ sites
    · simp [later]
    · by_cases same : i = site
      · simp [same]
      · simp [later, same]

theorem lowerFrom_charges (s : Surface g) (start : Nat) (i : Fin g.size) :
    (s.lowerFrom start).charges[i] = if start ≤ i.val then .negative else s.charges[i] := by
  rw [lowerFrom, foldl_set_charges]
  simp

theorem stepTo_some (s : Surface g) {site : Nat} (inside : site < g.size) (state : Charge) :
    s.stepTo (some (site, state)) = (s.lowerFrom (site + 1)).set ⟨site, inside⟩ state := by
  rw [stepTo, dif_pos inside]

/-- A step leaves the charges that the codec asks for. -/
theorem stepTo_states (s : Surface g) {site : Nat} (inside : site < g.size) (state : Charge) :
    (s.stepTo (some (site, state))).states = Codec.wrap s.states (some (site, state)) := by
  have length : site < s.states.length := by simpa [states] using inside
  rw [stepTo_some s inside]
  apply List.ext_getElem?
  intro i
  rw [Codec.getElem?_wrap length, states, states, set_charges]
  by_cases bound : i < g.size
  · have entry (charges : Vector Charge g.size) : charges.toList[i]? = some charges[(⟨i, bound⟩ : Fin g.size)] :=
      Vector.toList_at charges ⟨i, bound⟩
    rw [entry, entry, Vector.at_put, lowerFrom_charges]
    rcases Nat.lt_trichotomy i site with less | same | more
    · have before : ¬ site + 1 ≤ i := by omega
      simp [less, before, Nat.ne_of_lt less]
    · simp [same]
    · have behind : site + 1 ≤ i := by omega
      simp [behind, Nat.ne_of_gt more, Nat.lt_asymm more]
  · have outside : ¬ i < site := by omega
    have apart : i ≠ site := by omega
    simp [bound, outside, apart]

/-- A step past the last index leaves all charges negative. -/
theorem stepTo_none_states (s : Surface g) : (s.stepTo none).states = Codec.wrap s.states none := by
  have lowered : (s.stepTo none).charges = Vector.replicate g.size .negative := by
    apply Vector.ext_at
    intro i
    rw [stepTo, lowerFrom_charges, if_pos (Nat.zero_le _), Vector.at_replicate]
  rw [states, lowered, Vector.toList_replicate, Codec.wrap_none, states, Vector.length_toList]

theorem set_clean (s : Surface g) (site : Fin g.size) (state : Charge) : (s.set site state).clean = s.clean := by
  unfold set
  by_cases same : s.charges[site] = state
  · rw [if_pos same]
  · rw [if_neg same]
    by_cases clean : s.clean
    · rw [if_pos clean]
      rfl
    · rw [if_neg clean]

theorem lowerFrom_clean (s : Surface g) (start : Nat) : (s.lowerFrom start).clean = s.clean := by
  unfold lowerFrom
  induction (List.finRange g.size).filter (fun i => start ≤ i.val) generalizing s with
  | nil => rfl
  | cons site sites ih => rw [List.foldl_cons, ih, set_clean]

/-- A step leaves a clean surface clean and no other. -/
theorem stepTo_clean (s : Surface g) (raised : Option (Nat × Charge)) : (s.stepTo raised).clean = s.clean := by
  match raised with
  | none => exact lowerFrom_clean s 0
  | some (site, state) =>
    rw [stepTo]
    split
    · rw [set_clean, lowerFrom_clean]
    · exact lowerFrom_clean s (site + 1)

end

variable {K : Type} [ExactScalar K] {g : Geometry K}

/-- Lowering sites keeps the cache as it would be computed anew. -/
theorem charged_lowerFrom (reciprocal : g.Reciprocal) (start : Surface g) (charges : Vector Charge g.size) (first : Nat) :
    ∃ lowered, (start.charged charges).lowerFrom first = start.charged lowered := by
  unfold lowerFrom
  induction (List.finRange g.size).filter (fun i => first ≤ i.val) generalizing charges with
  | nil => exact ⟨charges, rfl⟩
  | cons site sites ih =>
    rw [List.foldl_cons, charged_set reciprocal]
    exact ih _

/-- A step keeps the cache as it would be computed anew. -/
theorem charged_stepTo (reciprocal : g.Reciprocal) (start : Surface g) (charges : Vector Charge g.size) {site : Nat}
    (inside : site < g.size) (state : Charge) :
    ∃ stepped, (start.charged charges).stepTo (some (site, state)) = start.charged stepped ∧
      stepped.toList = Codec.wrap charges.toList (some (site, state)) := by
  obtain ⟨lowered, equal⟩ := charged_lowerFrom reciprocal start charges (site + 1)
  have stepped : (start.charged charges).stepTo (some (site, state)) = start.charged (lowered.put ⟨site, inside⟩ state) := by
    rw [stepTo_some _ inside, equal]
    exact charged_set reciprocal start lowered ⟨site, inside⟩ state
  have states := stepTo_states (start.charged charges) inside state
  rw [stepped] at states
  exact ⟨_, stepped, states⟩

end DanglingBond.Surface
