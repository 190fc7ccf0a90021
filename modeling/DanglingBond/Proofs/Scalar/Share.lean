import Mathlib
import DanglingBond.Proofs.Scalar.Exact

/-!
Shares of numbers. What a search relies on when it compares distances with a share of the widest one: numbers
that are finite can be compared, and a share of a number is not above it (`Scalar.LawfulShare`). None of it
says that a product is exact, so that rounded arithmetic can keep these laws as well. Going through a list
with an operation that picks the better of two ends at the best one (`foldl_pick_spec`).
-/

namespace DanglingBond

/-- Finite numbers compare, and a part of a number is not above it. -/
class Scalar.LawfulShare (K : Type) [Scalar K] : Prop where
  zero_finite : isFinite (0 : K) = true
  trans {a b c : K} : a ≤ b → b ≤ c → a ≤ c
  total {a b : K} : isFinite a = true → isFinite b = true → a ≤ b ∨ b ≤ a
  asymm {a b : K} : a < b → ¬ b < a
  share_le {alpha a : K} : 0 < alpha → alpha ≤ 1 → isFinite a = true → 0 ≤ a → alpha * a ≤ a
  /-- Numbers that compare as equal have shares that do. -/
  share_congr {alpha a b c : K} : 0 < alpha → alpha ≤ 1 → a ≤ b → b ≤ a → alpha * a ≤ c → alpha * b ≤ c

/-- A root is not negative, unless it is no number or none exists. -/
class Elementary.LawfulRoot (K : Type) [Elementary K] : Prop where
  sqrt_nonneg {a : K} : Scalar.isFinite (sqrt a) = true → 0 ≤ sqrt a

instance {K : Type} [ExactScalar K] : Scalar.LawfulShare K where
  zero_finite := rfl
  trans := le_trans
  total _ _ := le_total _ _
  asymm := not_lt_of_gt
  share_le _ part _ nonneg := mul_le_of_le_one_left nonneg part
  share_congr _ _ above below bound := le_antisymm above below ▸ bound

instance {K : Type} [ExactElementary K] : Elementary.LawfulRoot K where
  sqrt_nonneg _ := ExactElementary.sqrt_nonneg _

/-- What is picked again and again is one of the elements and at least as good as each of them. -/
theorem foldl_pick_spec {α : Type} {Good : α → Prop} (better : α → α → Prop) {pick : α → α → α}
    (trans : ∀ a b c, better a b → better b c → better a c)
    (picks : ∀ a b, Good a → Good b → (pick a b = a ∨ pick a b = b) ∧ better (pick a b) a ∧ better (pick a b) b)
    {first : α} {others : List α} (good : ∀ a ∈ first :: others, Good a) :
    others.foldl pick first ∈ first :: others ∧ ∀ a ∈ first :: others, better (others.foldl pick first) a := by
  induction others generalizing first with
  | nil =>
    obtain ⟨either, same, _⟩ := picks first first (good first List.mem_cons_self) (good first List.mem_cons_self)
    rw [or_self] at either
    rw [either] at same
    simpa using same
  | cons second others ih =>
    obtain ⟨first_good, second_good, rest_good⟩ : Good first ∧ Good second ∧ ∀ a ∈ others, Good a := by simpa using good
    obtain ⟨either, better_first, better_second⟩ := picks first second first_good second_good
    have kept : ∀ a ∈ pick first second :: others, Good a := by
      refine List.forall_mem_cons.mpr ⟨?_, rest_good⟩
      rcases either with same | same <;> rwa [same]
    obtain ⟨member, best⟩ := ih kept
    obtain ⟨better_pick, better_rest⟩ := List.forall_mem_cons.mp best
    rw [List.foldl_cons]
    constructor
    · rcases List.mem_cons.mp member with same | later
      · rw [same]
        rcases either with same | same <;> simp [same]
      · exact List.mem_cons_of_mem first (List.mem_cons_of_mem second later)
    · refine List.forall_mem_cons.mpr ⟨trans _ _ _ better_pick better_first, List.forall_mem_cons.mpr ⟨?_, better_rest⟩⟩
      exact trans _ _ _ better_pick better_second

namespace Scalar

variable {K : Type} [Scalar K] [LawfulShare K] {a b : K}

theorem le_self (finite : isFinite a = true) : a ≤ a := (or_self _).mp (LawfulShare.total finite finite)

/-- The smaller of two finite numbers is one of them and not above either. -/
theorem least_picks (first : isFinite a = true) (second : isFinite b = true) :
    (least a b = a ∨ least a b = b) ∧ least a b ≤ a ∧ least a b ≤ b := by
  unfold least
  by_cases below : a ≤ b
  · rw [if_pos below]
    exact ⟨.inl rfl, le_self first, below⟩
  · rw [if_neg below, if_pos (le_self second)]
    exact ⟨.inr rfl, (LawfulShare.total first second).resolve_left below, le_self second⟩

/-- The larger of two finite numbers is one of them and not below either. -/
theorem greatest_picks (first : isFinite a = true) (second : isFinite b = true) :
    (greatest a b = a ∨ greatest a b = b) ∧ a ≤ greatest a b ∧ b ≤ greatest a b := by
  unfold greatest
  by_cases below : b ≤ a
  · rw [if_pos below]
    exact ⟨.inl rfl, le_self first, below⟩
  · rw [if_neg below, if_pos (le_self second)]
    exact ⟨.inr rfl, (LawfulShare.total first second).resolve_right below, le_self second⟩

end Scalar

end DanglingBond
