import Mathlib
import DanglingBond.Proofs.Surface.Cache
import DanglingBond.Search.Descent

/-!
Placements and what they induce. A placement agrees with an assignment when it gives its sites the
same charges (`Placement.Agrees`). The potentials that a descent carries along are those that its
placements induce (`enter_induced`), leaving a branch takes back what entering it added
(`leave_induced`), and the placement of all sites induces the local potentials of a surface
(`potentialOf_eq_induced`).
-/

namespace DanglingBond

namespace Placement

section
variable {K : Type} {g : Geometry K}

def sites (placement : Placement g) : List (Fin g.size) := placement.map Prod.fst

/-- The charges of an assignment at some sites. -/
def restrict (charges : Vector Charge g.size) (sites : List (Fin g.size)) : Placement g :=
  sites.map fun site => (site, charges[site])

/-- The assignment gives the sites the charges that they take in the placement. -/
def Agrees (charges : Vector Charge g.size) (placement : Placement g) : Prop :=
  ∀ entry ∈ placement, charges[entry.1] = entry.2

theorem sites_append (first second : Placement g) :
    Placement.sites (first ++ second) = first.sites ++ second.sites := List.map_append

theorem restrict_append (charges : Vector Charge g.size) (sites later : List (Fin g.size)) :
    restrict charges (sites ++ later) = restrict charges sites ++ restrict charges later :=
  List.map_append

theorem restrict_cons (charges : Vector Charge g.size) (site : Fin g.size) (sites : List (Fin g.size)) :
    restrict charges (site :: sites) = (site, charges[site]) :: restrict charges sites := rfl

@[simp] theorem sites_restrict (charges : Vector Charge g.size) (sites : List (Fin g.size)) :
    Placement.sites (restrict charges sites) = sites := by
  simp [Placement.sites, restrict, Function.comp_def]

theorem restrict_agrees (charges : Vector Charge g.size) (sites : List (Fin g.size)) :
    Agrees charges (restrict charges sites) := by
  intro entry member
  obtain ⟨site, _, rfl⟩ := List.mem_map.mp member
  rfl

theorem agrees_nil (charges : Vector Charge g.size) : Agrees charges [] :=
  fun _ inside => absurd inside List.not_mem_nil

theorem agrees_cons {charges : Vector Charge g.size} {entry : Fin g.size × Charge} {placement : Placement g} :
    Agrees charges (entry :: placement) ↔ charges[entry.1] = entry.2 ∧ Agrees charges placement :=
  List.forall_mem_cons

theorem agrees_append {charges : Vector Charge g.size} {first second : Placement g} :
    Agrees charges (first ++ second) ↔ Agrees charges first ∧ Agrees charges second :=
  List.forall_mem_append

/-- A placement is known from its sites and any assignment that it agrees with. -/
theorem Agrees.eq_restrict {charges : Vector Charge g.size} {placement : Placement g}
    (agrees : Agrees charges placement) : placement = restrict charges placement.sites := by
  induction placement with
  | nil => rfl
  | cons entry placement ih =>
    obtain ⟨head, tail⟩ := agrees_cons.mp agrees
    have expanded : restrict charges (Placement.sites (entry :: placement)) =
        (entry.1, charges[entry.1]) :: restrict charges (Placement.sites placement) := restrict_cons _ _ _
    rw [expanded, head, ← ih tail]

theorem placeAll_cons (node : PartialAssignment g) (entry : Fin g.size × Charge) (placement : Placement g) :
    node.placeAll (entry :: placement) = (node.place entry.1 entry.2).placeAll placement := rfl

theorem placeAll_append (node : PartialAssignment g) (first second : Placement g) :
    node.placeAll (first ++ second) = (node.placeAll first).placeAll second :=
  List.foldl_append

theorem assigned_placeAll (node : PartialAssignment g) (placement : Placement g) :
    (node.placeAll placement).assigned = node.assigned ++ placement.sites := by
  induction placement generalizing node with
  | nil => simp [PartialAssignment.placeAll, Placement.sites]
  | cons entry placement ih =>
    rw [placeAll_cons, ih]
    simp [PartialAssignment.place, Placement.sites]

theorem charges_placeAll_of_notMem (node : PartialAssignment g) {placement : Placement g} {site : Fin g.size}
    (absent : site ∉ placement.sites) : (node.placeAll placement).charges[site] = node.charges[site] := by
  induction placement generalizing node with
  | nil => rfl
  | cons entry placement ih =>
    obtain ⟨apart, absent⟩ := not_or.mp (mt List.mem_cons.mpr absent)
    rw [placeAll_cons, ih _ absent]
    simp [PartialAssignment.place, apart]

/-- What holds of the charges before and of the placed ones holds of the charges after. -/
theorem charges_placeAll_forall (holds : Charge → Prop) (node : PartialAssignment g) {placement : Placement g}
    (before : ∀ i : Fin g.size, holds node.charges[i]) (placed : ∀ entry ∈ placement, holds entry.2) (i : Fin g.size) :
    holds (node.placeAll placement).charges[i] := by
  induction placement generalizing node with
  | nil => exact before i
  | cons entry placement ih =>
    refine ih (node.place entry.1 entry.2) ?_ fun other later => placed other (List.mem_cons_of_mem entry later)
    intro j
    by_cases same : j = entry.1
    · simpa [PartialAssignment.place, same] using placed entry List.mem_cons_self
    · simpa [PartialAssignment.place, same] using before j

theorem charges_placeAll_of_agrees {charges : Vector Charge g.size} (node : PartialAssignment g)
    {placement : Placement g} (agrees : Agrees charges placement) {site : Fin g.size} (member : site ∈ placement.sites) :
    (node.placeAll placement).charges[site] = charges[site] := by
  induction placement generalizing node with
  | nil => contradiction
  | cons entry placement ih =>
    obtain ⟨head, tail⟩ := agrees_cons.mp agrees
    rw [placeAll_cons]
    by_cases later : site ∈ Placement.sites placement
    · exact ih _ tail later
    · rcases List.mem_cons.mp member with same | inside
      · rw [charges_placeAll_of_notMem _ later, same, head]
        simp [PartialAssignment.place]
      · exact absurd inside later

/-- Placed at different sites, all charges stay as they were placed. -/
theorem placeAll_agrees (node : PartialAssignment g) {placement : Placement g} (distinct : placement.sites.Nodup) :
    Agrees (node.placeAll placement).charges placement := by
  induction placement generalizing node with
  | nil => exact agrees_nil _
  | cons entry placement ih =>
    obtain ⟨absent, distinct⟩ := List.nodup_cons.mp distinct
    rw [placeAll_cons]
    refine agrees_cons.mpr ⟨?_, ih _ distinct⟩
    rw [charges_placeAll_of_notMem _ absent]
    simp [PartialAssignment.place]

/-- The charges below a history and a choice. -/
def leaf (history choice : Placement g) : Vector Charge g.size :=
  (PartialAssignment.empty.placeAll (history ++ choice)).charges

theorem leaf_restrict {history : Placement g} {later : List (Fin g.size)} {charges : Vector Charge g.size}
    (agrees : Agrees charges history) {i : Fin g.size} (placed : i ∈ history.sites ++ later) :
    (leaf history (restrict charges later))[i] = charges[i] := by
  apply charges_placeAll_of_agrees _ (agrees_append.mpr ⟨agrees, restrict_agrees charges later⟩)
  rw [sites_append, sites_restrict]
  exact placed

end

variable {K : Type} [ExactScalar K] {g : Geometry K}

/-- The potential at a site that the placed charges induce. -/
def induced (placement : Placement g) (i : Fin g.size) : K :=
  (placement.map fun entry => g.potential i entry.1 * (entry.2.value : K)).sum

theorem induced_cons (entry : Fin g.size × Charge) (placement : Placement g) (i : Fin g.size) :
    induced (entry :: placement) i = g.potential i entry.1 * (entry.2.value : K) + induced placement i :=
  List.sum_cons

theorem induced_append (first second : Placement g) (i : Fin g.size) :
    induced (first ++ second) i = induced first i + induced second i := by
  simp [induced]

/-- The charges of all sites induce the local potentials, in whatever order they are placed. -/
theorem potentialOf_eq_induced {sites : List (Fin g.size)} (all : sites.Perm (List.finRange g.size))
    (charges : Vector Charge g.size) (i : Fin g.size) :
    Surface.potentialOf g charges i = induced (restrict charges sites) i := by
  have ordered : Surface.potentialOf g charges i =
      ((List.finRange g.size).map fun j => g.potential i j * (charges[j].value : K)).sum := by
    rw [Surface.potentialOf_eq, Fin.sum_univ_def]
  rw [ordered, induced, restrict, List.map_map]
  exact ((all.map _).sum_eq).symm

end Placement

namespace Progress

variable {K : Type} [ExactScalar K] {g : Geometry K}

private theorem foldl_add (placement : Placement g) (carried : Vector K g.size) (i : Fin g.size) :
    (placement.foldl enter.add carried)[i] = carried[i] + Placement.induced placement i := by
  induction placement generalizing carried with
  | nil => simp [Placement.induced]
  | cons entry placement ih =>
    have step : (enter.add carried entry)[i] = carried[i] + g.potential i entry.1 * (entry.2.value : K) := by
      obtain ⟨site, state⟩ := entry
      cases state <;> simp [enter.add]
    rw [List.foldl_cons, ih, step, Placement.induced_cons, add_assoc]

private theorem foldl_subtract (placement : Placement g) (carried : Vector K g.size) (i : Fin g.size) :
    (placement.foldl leave.subtract carried)[i] = carried[i] - Placement.induced placement i := by
  induction placement generalizing carried with
  | nil => simp [Placement.induced]
  | cons entry placement ih =>
    have step : (leave.subtract carried entry)[i] = carried[i] - g.potential i entry.1 * (entry.2.value : K) := by
      obtain ⟨site, state⟩ := entry
      cases state <;> simp [leave.subtract]
    rw [List.foldl_cons, ih, step, Placement.induced_cons, sub_sub]

theorem enter_induced (progress : Progress g) (placement : Placement g) (i : Fin g.size) :
    (progress.enter placement).induced[i] = progress.induced[i] + Placement.induced placement i :=
  foldl_add placement progress.induced i

/-- Leaving a branch takes back what entering it added. -/
theorem leave_induced {before after : Progress g} {placement : Placement g}
    (entered : after.induced = (before.enter placement).induced) : (after.leave placement).induced = before.induced := by
  apply Vector.ext_at
  intro i
  have left : (after.leave placement).induced[i] = after.induced[i] - Placement.induced placement i :=
    foldl_subtract placement after.induced i
  rw [left, entered, enter_induced, add_sub_cancel_right]

end Progress

end DanglingBond
