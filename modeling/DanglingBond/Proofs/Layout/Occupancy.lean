import Mathlib
import DanglingBond.Layout

/-!
However a layout is built, no place is occupied twice (`ofSites_distinct`). So a place has one kind only,
and the places of one kind are different from each other and from those of any other kind.
-/

namespace DanglingBond.Layout

/-- No place is occupied twice. -/
def Distinct (layout : Layout) : Prop := (layout.sites.map (·.coord)).Nodup

variable {layout : Layout}

theorem Distinct.nodup (distinct : layout.Distinct) : layout.sites.Nodup := List.Nodup.of_map _ distinct

theorem coord_of_indexOf? {coord : Coord} {index : Nat} (found : layout.indexOf? coord = some index) :
    (layout.sites.map (·.coord))[index]? = some coord := by
  obtain ⟨inside, same, _⟩ := List.findIdx?_eq_some_iff_getElem.mp found
  simpa [List.getElem?_eq_getElem inside] using same

theorem indexOf?_eq_none_iff {coord : Coord} : layout.indexOf? coord = none ↔ coord ∉ layout.sites.map (·.coord) := by
  simp [indexOf?, List.findIdx?_eq_none_iff]

/-- A site that is replaced in its place leaves all coordinates where they are. -/
theorem coords_set {coord : Coord} {index : Nat} (found : layout.indexOf? coord = some index) (kind : SiteKind) :
    (layout.sites.set index ⟨coord, kind⟩).map (·.coord) = layout.sites.map (·.coord) := by
  obtain ⟨inside, same⟩ := List.getElem?_eq_some_iff.mp (coord_of_indexOf? found)
  rw [List.map_set, ← same, List.set_getElem_self]

theorem assign_distinct (distinct : layout.Distinct) (coord : Coord) (kind : SiteKind) :
    (layout.assign coord kind).Distinct := by
  unfold assign
  cases found : layout.indexOf? coord with
  | none =>
    have unoccupied := indexOf?_eq_none_iff.mp found
    have appended : (Layout.mk (layout.sites ++ [⟨coord, kind⟩])).Distinct := by
      simp only [Distinct, List.map_append, List.map_cons, List.map_nil]
      exact distinct.append (List.nodup_singleton coord) (by simpa using unoccupied)
    cases kind with
    | empty => exact distinct
    | normal | input | output => exact appended
  | some index =>
    have replaced : (Layout.mk (layout.sites.set index ⟨coord, kind⟩)).Distinct := by
      simp only [Distinct, coords_set found]
      exact distinct
    cases kind with
    | empty => exact distinct.sublist ((List.eraseIdx_sublist _ _).map _)
    | normal | input | output => exact replaced

theorem ofSites_distinct (sites : List Site) : (ofSites sites).Distinct := by
  have grown (layout : Layout) (distinct : layout.Distinct) :
      (sites.foldl (fun layout site => layout.assign site.coord site.kind) layout).Distinct := by
    induction sites generalizing layout with
    | nil => exact distinct
    | cons site sites ih => exact ih _ (assign_distinct distinct site.coord site.kind)
  exact grown {} List.nodup_nil

theorem mem_coordsOfKind_iff {coord : Coord} {kind : SiteKind} :
    coord ∈ layout.coordsOfKind kind ↔ ⟨coord, kind⟩ ∈ layout.sites := by
  simp only [coordsOfKind, List.mem_map, List.mem_filter, decide_eq_true_eq]
  constructor
  · rintro ⟨site, ⟨member, rfl⟩, rfl⟩
    exact member
  · exact fun member => ⟨_, ⟨member, rfl⟩, rfl⟩

/-- A place has one kind. -/
theorem kind_unique (distinct : layout.Distinct) {coord : Coord} {kind other : SiteKind}
    (first : coord ∈ layout.coordsOfKind kind) (second : coord ∈ layout.coordsOfKind other) : kind = other := by
  have same := List.inj_on_of_nodup_map distinct (mem_coordsOfKind_iff.mp first) (mem_coordsOfKind_iff.mp second) rfl
  exact congrArg Site.kind same

/-- Putting a dangling bond somewhere leaves no empty layout. -/
theorem assign_sites_ne_nil (coord : Coord) {kind : SiteKind} (some_kind : kind ≠ .empty) :
    (layout.assign coord kind).sites ≠ [] := by
  unfold assign
  cases found : layout.indexOf? coord with
  | none => cases kind <;> simp_all
  | some index =>
    have occupied : layout.sites ≠ [] := by
      rintro nothing
      simp [indexOf?, nothing] at found
    cases kind <;> simp_all

end DanglingBond.Layout
