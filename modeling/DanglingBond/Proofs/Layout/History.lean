import Mathlib
import DanglingBond.Proofs.Layout.Occupancy

/-!
A layout remembers its history just as far as it has to. What stands at a coordinate is what the last
change put there (`lastKind`), and the sites come in the order in which their coordinates were last
occupied (`OccupiedSince`). One change keeps this (`Recorded.assign`), so it holds after any number of
them, in whichever coordinates they name their places (`ordered_finite_map`).
-/

namespace DanglingBond

/-- A place of the lattice, named by dimer and atom or by atom row. -/
inductive Place where
  | dimer (coord : Coord)
  | row (coord : OffsetCoord)

def Place.coord : Place → Coord
  | dimer coord => coord
  | row coord => coord.toCoord

namespace Layout

/-- What is put at a place; `empty` takes away what is there. -/
structure Change where
  place : Place
  kind : SiteKind

def Change.site (change : Change) : Site := ⟨change.place.coord, change.kind⟩

/-- The layout after changes to an empty one, made in their order. -/
def ofChanges (changes : List Change) : Layout := ofSites (changes.map Change.site)

/-- What the last change for a coordinate put there, and nothing where there was none. -/
def lastKind (changes : List Change) (coord : Coord) : SiteKind :=
  ((changes.reverse.find? (·.place.coord = coord)).map (·.kind)).getD .empty

/-- The change with this number turns a coordinate from unoccupied to occupied. -/
structure Occupies (changes : List Change) (coord : Coord) (time : Nat) : Prop where
  before : lastKind (changes.take time) coord = .empty
  after : lastKind (changes.take (time + 1)) coord ≠ .empty

/-- The change with this number is the last one to occupy a coordinate. -/
structure OccupiedSince (changes : List Change) (coord : Coord) (time : Nat) : Prop where
  occupies : Occupies changes coord time
  last : ∀ later, Occupies changes coord later → later ≤ time

/-- The layout is what the changes have made of an empty one: a map from coordinates to kinds in which each
    coordinate has the kind of its last change, ordered by the changes that last occupied the coordinates. -/
structure Recorded (changes : List Change) (layout : Layout) : Prop where
  distinct : layout.Distinct
  inhabited : ∀ site ∈ layout.sites, site.kind ≠ .empty
  kinds : ∀ coord, layout.kindAt coord = lastKind changes coord
  since : ∀ coord ∈ layout.sites.map (·.coord), ∃ time, OccupiedSince changes coord time
  ordered : (layout.sites.map (·.coord)).Pairwise fun coord later =>
    ∃ i j, OccupiedSince changes coord i ∧ OccupiedSince changes later j ∧ i < j

section
variable {changes : List Change} {change : Change} {coord : Coord} {time : Nat}

theorem lastKind_append : lastKind (changes ++ [change]) coord =
    if change.place.coord = coord then change.kind else lastKind changes coord := by
  unfold lastKind
  rw [List.reverse_append, List.reverse_singleton, List.singleton_append, List.find?_cons]
  by_cases same : change.place.coord = coord
  · simp [same]
  · simp [same]

theorem Occupies.lt (occupies : Occupies changes coord time) : time < changes.length := by
  by_contra beyond
  have before := occupies.before
  have after := occupies.after
  rw [List.take_of_length_le (by omega)] at before after
  exact after before

/-- One more change occupies a coordinate when it puts something where there was nothing. -/
theorem occupies_append_iff : Occupies (changes ++ [change]) coord time ↔ Occupies changes coord time ∨
    time = changes.length ∧ lastKind changes coord = .empty ∧ change.place.coord = coord ∧ change.kind ≠ .empty := by
  constructor
  · intro occupies
    have inside := occupies.lt
    rw [List.length_append, List.length_singleton] at inside
    rcases Nat.lt_or_eq_of_le (Nat.le_of_lt_succ inside) with earlier | same
    · left
      have before := occupies.before
      have after := occupies.after
      rw [List.take_append_of_le_length (by omega)] at before after
      exact ⟨before, after⟩
    · subst same
      have before := occupies.before
      have after := occupies.after
      rw [List.take_left] at before
      rw [List.take_of_length_le (by simp), lastKind_append] at after
      by_cases here : change.place.coord = coord
      · rw [if_pos here] at after
        exact .inr ⟨rfl, before, here, after⟩
      · rw [if_neg here] at after
        exact absurd before after
  · rintro (occupies | ⟨rfl, before, here, something⟩)
    · have inside := occupies.lt
      have before := occupies.before
      have after := occupies.after
      constructor <;> rwa [List.take_append_of_le_length (by omega)]
    · constructor
      · rwa [List.take_left]
      · rwa [List.take_of_length_le (by simp), lastKind_append, if_pos here]

/-- As long as a coordinate is occupied, no change occupies it again. -/
theorem OccupiedSince.append (since : OccupiedSince changes coord time) (occupied : lastKind changes coord ≠ .empty)
    (change : Change) : OccupiedSince (changes ++ [change]) coord time := by
  refine ⟨occupies_append_iff.mpr (.inl since.occupies), ?_⟩
  intro later occupies
  rcases occupies_append_iff.mp occupies with earlier | ⟨_, unoccupied, _⟩
  · exact since.last later earlier
  · exact absurd unoccupied occupied

theorem occupiedSince_new (unoccupied : lastKind changes change.place.coord = .empty) (something : change.kind ≠ .empty) :
    OccupiedSince (changes ++ [change]) change.place.coord changes.length := by
  refine ⟨occupies_append_iff.mpr (.inr ⟨rfl, unoccupied, rfl, something⟩), ?_⟩
  intro later occupies
  have inside := occupies.lt
  rw [List.length_append, List.length_singleton] at inside
  omega

end

section
variable {layout : Layout} {coord other : Coord} {kind : SiteKind} {index : Nat}

/-- The four things that putting something at a coordinate can come to. -/
theorem assign_cases (layout : Layout) (coord : Coord) (kind : SiteKind) :
    (kind = .empty ∧ layout.indexOf? coord = none ∧ layout.assign coord kind = layout) ∨
    (kind = .empty ∧ ∃ index, layout.indexOf? coord = some index ∧
      layout.assign coord kind = ⟨layout.sites.eraseIdx index⟩) ∨
    (kind ≠ .empty ∧ layout.indexOf? coord = none ∧ layout.assign coord kind = ⟨layout.sites ++ [⟨coord, kind⟩]⟩) ∨
    (kind ≠ .empty ∧ ∃ index, layout.indexOf? coord = some index ∧
      layout.assign coord kind = ⟨layout.sites.set index ⟨coord, kind⟩⟩) := by
  unfold assign
  cases layout.indexOf? coord with
  | none => cases kind <;> simp
  | some index => cases kind <;> simp

/-- Taking a site away is the same as leaving out all sites at its coordinate, as there is no other. -/
theorem eraseIdx_eq_filter (distinct : layout.Distinct) (found : layout.indexOf? coord = some index) :
    layout.sites.eraseIdx index = layout.sites.filter (·.coord ≠ coord) := by
  obtain ⟨sites⟩ := layout
  simp only [Distinct, indexOf?] at distinct found ⊢
  induction sites generalizing index with
  | nil => simp at found
  | cons site sites ih =>
    rw [List.map_cons, List.nodup_cons] at distinct
    rw [List.findIdx?_cons] at found
    by_cases same : site.coord = coord
    · obtain rfl : 0 = index := by simpa [same] using found
      have others : ∀ other ∈ sites, other.coord ≠ coord := by
        intro other member twice
        exact distinct.1 (List.mem_map.mpr ⟨other, member, twice.trans same.symm⟩)
      rw [List.eraseIdx_cons_zero, List.filter_cons_of_neg (by simp [same]), eq_comm, List.filter_eq_self]
      simpa using others
    · obtain ⟨later, behind, rfl⟩ : ∃ i, sites.findIdx? (·.coord = coord) = some i ∧ i + 1 = index := by
        simpa [same] using found
      rw [List.eraseIdx_cons_succ, ih distinct.2 behind, List.filter_cons_of_pos (by simp [same])]

/-- Taking a site away moves those behind it up by one. -/
theorem indexOf?_eraseIdx (found : layout.indexOf? coord = some index) (apart : other ≠ coord) :
    indexOf? ⟨layout.sites.eraseIdx index⟩ other = (layout.indexOf? other).map fun i => if index < i then i - 1 else i := by
  obtain ⟨sites⟩ := layout
  simp only [indexOf?] at found ⊢
  induction sites generalizing index with
  | nil => simp at found
  | cons site sites ih =>
    rw [List.findIdx?_cons] at found
    by_cases same : site.coord = coord
    · obtain rfl : 0 = index := by simpa [same] using found
      have different : site.coord ≠ other := fun equal => apart (equal.symm.trans same)
      simp [List.findIdx?_cons, different, Function.comp_def]
    · obtain ⟨later, behind, rfl⟩ : ∃ i, sites.findIdx? (·.coord = coord) = some i ∧ i + 1 = index := by
        simpa [same] using found
      rw [List.eraseIdx_cons_succ, List.findIdx?_cons, List.findIdx?_cons, ih behind]
      by_cases here : site.coord = other
      · simp [here]
      · simp only [here, decide_false, Bool.false_eq_true, if_false, Option.map_map]
        congr 1
        funext i
        simp only [Function.comp_apply, Nat.add_lt_add_iff_right]
        split <;> omega

private theorem find?_set (found : layout.indexOf? coord = some index) (kind : SiteKind) (other : Coord) :
    (layout.sites.set index ⟨coord, kind⟩).find? (·.coord = other) =
      if coord = other then some ⟨coord, kind⟩ else layout.sites.find? (·.coord = other) := by
  obtain ⟨sites⟩ := layout
  simp only [indexOf?] at found ⊢
  induction sites generalizing index with
  | nil => simp at found
  | cons site sites ih =>
    rw [List.findIdx?_cons] at found
    by_cases same : site.coord = coord
    · obtain rfl : 0 = index := by simpa [same] using found
      by_cases here : coord = other
      · simp [here]
      · simp [here, same]
    · obtain ⟨later, behind, rfl⟩ : ∃ i, sites.findIdx? (·.coord = coord) = some i ∧ i + 1 = index := by
        simpa [same] using found
      rw [List.set_cons_succ, List.find?_cons, List.find?_cons, ih behind]
      by_cases here : coord = other
      · have different : site.coord ≠ other := fun equal => same (equal.trans here.symm)
        simp [here, different]
      · simp [here]

private theorem find?_without (sites : List Site) (coord other : Coord) :
    (sites.filter (·.coord ≠ coord)).find? (·.coord = other) =
      if coord = other then none else sites.find? (·.coord = other) := by
  rw [List.find?_filter]
  by_cases here : coord = other
  · simp [here]
  · rw [if_neg here]
    congr 1
    funext site
    by_cases there : site.coord = other
    · simp [there, Ne.symm here]
    · simp [there]

theorem kindAt_of_unoccupied (unoccupied : layout.indexOf? coord = none) : layout.kindAt coord = .empty := by
  have nowhere : layout.sites.find? (·.coord = coord) = none := by
    simpa [indexOf?_eq_none_iff] using unoccupied
  rw [kindAt, nowhere]
  rfl

/-- What is put at a coordinate is there afterwards, and all others keep what they have. -/
theorem kindAt_assign (distinct : layout.Distinct) (coord : Coord) (kind : SiteKind) (other : Coord) :
    (layout.assign coord kind).kindAt other = if coord = other then kind else layout.kindAt other := by
  rcases layout.assign_cases coord kind with
    ⟨rfl, nowhere, same⟩ | ⟨rfl, index, found, same⟩ | ⟨_, nowhere, same⟩ | ⟨_, index, found, same⟩
  · rw [same]
    by_cases here : coord = other
    · rw [if_pos here, ← here, kindAt_of_unoccupied nowhere]
    · rw [if_neg here]
  · rw [same, kindAt, eraseIdx_eq_filter distinct found, find?_without, kindAt]
    by_cases here : coord = other
    · simp [here]
    · simp [here]
  · rw [same, kindAt, List.find?_append, kindAt]
    by_cases here : coord = other
    · have unoccupied : layout.sites.find? (·.coord = other) = none := by
        simpa [indexOf?_eq_none_iff, here] using nowhere
      simp [here, unoccupied]
    · simp [here]
  · rw [same, kindAt, find?_set found, kindAt]
    by_cases here : coord = other
    · simp [here]
    · simp [here]

/-- Where something is put is where it is found. -/
theorem assignedIndex?_eq (distinct : layout.Distinct) (coord : Coord) (kind : SiteKind) :
    layout.assignedIndex? coord kind = (layout.assign coord kind).indexOf? coord := by
  unfold assignedIndex?
  rcases layout.assign_cases coord kind with
    ⟨nothing, nowhere, same⟩ | ⟨nothing, index, found, same⟩ | ⟨something, nowhere, same⟩ | ⟨something, index, found, same⟩
  · rw [if_pos nothing, same, nowhere]
  · rw [if_pos nothing, same, eq_comm, indexOf?_eq_none_iff, eraseIdx_eq_filter distinct found]
    simp
  · rw [if_neg something, same, nowhere, indexOf?, List.findIdx?_append]
    have unoccupied : layout.sites.findIdx? (·.coord = coord) = none := nowhere
    simp [unoccupied]
  · have unmoved : indexOf? ⟨layout.sites.set index ⟨coord, kind⟩⟩ coord = layout.indexOf? coord := by
      have listed (sites : List Site) : sites.findIdx? (·.coord = coord) = (sites.map (·.coord)).findIdx? (· = coord) := by
        rw [List.findIdx?_map]
        rfl
      rw [indexOf?, indexOf?, listed, coords_set found, listed]
    rw [if_neg something, same, unmoved, found]
    rfl

theorem kindAt_of_occupied (inhabited : ∀ site ∈ layout.sites, site.kind ≠ .empty)
    (occupied : coord ∈ layout.sites.map (·.coord)) : layout.kindAt coord ≠ .empty := by
  obtain ⟨site, member, here⟩ := List.mem_map.mp occupied
  have somewhere : (layout.sites.find? (·.coord = coord)).isSome := by
    rw [List.find?_isSome]
    exact ⟨site, member, decide_eq_true here⟩
  obtain ⟨first, found⟩ := Option.isSome_iff_exists.mp somewhere
  rw [kindAt, found]
  exact inhabited first (List.mem_of_find?_eq_some found)

theorem assign_inhabited (inhabited : ∀ site ∈ layout.sites, site.kind ≠ .empty) (coord : Coord) (kind : SiteKind) :
    ∀ site ∈ (layout.assign coord kind).sites, site.kind ≠ .empty := by
  intro site member
  rcases layout.assign_cases coord kind with ⟨_, _, same⟩ | ⟨_, _, _, same⟩ | ⟨something, _, same⟩ | ⟨something, _, _, same⟩ <;>
    rw [same] at member
  · exact inhabited site member
  · exact inhabited site (List.mem_of_mem_eraseIdx member)
  · rcases List.mem_append.mp member with old | new
    · exact inhabited site old
    · rw [List.mem_singleton.mp new]
      exact something
  · rcases List.mem_or_eq_of_mem_set member with old | rfl
    · exact inhabited site old
    · exact something

end

section
variable {changes : List Change} {layout : Layout}

theorem Recorded.occupied (recorded : Recorded changes layout) {coord : Coord}
    (listed : coord ∈ layout.sites.map (·.coord)) : lastKind changes coord ≠ .empty := by
  rw [← recorded.kinds]
  exact kindAt_of_occupied recorded.inhabited listed

/-- One more change. -/
theorem Recorded.assign (recorded : Recorded changes layout) (change : Change) :
    Recorded (changes ++ [change]) (layout.assign change.place.coord change.kind) := by
  -- Whatever the change does, it occupies no coordinate that is occupied already.
  have since : ∀ coord ∈ layout.sites.map (·.coord), ∃ time, OccupiedSince (changes ++ [change]) coord time := by
    intro coord listed
    obtain ⟨time, since⟩ := recorded.since coord listed
    exact ⟨time, since.append (recorded.occupied listed) change⟩
  have ordered : (layout.sites.map (·.coord)).Pairwise fun coord later => ∃ i j,
      OccupiedSince (changes ++ [change]) coord i ∧ OccupiedSince (changes ++ [change]) later j ∧ i < j := by
    refine recorded.ordered.imp_of_mem ?_
    rintro coord later listed laterListed ⟨i, j, first, second, less⟩
    exact ⟨i, j, first.append (recorded.occupied listed) change, second.append (recorded.occupied laterListed) change, less⟩
  have kinds (coord : Coord) : (layout.assign change.place.coord change.kind).kindAt coord = lastKind (changes ++ [change]) coord := by
    rw [kindAt_assign recorded.distinct, lastKind_append, recorded.kinds]
  refine ⟨assign_distinct recorded.distinct _ _, assign_inhabited recorded.inhabited _ _, kinds, ?_, ?_⟩ <;>
    rcases layout.assign_cases change.place.coord change.kind with
      ⟨_, _, same⟩ | ⟨_, index, _, same⟩ | ⟨something, nowhere, same⟩ | ⟨_, index, found, same⟩ <;>
    rw [same]
  · exact since
  · intro coord listed
    exact since coord (((List.eraseIdx_sublist _ _).map _).subset listed)
  · intro coord listed
    rw [List.map_append] at listed
    rcases List.mem_append.mp listed with old | new
    · exact since coord old
    · rw [List.mem_singleton.mp new]
      exact ⟨_, occupiedSince_new (recorded.kinds _ ▸ kindAt_of_unoccupied nowhere) something⟩
  · rw [coords_set found]
    exact since
  · exact ordered
  · exact ordered.sublist ((List.eraseIdx_sublist _ _).map _)
  · rw [List.map_append, List.pairwise_append]
    refine ⟨ordered, List.pairwise_singleton _ _, ?_⟩
    intro coord listed new isNew
    obtain ⟨time, occupiedSince⟩ := recorded.since coord listed
    rw [List.mem_singleton.mp isNew]
    exact ⟨time, changes.length, occupiedSince.append (recorded.occupied listed) change,
      occupiedSince_new (recorded.kinds _ ▸ kindAt_of_unoccupied nowhere) something, occupiedSince.occupies.lt⟩
  · rw [coords_set found]
    exact ordered

end

theorem recorded_nothing : Recorded [] {} := by
  refine ⟨List.nodup_nil, ?_, fun _ => rfl, ?_, List.Pairwise.nil⟩
  · intro site member
    exact absurd member List.not_mem_nil
  · intro coord listed
    exact absurd listed List.not_mem_nil

theorem ofChanges_append (changes : List Change) (change : Change) :
    ofChanges (changes ++ [change]) = (ofChanges changes).assign change.place.coord change.kind := by
  simp [ofChanges, ofSites, Change.site]

theorem ofChanges_recorded (changes : List Change) : Recorded changes (ofChanges changes) := by
  induction changes using List.reverseRecOn with
  | nil => exact recorded_nothing
  | append_singleton changes change ih =>
    rw [ofChanges_append]
    exact ih.assign change

theorem ofSites_inhabited (sites : List Site) : ∀ site ∈ (ofSites sites).sites, site.kind ≠ .empty := by
  have recorded := ofChanges_recorded (sites.map fun site => ⟨.dimer site.coord, site.kind⟩)
  have same : ofChanges (sites.map fun site => ⟨.dimer site.coord, site.kind⟩) = ofSites sites := by
    simp [ofChanges, Function.comp_def, Change.site, Place.coord]
  exact same ▸ recorded.inhabited

/-- Sites at different places, none of them empty, are the sites of the layout that is built from them. -/
theorem ofSites_sites {sites : List Site} (distinct : (sites.map (·.coord)).Nodup)
    (inhabited : ∀ site ∈ sites, site.kind ≠ .empty) : (ofSites sites).sites = sites := by
  induction sites using List.reverseRecOn with
  | nil => rfl
  | append_singleton sites site ih =>
    rw [List.map_append, List.map_singleton, List.nodup_append'] at distinct
    have built := ih distinct.1 fun other member => inhabited other (List.mem_append_left _ member)
    have nowhere : (ofSites sites).indexOf? site.coord = none := by
      rw [indexOf?_eq_none_iff, built]
      exact fun member => distinct.2.2 member List.mem_cons_self
    have appended : ofSites (sites ++ [site]) = (ofSites sites).assign site.coord site.kind := by simp [ofSites]
    rw [appended]
    rcases (ofSites sites).assign_cases site.coord site.kind with
      ⟨nothing, _⟩ | ⟨nothing, _⟩ | ⟨_, _, same⟩ | ⟨_, index, found, _⟩
    · exact absurd nothing (inhabited site (by simp))
    · exact absurd nothing (inhabited site (by simp))
    · rw [same, built]
    · rw [nowhere] at found
      contradiction

/-- A layout is an ordered finite map. After any changes no coordinate occurs twice and no site is empty, the
    kind at a coordinate is that of the last change there, and the sites are in the order in which their
    coordinates were last occupied. A change gives the index at which its coordinate is found afterwards, which
    is none exactly for a removal. A removal leaves the other sites in their order, and those behind the removed
    one, and no others, move up by one. -/
theorem ordered_finite_map (changes : List Change) :
    Recorded changes (ofChanges changes) ∧
    ∀ change : Change,
      (ofChanges changes).assignedIndex? change.place.coord change.kind =
        (ofChanges (changes ++ [change])).indexOf? change.place.coord ∧
      ((ofChanges (changes ++ [change])).indexOf? change.place.coord = none ↔ change.kind = .empty) ∧
      (change.kind = .empty →
        (ofChanges (changes ++ [change])).sites = (ofChanges changes).sites.filter (·.coord ≠ change.place.coord) ∧
        ∀ index, (ofChanges changes).indexOf? change.place.coord = some index → ∀ other ≠ change.place.coord,
          (ofChanges (changes ++ [change])).indexOf? other =
            ((ofChanges changes).indexOf? other).map fun i => if index < i then i - 1 else i) := by
  have recorded := ofChanges_recorded changes
  refine ⟨recorded, fun change => ?_⟩
  have index := assignedIndex?_eq recorded.distinct change.place.coord change.kind
  rw [ofChanges_append]
  refine ⟨index, ?_, ?_⟩
  · rw [← index]
    simp [assignedIndex?]
  · intro removal
    rcases (ofChanges changes).assign_cases change.place.coord change.kind with
      ⟨_, nowhere, same⟩ | ⟨_, index, found, same⟩ | ⟨something, _, _⟩ | ⟨something, _, _, _⟩
    · rw [same, nowhere]
      refine ⟨?_, by simp⟩
      rw [eq_comm, List.filter_eq_self]
      simpa [indexOf?_eq_none_iff] using nowhere
    · rw [same, found]
      refine ⟨eraseIdx_eq_filter recorded.distinct found, ?_⟩
      rintro _ ⟨⟩ other apart
      exact indexOf?_eraseIdx found apart
    · exact absurd removal something
    · exact absurd removal something

/-- The first of two sites is taken away and comes back as an output, named by its atom row. -/
def reoccupied : List Change :=
  [⟨.dimer ⟨0, 0, 0⟩, .normal⟩, ⟨.row ⟨0, 1⟩, .input⟩, ⟨.dimer ⟨0, 0, 0⟩, .empty⟩, ⟨.row ⟨0, 0⟩, .output⟩]

/-- It is the last site now, and the first again once the other one is taken away. -/
theorem ordered_finite_map_reoccupied :
    (ofChanges reoccupied).kindAt ⟨0, 0, 0⟩ = .output ∧ (ofChanges reoccupied).indexOf? ⟨0, 0, 0⟩ = some 1 ∧
      (ofChanges (reoccupied ++ [⟨.dimer ⟨0, 0, 1⟩, .empty⟩])).indexOf? ⟨0, 0, 0⟩ = some 0 := by
  obtain ⟨recorded, changed⟩ := ordered_finite_map reoccupied
  obtain ⟨_, _, removal⟩ := changed ⟨.dimer ⟨0, 0, 1⟩, .empty⟩
  refine ⟨(recorded.kinds _).trans (by decide), by decide, ?_⟩
  exact ((removal rfl).2 0 (by decide) ⟨0, 0, 0⟩ (by decide)).trans (by decide)

end Layout

end DanglingBond
