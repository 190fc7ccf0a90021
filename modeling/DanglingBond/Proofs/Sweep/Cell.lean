import Mathlib
import DanglingBond.Sweep

/-!
Cells, batches and the classification. Two cells are adjacent when one index is the same and the other
differs by one (`Cell.Adjacent`), which is what the neighbours within a grid are (`mem_neighbours_iff`).
What is open in a batch depends only on which cells are in it (`openAmong_congr`), and a domain keeps the
first status that a cell is given (`status?_record`), so that it grows with every open cell (`size_record`).
-/

namespace DanglingBond

namespace Cell

instance : Std.TransOrd Cell :=
  inferInstanceAs (Std.TransCmp (compareLex (compareOn Cell.x) (compareOn Cell.y)))

instance : Std.LawfulEqOrd Cell where
  eq_of_compare := by
    rintro ⟨x, y⟩ ⟨x', y'⟩ same
    have indices : (compare x x').then (compare y y') = .eq := same
    rw [Ordering.then_eq_eq, Nat.compare_eq_eq, Nat.compare_eq_eq] at indices
    rw [indices.1, indices.2]

/-- The cells lie side by side along one of the axes. -/
def Adjacent (cell other : Cell) : Prop :=
  (cell.y = other.y ∧ (cell.x + 1 = other.x ∨ other.x + 1 = cell.x)) ∨
    (cell.x = other.x ∧ (cell.y + 1 = other.y ∨ other.y + 1 = cell.y))

end Cell

namespace Grid

variable {K : Type} [Scalar K] (grid : Grid K)

theorem mem_cells_iff (cell : Cell) : cell ∈ grid.cells ↔ grid.Contains cell := by
  obtain ⟨x, y⟩ := cell
  simp [cells, Contains]

theorem length_cells : grid.cells.length = grid.numPoints := by
  simp [cells, numPoints]

theorem cells_nodup : grid.cells.Nodup := by
  refine List.nodup_flatMap.mpr ⟨fun x _ => List.nodup_range.map ?_, List.nodup_range.imp ?_⟩
  · intro y y' same
    exact congrArg Cell.y same
  · intro x x' apart cell first second
    obtain ⟨_, _, rfl⟩ := List.mem_map.mp first
    obtain ⟨_, _, same⟩ := List.mem_map.mp second
    exact apart (congrArg Cell.x same).symm

/-- The neighbours of a cell of the grid are the cells of the grid that lie beside it. -/
theorem mem_neighbours_iff {cell : Cell} (inside : grid.Contains cell) (other : Cell) :
    other ∈ grid.neighbours cell ↔ grid.Contains other ∧ cell.Adjacent other := by
  obtain ⟨x, y⟩ := cell
  obtain ⟨x', y'⟩ := other
  obtain ⟨left, below⟩ := inside
  simp only at left below
  simp only [neighbours, Cell.neighbours, List.mem_append, List.mem_ite_nil_right, List.mem_singleton,
    Cell.mk.injEq, Contains, Cell.Adjacent]
  omega

theorem drawCell_contained {σ : Type} [RandomSource σ] (random : σ) : grid.Contains (grid.drawCell random).1 :=
  ⟨Fin.isLt _, Fin.isLt _⟩

theorem drawCells_contained {σ : Type} [RandomSource σ] (count : Nat) (random : σ) :
    ∀ cell ∈ grid.drawCells count random, grid.Contains cell := by
  induction count generalizing random with
  | zero => simp [drawCells]
  | succ count ih =>
    intro cell member
    rcases List.mem_cons.mp member with rfl | later
    · exact grid.drawCell_contained random
    · exact ih _ cell later

theorem length_drawCells {σ : Type} [RandomSource σ] (count : Nat) (random : σ) :
    (grid.drawCells count random).length = count := by
  induction count generalizing random with
  | zero => rfl
  | succ count ih => exact congrArg (· + 1) (ih _)

end Grid

namespace Domain

variable {K : Type} {grid : Grid K}

@[simp] theorem status?_empty (cell : Cell) : ({} : Domain grid).status? cell = none :=
  Std.TreeMap.getElem?_emptyc

theorem mem_iff_isSome (domain : Domain grid) (cell : Cell) :
    cell ∈ domain.statuses ↔ (domain.status? cell).isSome = true :=
  Std.TreeMap.mem_iff_isSome_getElem?

/-- A cell takes the status it is first given. -/
theorem status?_record (domain : Domain grid) (cell other : Cell) (status : OperationalStatus) :
    (domain.record cell status).status? other =
      (domain.status? other).or (if cell = other then some status else none) := by
  have member := domain.mem_iff_isSome cell
  simp only [status?] at member
  simp only [status?, record, Std.TreeMap.getElem?_insertIfNew, Std.LawfulEqCmp.compare_eq_iff_eq]
  by_cases same : cell = other
  · subst same
    cases found : domain.statuses[cell]? with
    | none => simp [member, found]
    | some known => simp [member, found]
  · simp [same]

theorem status?_record_of_ne (domain : Domain grid) {cell other : Cell} (apart : cell ≠ other)
    (status : OperationalStatus) : (domain.record cell status).status? other = domain.status? other := by
  rw [status?_record, if_neg apart, Option.or_none]

/-- Every open cell that is given a status adds one to the classified cells. -/
theorem size_record {domain : Domain grid} {cell : Cell} (isOpen : domain.status? cell = none)
    (status : OperationalStatus) : (domain.record cell status).size = domain.size + 1 := by
  have new : cell ∉ domain.statuses := by simp [mem_iff_isSome, isOpen]
  rw [size, record, Std.TreeMap.size_insertIfNew, if_neg new, size]

theorem mem_operationalCells_iff (domain : Domain grid) (cell : Cell) :
    cell ∈ domain.operationalCells ↔ domain.status? cell = some .operational := by
  simp [operationalCells, entries, status?, Std.TreeMap.mem_toList_iff_getElem?_eq_some]

theorem operationalCells_nodup (domain : Domain grid) : domain.operationalCells.Nodup := by
  have different : domain.entries.Pairwise fun entry other => entry.1 ≠ other.1 :=
    Std.TreeMap.distinct_keys_toList.imp fun apart same => apart (Std.LawfulEqCmp.compare_eq_iff_eq.mpr same)
  exact List.pairwise_map.mpr (different.filter _)

end Domain

namespace Sweep

@[simp] theorem mem_batchOf {cells : List Cell} {cell : Cell} : cell ∈ batchOf cells ↔ cell ∈ cells := by
  rw [batchOf, Std.TreeSet.mem_toList, Std.TreeSet.mem_ofList, List.contains_iff_mem]

theorem batchOf_nodup (cells : List Cell) : (batchOf cells).Nodup :=
  Std.TreeSet.distinct_toList.imp fun apart same => apart (Std.LawfulEqCmp.compare_eq_iff_eq.mpr same)

/-- Order and repetition do not matter to a batch. -/
theorem batchOf_congr {cells others : List Cell} (same : ∀ cell, cell ∈ cells ↔ cell ∈ others) :
    batchOf cells = batchOf others := by
  apply Std.TreeSet.Equiv.toList_eq
  apply Std.TreeSet.Equiv.of_forall_mem_iff
  intro cell
  rw [Std.TreeSet.mem_ofList, Std.TreeSet.mem_ofList, List.contains_iff_mem, List.contains_iff_mem, same]

variable {K : Type} {grid : Grid K} (domain : Domain grid)

@[simp] theorem mem_openAmong {cells : List Cell} {cell : Cell} :
    cell ∈ openAmong domain cells ↔ cell ∈ cells ∧ domain.status? cell = none := by
  simp [openAmong]

theorem openAmong_nodup (cells : List Cell) : (openAmong domain cells).Nodup := batchOf_nodup _

theorem openAmong_congr {cells others : List Cell} (same : ∀ cell, cell ∈ cells ↔ cell ∈ others) :
    openAmong domain cells = openAmong domain others :=
  batchOf_congr fun cell => by simp [same]

end Sweep

end DanglingBond
