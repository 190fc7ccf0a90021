import Mathlib
import DanglingBond.Lattice

/-!
The two ways to name a site of the lattice. An atom row is twice a dimer row and the atom in it, so halving
and doubling undo each other as long as the atom is one of two (`OffsetCoord.toOffset?_toCoord`,
`Coord.toCoord_of_toOffset?`). Doubling leaves the range of coordinates for the outer half of the dimer rows
(`Coord.exists_toOffset?_iff`), which no atom row comes from. Both ways put the sites in one order
(`OffsetCoord.compare_toCoord`).
-/

namespace DanglingBond

namespace OffsetCoord

/-- Two atom rows compare as their dimer rows do and, in one dimer row, as their atoms do. -/
theorem compare_rows (row other : Int) :
    (compare (row / 2) (other / 2)).then (compare (row % 2).toNat (other % 2).toNat) = compare row other := by
  have split := Int.mul_ediv_add_emod row 2
  have otherSplit := Int.mul_ediv_add_emod other 2
  rcases lt_trichotomy (row / 2) (other / 2) with above | same | below
  · rw [Int.compare_eq_lt.mpr above, Int.compare_eq_lt.mpr (by omega)]
    rfl
  · rw [Int.compare_eq_eq.mpr same, Ordering.eq_then]
    rcases lt_trichotomy row other with less | rfl | greater
    · rw [Int.compare_eq_lt.mpr less, Nat.compare_eq_lt.mpr (by omega)]
    · rw [Std.ReflOrd.compare_self, Std.ReflOrd.compare_self]
    · rw [Int.compare_eq_gt.mpr greater, Nat.compare_eq_gt.mpr (by omega)]
  · rw [Int.compare_eq_gt.mpr below, Int.compare_eq_gt.mpr (by omega)]
    rfl

/-- Sites compare by atom row and then by column, whichever way they are named. -/
theorem compare_toCoord (a b : OffsetCoord) :
    compare a.toCoord b.toCoord = (compare a.y b.y).then (compare a.x b.x) := by
  have rowwise : compare a.toCoord b.toCoord = (compare (a.y / 2) (b.y / 2)).then
    ((compare (a.y % 2).toNat (b.y % 2).toNat).then (compare a.x b.x)) := rfl
  rw [rowwise, ← Ordering.then_assoc, compare_rows]

theorem toCoord_lt_iff {a b : OffsetCoord} : a.toCoord < b.toCoord ↔ a.y < b.y ∨ a.y = b.y ∧ a.x < b.x := by
  have order : a.toCoord < b.toCoord ↔ compare a.toCoord b.toCoord = .lt := Iff.rfl
  rw [order, compare_toCoord, Ordering.then_eq_lt, Int.compare_eq_lt, Int.compare_eq_lt, Int.compare_eq_eq]

theorem toCoord_atom_le (site : OffsetCoord) : site.toCoord.z ≤ 1 := by
  simp only [toCoord]
  omega

/-- The dimer row of an atom row is a coordinate again. -/
theorem toCoord_fits {site : OffsetCoord} (inside : FitsCoordinate site.y) : FitsCoordinate site.toCoord.y := by
  simp only [FitsCoordinate, toCoord] at inside ⊢
  omega

theorem toOffset?_toCoord {site : OffsetCoord} (inside : FitsCoordinate site.y) : site.toCoord.toOffset? = some site := by
  have restored : site.y / 2 * 2 + (site.y % 2).toNat = site.y := by omega
  have doubled : FitsCoordinate (site.y / 2 * 2) := by
    simp only [FitsCoordinate] at inside ⊢
    omega
  simp only [Coord.toOffset?, toCoord, restored]
  exact if_pos ⟨doubled, inside⟩

end OffsetCoord

namespace Coord

variable {site : Coord} {offset : OffsetCoord}

theorem toOffset?_eq_some_iff : site.toOffset? = some offset ↔
    FitsCoordinate (site.y * 2) ∧ FitsCoordinate (site.y * 2 + site.z) ∧ ⟨site.x, site.y * 2 + site.z⟩ = offset := by
  by_cases inside : FitsCoordinate (site.y * 2) ∧ FitsCoordinate (site.y * 2 + site.z)
  · simp [toOffset?, inside]
  · simp only [toOffset?, if_neg inside, reduceCtorEq, false_iff]
    exact fun held => inside ⟨held.1, held.2.1⟩

/-- The upper and the lower atom of a dimer are found again in their atom rows. -/
theorem toCoord_of_toOffset? (atom : site.z ≤ 1) (converted : site.toOffset? = some offset) : offset.toCoord = site := by
  obtain ⟨_, _, rfl⟩ := toOffset?_eq_some_iff.mp converted
  obtain ⟨x, y, z⟩ := site
  simp only [OffsetCoord.toCoord, mk.injEq, true_and] at atom ⊢
  omega

/-- Doubling leaves the range of coordinates unless the dimer row is in the inner half of the range. -/
theorem exists_toOffset?_iff (atom : site.z ≤ 1) :
    (∃ offset, site.toOffset? = some offset) ↔ -(2 ^ 30) ≤ site.y ∧ site.y < 2 ^ 30 := by
  simp only [toOffset?_eq_some_iff, FitsCoordinate, exists_and_left, exists_eq', and_true]
  omega

end Coord

/-- Atom rows and dimers are two names for the same sites, in the same order. A site named by its atom row has
    one of two atoms and a dimer row in the range of coordinates, and converting it back keeps within this
    range and gives the name it came from. The other way round, one of the two atoms of a dimer is found again
    by its atom row if it has one in the range, as it does in the inner half of the dimer rows. -/
theorem lattice_views_agree :
    (∀ site : OffsetCoord, FitsCoordinate site.y →
      site.toCoord.z ≤ 1 ∧ FitsCoordinate site.toCoord.y ∧ site.toCoord.toOffset? = some site) ∧
    (∀ site : Coord, site.z ≤ 1 →
      (∀ offset, site.toOffset? = some offset → FitsCoordinate offset.y ∧ offset.toCoord = site) ∧
      ((∃ offset, site.toOffset? = some offset) ↔ -(2 ^ 30) ≤ site.y ∧ site.y < 2 ^ 30)) ∧
    ∀ a b : OffsetCoord, a.toCoord < b.toCoord ↔ a.y < b.y ∨ a.y = b.y ∧ a.x < b.x := by
  refine ⟨fun site inside => ?_, fun site atom => ⟨fun offset converted => ?_, ?_⟩, fun a b => ?_⟩
  · exact ⟨site.toCoord_atom_le, OffsetCoord.toCoord_fits inside, OffsetCoord.toOffset?_toCoord inside⟩
  · obtain ⟨_, inside, rfl⟩ := Coord.toOffset?_eq_some_iff.mp converted
    exact ⟨inside, Coord.toCoord_of_toOffset? atom converted⟩
  · exact Coord.exists_toOffset?_iff atom
  · exact OffsetCoord.toCoord_lt_iff

/-- The first and the last atom row, and the dimer row below the last one that has atom rows. -/
theorem lattice_views_agree_limits :
    (OffsetCoord.mk 3 (-(2 ^ 31))).toCoord.toOffset? = some ⟨3, -(2 ^ 31)⟩ ∧
    (OffsetCoord.mk 3 (2 ^ 31 - 1)).toCoord.toOffset? = some ⟨3, 2 ^ 31 - 1⟩ ∧
    (OffsetCoord.mk 4 7).toCoord = ⟨4, 3, 1⟩ ∧
    ¬ (∃ offset, (Coord.mk 0 (2 ^ 30) 1).toOffset? = some offset) ∧
    (OffsetCoord.mk 5 (-2)).toCoord < (OffsetCoord.mk 0 (-1)).toCoord := by
  obtain ⟨back, forth, order⟩ := lattice_views_agree
  have converted : (Coord.mk 4 3 1).toOffset? = some ⟨4, 7⟩ := by decide
  refine ⟨(back _ (by decide)).2.2, (back _ (by decide)).2.2, ((forth _ (by decide)).1 _ converted).2, ?_, ?_⟩
  · rw [(forth _ (by decide)).2]
    decide
  · exact (order _ _).mpr (by decide)

end DanglingBond
